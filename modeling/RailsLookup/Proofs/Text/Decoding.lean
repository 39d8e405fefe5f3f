import Mathlib
import RailsLookup.Text.Utf8

/-! # Decoding byte by byte

Each byte adds characters to the text and leaves a sequence under way, or none. A byte of ASCII
ends what is under way and stands for itself. Other bytes add no character of ASCII, since the
sequences that a byte opens stand for characters beyond ASCII. What a text is written as is read
as that text.
-/

namespace RailsLookup.Utf8

namespace Sequence

/-- The number of values that differ only in the bytes after the next one. -/
def unit (s : Sequence) : Nat := 64 ^ (s.missing - 1)

def least (s : Sequence) : Nat := (s.value * 64 + (s.lo - 0x80)) * s.unit

def greatest (s : Sequence) : Nat := (s.value * 64 + (s.hi - 0x80)) * s.unit + (s.unit - 1)

/-- However it is completed, the sequence stands for a character beyond ASCII. -/
structure Proper (s : Sequence) : Prop where
  lo_ge : 0x80 ≤ s.lo
  least_ge : 0x80 ≤ s.least
  range : s.greatest < 0xD800 ∨ 0xE000 ≤ s.least ∧ s.greatest < 0x110000

def next (s : Sequence) (b : UInt8) : Sequence :=
  { value := s.value * 64 + (b.toNat - 0x80), missing := s.missing - 1 }

variable {s : Sequence} {b : UInt8}

theorem unit_pos (s : Sequence) : 0 < s.unit := Nat.pow_pos (by decide)

theorem unit_eq (hm : ¬s.missing ≤ 1) : s.unit = 64 * (s.next b).unit := by
  have he : s.missing - 1 = s.missing - 1 - 1 + 1 := by omega
  unfold unit next
  rw [he, Nat.pow_succ, Nat.mul_comm, Nat.add_sub_cancel]

theorem lo_next : (s.next b).lo = 0x80 := rfl

theorem hi_next : (s.next b).hi = 0xBF := rfl

theorem least_next (hm : ¬s.missing ≤ 1) : (s.next b).least = (s.next b).value * s.unit := by
  have hu : s.unit = 64 * (s.next b).unit := unit_eq hm
  rw [least, lo_next, Nat.sub_self, Nat.add_zero]
  generalize (s.next b).unit = u at hu ⊢
  rw [hu, Nat.mul_assoc]

theorem greatest_next (hm : ¬s.missing ≤ 1) :
    (s.next b).greatest = (s.next b).value * s.unit + (s.unit - 1) := by
  have hu : s.unit = 64 * (s.next b).unit := unit_eq hm
  have hpos := (s.next b).unit_pos
  rw [greatest, hi_next]
  generalize (s.next b).unit = u at hu hpos ⊢
  generalize (s.next b).value = v
  rw [hu, Nat.add_mul, Nat.mul_assoc]
  omega

/-- A byte in the range of the next one narrows the values down. -/
theorem Proper.next (h : s.Proper) (hm : ¬s.missing ≤ 1) (hl : s.lo ≤ b.toNat)
    (hh : b.toNat ≤ s.hi) : (s.next b).Proper := by
  obtain ⟨_, hge, hrange⟩ := h
  have hv : (s.next b).value = s.value * 64 + (b.toNat - 0x80) := rfl
  have hless : s.least ≤ (s.next b).least := by
    rw [least_next hm]
    exact Nat.mul_le_mul_right _ (by omega)
  have hmore : (s.next b).greatest ≤ s.greatest := by
    rw [greatest_next hm]
    exact Nat.add_le_add_right (Nat.mul_le_mul_right _ (by omega)) _
  exact ⟨Nat.le_refl _, by omega, by omega⟩

theorem Proper.toNat_ofNat (h : s.Proper) (hm : s.missing ≤ 1) (hl : s.lo ≤ b.toNat)
    (hh : b.toNat ≤ s.hi) : 0x80 ≤ (Char.ofNat (s.next b).value).toNat := by
  obtain ⟨_, hge, hrange⟩ := h
  have hu : s.unit = 1 := by
    unfold unit
    rw [show s.missing - 1 = 0 by omega, Nat.pow_zero]
  have hv : (s.next b).value = s.value * 64 + (b.toNat - 0x80) := rfl
  simp only [least, greatest, hu] at hge hrange
  have hvalid : (s.next b).value.isValidChar := by
    unfold Nat.isValidChar
    omega
  rw [Char.toNat_ofNat, if_pos hvalid]
  omega

end Sequence

def begin (b : UInt8) : Text × Option Sequence :=
  match lead b with
  | .single c => ([c], none)
  | .opening s => ([], some s)
  | .invalid => ([replacement], none)

/-- What a byte adds after a sequence under way, and the sequence that is under way then. -/
def step : Option Sequence → UInt8 → Text × Option Sequence
  | none, b => begin b
  | some s, b =>
    if s.lo ≤ b.toNat ∧ b.toNat ≤ s.hi then
      if s.missing ≤ 1 then ([Char.ofNat (s.next b).value], none) else ([], some (s.next b))
    else (replacement :: (begin b).1, (begin b).2)

variable {pending : Option Sequence} {s : Sequence} {b : UInt8}

theorem decodeFrom_cons (pending : Option Sequence) (b : UInt8) (rest : Bytes) :
    decodeFrom pending (b :: rest) =
      (step pending b).1 ++ decodeFrom (step pending b).2 rest := by
  cases pending with
  | none =>
    rw [decodeFrom, step, begin]
    cases lead b <;> rfl
  | some s =>
    rw [decodeFrom, step, begin]
    split
    · split <;> rfl
    · cases lead b <;> rfl

theorem proper_of_lead (h : lead b = .opening s) : s.Proper := by
  have hb := b.toNat_lt
  dsimp only [lead] at h
  split_ifs at h
  all_goals
    obtain rfl := Lead.opening.inj h
    constructor
    all_goals norm_num [Sequence.least, Sequence.greatest, Sequence.unit]
    all_goals omega

theorem lead_of_lt (h : b.toNat < 0x80) : lead b = .single (Char.ofNat b.toNat) := by
  simp [lead, h]

theorem lead_ne_single (h : 0x80 ≤ b.toNat) (c : Char) : lead b ≠ .single c := by
  dsimp only [lead]
  rw [if_neg (by omega)]
  split_ifs <;> simp

def Sound (pending : Option Sequence) : Prop := ∀ s ∈ pending, s.Proper

theorem sound_none : Sound none := by
  simp [Sound]

theorem sound_begin (b : UInt8) : Sound (begin b).2 := by
  unfold begin
  split
  · exact sound_none
  · next s h =>
    rintro s ⟨⟩
    exact proper_of_lead h
  · exact sound_none

theorem Sound.step (h : Sound pending) (b : UInt8) : Sound (step pending b).2 := by
  fun_cases Utf8.step pending b with
  | case1 => exact sound_begin b
  | case2 => exact sound_none
  | case3 s _ hr hm =>
    intro s' hs
    obtain rfl := Option.some.inj hs
    exact (h s rfl).next hm hr.1 hr.2
  | case4 => exact sound_begin b

/-- A byte of ASCII stands for itself, after the end of what is under way. -/
theorem step_of_lt (h : Sound pending) (hb : b.toNat < 0x80) :
    step pending b =
      (pending.toList.map (fun _ => replacement) ++ [Char.ofNat b.toNat], none) := by
  have hbegin : begin b = ([Char.ofNat b.toNat], none) := by
    simp [begin, lead_of_lt hb]
  cases pending with
  | none => simpa [step] using hbegin
  | some s =>
    have hlo := (h s rfl).lo_ge
    rw [step, if_neg (by omega), hbegin]
    rfl

theorem le_toNat_begin (hb : 0x80 ≤ b.toNat) : ∀ c ∈ (begin b).1, 0x80 ≤ c.toNat := by
  intro c hc
  unfold begin at hc
  split at hc
  · next c' h => exact (lead_ne_single hb c' h).elim
  · cases hc
  · obtain rfl := List.mem_singleton.mp hc
    decide

theorem le_toNat_step (h : Sound pending) (hb : 0x80 ≤ b.toNat) :
    ∀ c ∈ (step pending b).1, 0x80 ≤ c.toNat := by
  fun_cases step pending b with
  | case1 => exact le_toNat_begin hb
  | case2 s _ hr hm =>
    simp only [List.mem_singleton, forall_eq]
    exact (h s rfl).toNat_ofNat hm hr.1 hr.2
  | case3 => simp
  | case4 =>
    rw [List.forall_mem_cons]
    exact ⟨by decide, le_toNat_begin hb⟩

theorem lead_two (hl : 0xC2 ≤ b.toNat) (hh : b.toNat < 0xE0) :
    lead b = .opening { value := b.toNat - 0xC0, missing := 1 } := by
  dsimp only [lead]
  rw [if_neg (by omega), if_neg (by omega), if_pos hh]

theorem lead_three (hl : 0xE0 ≤ b.toNat) (hh : b.toNat < 0xF0) :
    lead b = .opening
      { value := b.toNat - 0xE0, missing := 2, lo := if b.toNat = 0xE0 then 0xA0 else 0x80,
        hi := if b.toNat = 0xED then 0x9F else 0xBF } := by
  dsimp only [lead]
  rw [if_neg (by omega), if_neg (by omega), if_neg (by omega)]
  split_ifs with h h' <;> simp_all

theorem lead_four (hl : 0xF0 ≤ b.toNat) (hh : b.toNat ≤ 0xF4) :
    lead b = .opening
      { value := b.toNat - 0xF0, missing := 3, lo := if b.toNat = 0xF0 then 0x90 else 0x80,
        hi := if b.toNat = 0xF4 then 0x8F else 0xBF } := by
  dsimp only [lead]
  rw [if_neg (by omega), if_neg (by omega), if_neg (by omega), if_neg (by omega),
    if_neg (by omega), if_neg (by omega)]
  split_ifs with h h' h'' <;> simp_all
  omega

theorem decodeFrom_of_lead (h : lead b = .opening s) (rest : Bytes) :
    decodeFrom none (b :: rest) = decodeFrom (some s) rest := by
  rw [decodeFrom, h]

theorem decodeFrom_of_missing (hl : s.lo ≤ b.toNat) (hh : b.toNat ≤ s.hi)
    (hm : ¬s.missing ≤ 1) (rest : Bytes) :
    decodeFrom (some s) (b :: rest) = decodeFrom (some (s.next b)) rest := by
  rw [decodeFrom, if_pos ⟨hl, hh⟩, if_neg hm]
  rfl

theorem decodeFrom_of_complete (hl : s.lo ≤ b.toNat) (hh : b.toNat ≤ s.hi)
    (hm : s.missing ≤ 1) (rest : Bytes) :
    decodeFrom (some s) (b :: rest) = Char.ofNat (s.next b).value :: decodeFrom none rest := by
  rw [decodeFrom, if_pos ⟨hl, hh⟩, if_pos hm]
  rfl

theorem decodeFrom_two {b₁ b₂ : UInt8} (h₁ : 0xC2 ≤ b₁.toNat ∧ b₁.toNat < 0xE0)
    (h₂ : 0x80 ≤ b₂.toNat ∧ b₂.toNat ≤ 0xBF) (rest : Bytes) :
    decodeFrom none (b₁ :: b₂ :: rest) =
      Char.ofNat ((b₁.toNat - 0xC0) * 64 + (b₂.toNat - 0x80)) :: decodeFrom none rest := by
  rw [decodeFrom_of_lead (lead_two h₁.1 h₁.2), decodeFrom_of_complete h₂.1 h₂.2 (Nat.le_refl 1)]
  rfl

theorem decodeFrom_three {b₁ b₂ b₃ : UInt8} (h₁ : 0xE0 ≤ b₁.toNat ∧ b₁.toNat < 0xF0)
    (h₂ : (if b₁.toNat = 0xE0 then 0xA0 else 0x80) ≤ b₂.toNat ∧
      b₂.toNat ≤ if b₁.toNat = 0xED then 0x9F else 0xBF)
    (h₃ : 0x80 ≤ b₃.toNat ∧ b₃.toNat ≤ 0xBF) (rest : Bytes) :
    decodeFrom none (b₁ :: b₂ :: b₃ :: rest) =
      Char.ofNat (((b₁.toNat - 0xE0) * 64 + (b₂.toNat - 0x80)) * 64 + (b₃.toNat - 0x80)) ::
        decodeFrom none rest := by
  rw [decodeFrom_of_lead (lead_three h₁.1 h₁.2), decodeFrom_of_missing h₂.1 h₂.2 (by simp),
    decodeFrom_of_complete h₃.1 h₃.2 (Nat.le_refl 1)]
  rfl

theorem decodeFrom_four {b₁ b₂ b₃ b₄ : UInt8} (h₁ : 0xF0 ≤ b₁.toNat ∧ b₁.toNat ≤ 0xF4)
    (h₂ : (if b₁.toNat = 0xF0 then 0x90 else 0x80) ≤ b₂.toNat ∧
      b₂.toNat ≤ if b₁.toNat = 0xF4 then 0x8F else 0xBF)
    (h₃ : 0x80 ≤ b₃.toNat ∧ b₃.toNat ≤ 0xBF) (h₄ : 0x80 ≤ b₄.toNat ∧ b₄.toNat ≤ 0xBF)
    (rest : Bytes) :
    decodeFrom none (b₁ :: b₂ :: b₃ :: b₄ :: rest) =
      Char.ofNat ((((b₁.toNat - 0xF0) * 64 + (b₂.toNat - 0x80)) * 64 + (b₃.toNat - 0x80)) * 64 +
        (b₄.toNat - 0x80)) :: decodeFrom none rest := by
  rw [decodeFrom_of_lead (lead_four h₁.1 h₁.2), decodeFrom_of_missing h₂.1 h₂.2 (by simp),
    decodeFrom_of_missing h₃.1 h₃.2 (show ¬2 ≤ 1 by decide),
    decodeFrom_of_complete h₄.1 h₄.2 (Nat.le_refl 1)]
  rfl

/-- The bytes of a character are read as the character. -/
theorem decodeFrom_utf8EncodeChar (c : Char) (rest : Bytes) :
    decodeFrom none (String.utf8EncodeChar c ++ rest) = c :: decodeFrom none rest := by
  have hc : Char.ofNat c.val.toNat = c := Char.ofNat_toNat c
  have hvalid : c.val.toNat < 0xD800 ∨ 0xDFFF < c.val.toNat ∧ c.val.toNat < 0x110000 := c.valid
  have hbyte {n : Nat} (h : n < 256) : (UInt8.ofNat n).toNat = n := by
    rw [UInt8.toNat_ofNat']
    exact Nat.mod_eq_of_lt h
  unfold String.utf8EncodeChar
  generalize c.val.toNat = v at hc hvalid
  dsimp only
  split_ifs with h₁ h₂ h₃
  · have hb := hbyte (n := v) (by omega)
    rw [List.singleton_append, decodeFrom, lead_of_lt (by omega), hb, hc]
  · have hb₁ := hbyte (n := v / 64 % 32 + 192) (by omega)
    have hb₂ := hbyte (n := v % 64 + 128) (by omega)
    have hv : (v / 64 % 32 + 192 - 0xC0) * 64 + (v % 64 + 128 - 0x80) = v := by omega
    refine (decodeFrom_two (by omega) (by omega) rest).trans ?_
    rw [hb₁, hb₂, hv, hc]
  · have hb₁ := hbyte (n := v / 4096 % 16 + 224) (by omega)
    have hb₂ := hbyte (n := v / 64 % 64 + 128) (by omega)
    have hb₃ := hbyte (n := v % 64 + 128) (by omega)
    have hv : ((v / 4096 % 16 + 224 - 0xE0) * 64 + (v / 64 % 64 + 128 - 0x80)) * 64 +
        (v % 64 + 128 - 0x80) = v := by omega
    refine (decodeFrom_three (by omega) ?_ (by omega) rest).trans ?_
    · rw [hb₁, hb₂]
      split_ifs <;> omega
    · rw [hb₁, hb₂, hb₃, hv, hc]
  · have hb₁ := hbyte (n := v / 262144 % 8 + 240) (by omega)
    have hb₂ := hbyte (n := v / 4096 % 64 + 128) (by omega)
    have hb₃ := hbyte (n := v / 64 % 64 + 128) (by omega)
    have hb₄ := hbyte (n := v % 64 + 128) (by omega)
    have hv : (((v / 262144 % 8 + 240 - 0xF0) * 64 + (v / 4096 % 64 + 128 - 0x80)) * 64 +
        (v / 64 % 64 + 128 - 0x80)) * 64 + (v % 64 + 128 - 0x80) = v := by omega
    refine (decodeFrom_four (by omega) ?_ (by omega) (by omega) rest).trans ?_
    · rw [hb₁, hb₂]
      split_ifs <;> omega
    · rw [hb₁, hb₂, hb₃, hb₄, hv, hc]

theorem decode_utf8 (t : Text) : decode t.utf8 = t := by
  induction t with
  | nil => rfl
  | cons c t ih =>
    rw [decode] at ih ⊢
    rw [Text.utf8, List.flatMap_cons, decodeFrom_utf8EncodeChar]
    exact congrArg (c :: ·) ih

/-- What stands after a byte of ASCII is read on its own. -/
theorem decodeFrom_append_of_lt (h : Sound pending) (hb : b.toNat < 0x80) (bytes rest : Bytes) :
    decodeFrom pending (bytes ++ b :: rest) =
      decodeFrom pending (bytes ++ [b]) ++ decodeFrom none rest := by
  induction bytes generalizing pending with
  | nil =>
    rw [List.nil_append, List.nil_append, decodeFrom_cons, decodeFrom_cons, step_of_lt h hb]
    simp [decodeFrom]
  | cons b' bytes ih =>
    rw [List.cons_append, List.cons_append, decodeFrom_cons, decodeFrom_cons, ih (h.step b'),
      List.append_assoc]

theorem decode?_eq_some_iff {bytes : Bytes} {t : Text} :
    decode? bytes = some t ↔ bytes = t.utf8 := by
  dsimp only [decode?]
  rw [Option.ite_none_right_eq_some, Option.some.injEq]
  constructor
  · rintro ⟨h, rfl⟩
    exact h.symm
  · rintro rfl
    exact ⟨by rw [decode_utf8], decode_utf8 t⟩

end RailsLookup.Utf8
