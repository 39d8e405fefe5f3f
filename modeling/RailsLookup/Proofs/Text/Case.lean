import Mathlib
import RailsLookup.Text.Case

/-! # What case mappings bring in

Upper case brings in no control characters, and lower case no ASCII capitals and no ASCII marks
before them. A text without capitals that becomes a word of small letters in lower case is that
word already.
-/

namespace RailsLookup.Case

variable {runs : List CaseRun} {c x : Char} {n m : Nat}

theorem exists_of_mem_mapped {many : List (Nat × List Nat)} (h : x ∈ mapped runs many c) :
    x = c ∧ CaseRun.image? runs c.toNat = none ∨ ∃ n, x = Char.ofNat n ∧
      (CaseRun.image? runs c.toNat = some n ∨ ∃ points, (c.toNat, points) ∈ many ∧ n ∈ points) := by
  unfold mapped at h
  split at h
  · next points hp =>
    obtain ⟨l₁, l₂, rfl, _⟩ := List.lookup_eq_some_iff.mp hp
    obtain ⟨n, hn, rfl⟩ := List.mem_map.mp h
    exact .inr ⟨n, rfl, .inr ⟨points, by simp, hn⟩⟩
  · split at h
    · next n hn => exact .inr ⟨n, List.mem_singleton.mp h, .inl hn⟩
    · next hn => exact .inl ⟨List.mem_singleton.mp h, hn⟩

theorem exists_of_image? (h : CaseRun.image? runs n = some m) :
    ∃ run ∈ runs, (run.first ≤ n ∧ n ≤ run.last) ∧ m = ((n : Int) + run.shift).toNat := by
  fun_induction CaseRun.image? runs n with
  | case1 => cases h
  | case2 => cases h
  | case3 run rest n hf hc =>
    simp only [CaseRun.contains, Bool.and_eq_true, decide_eq_true_eq] at hc
    exact ⟨run, List.mem_cons_self, hc.1, (Option.some.inj h).symm⟩
  | case4 run rest n _ _ ih =>
    obtain ⟨r, hr, hn⟩ := ih h
    exact ⟨r, List.mem_cons_of_mem _ hr, hn⟩

/-- Where the table of a case mapping has nothing below a bound, only the character that is mapped
can be below it. -/
theorem eq_or_le_of_mem_mapped {many : List (Nat × List Nat)} {bound : Nat}
    (hruns : ∀ run ∈ runs, (bound : Int) ≤ run.first + run.shift)
    (hmany : ∀ e ∈ many, ∀ n ∈ e.2, bound ≤ n) (h : x ∈ mapped runs many c) :
    x = c ∧ CaseRun.image? runs c.toNat = none ∨ ∃ n, bound ≤ n ∧ x = Char.ofNat n := by
  rcases exists_of_mem_mapped h with hx | ⟨n, rfl, hn⟩
  · exact .inl hx
  · refine .inr ⟨n, ?_, rfl⟩
    rcases hn with hn | ⟨points, hp, hn⟩
    · obtain ⟨run, hr, _, rfl⟩ := exists_of_image? hn
      have := hruns run hr
      omega
    · exact hmany _ hp n hn

theorem ofNat_ne {a : Char} (hn : a.toNat < n) (ha : 0 < a.toNat) : Char.ofNat n ≠ a := by
  rintro rfl
  rw [Char.toNat_ofNat] at hn ha
  by_cases hv : n.isValidChar
  · rw [if_pos hv] at hn
    omega
  · rw [if_neg hv] at ha
    omega

theorem ne_of_mem_upperChar {a : Char} (h : x ∈ upperChar c) (hc : c ≠ a)
    (ha : 0 < a.toNat ∧ a.toNat < 0x20) : x ≠ a := by
  have hruns : ∀ run ∈ CaseRun.upper, ((0x20 : Nat) : Int) ≤ run.first + run.shift := by
    decide +kernel
  have hmany : ∀ e ∈ CaseRun.upperMany, ∀ n ∈ e.2, 0x20 ≤ n := by decide
  rcases eq_or_le_of_mem_mapped hruns hmany h with ⟨rfl, _⟩ | ⟨n, hn, rfl⟩
  · exact hc
  · exact ofNat_ne (by omega) ha.1

theorem toLower_eq_iff (h : x.isAlpha = false) : c.toLower = x ↔ c = x := by
  have hsmall {d : Char} (hd : d.isAlpha = false) : d.toLower = d := by
    apply Char.toLower_eq_of_not_isUpper
    intro hu
    simp [Char.isAlpha, hu] at hd
  constructor
  · rintro rfl
    rw [Char.isAlpha_toLower_eq_isAlpha] at h
    exact (hsmall h).symm
  · rintro rfl
    exact hsmall h

theorem toNat_lt_of_isAlphanum (h : c.isAlphanum = true) : c.toNat < 0x80 := by
  simp only [Char.isAlphanum, Char.isAlpha, Char.isUpper, Char.isLower, Char.isDigit,
    Bool.or_eq_true, Bool.and_eq_true, decide_eq_true_eq, ge_iff_le, UInt32.le_iff_toNat_le] at h
  change ((65 ≤ c.toNat ∧ c.toNat ≤ 90) ∨ (97 ≤ c.toNat ∧ c.toNat ≤ 122)) ∨
    (48 ≤ c.toNat ∧ c.toNat ≤ 57) at h
  omega

theorem upperChar_of_isAlphanum (h : c.isAlphanum = true) : upperChar c = [c.toUpper] := by
  have hlt := toNat_lt_of_isAlphanum h
  have hkeys : ∀ e ∈ CaseRun.upperMany, 0x80 ≤ e.1 := by decide
  have hruns : ∀ n < 0x80,
      (CaseRun.image? CaseRun.upper n).getD n = (Char.ofNat n).toUpper.toNat := by
    decide +kernel
  have hmany : CaseRun.upperMany.lookup c.toNat = none := by
    rw [List.lookup_eq_none_iff]
    intro e he
    have hle := hkeys e he
    rw [bne_iff_ne]
    omega
  have hup := congrArg Char.ofNat (hruns c.toNat hlt)
  rw [Char.ofNat_toNat, Char.ofNat_toNat] at hup
  rw [upperChar, mapped, hmany, ← hup]
  cases CaseRun.image? CaseRun.upper c.toNat <;> simp

def IsCapital (c : Char) : Prop := 0x41 ≤ c.toNat ∧ c.toNat ≤ 0x5A
  deriving Decidable

theorem image?_lower_of_isCapital (h : IsCapital c) :
    CaseRun.image? CaseRun.lower c.toNat ≠ none := by
  obtain ⟨hlo, hhi⟩ := h
  obtain ⟨rest, hrest⟩ : ∃ rest, CaseRun.lower = ⟨0x41, 0x5A, 1, 32⟩ :: rest := ⟨_, rfl⟩
  rw [hrest, CaseRun.image?, if_neg (Nat.not_lt_of_le hlo), if_pos]
  · simp
  · simp [CaseRun.contains, hlo, hhi, Nat.mod_one]

/-- Nothing is mapped below the small letters. Of ASCII only the capitals are mapped, and only the
Kelvin sign is mapped into it. -/
theorem forall_lower : ∀ run ∈ CaseRun.lower,
    ((0x61 : Nat) : Int) ≤ run.first + run.shift ∧
      (run.first = 0x41 ∧ run.last = 0x5A ∨ 0x80 ≤ run.first) ∧
      (run.last < 0x80 ∨ (0x80 : Int) ≤ run.first + run.shift ∨
        run.first = run.last ∧ (run.first + run.shift : Int) = 0x6B) := by
  decide +kernel

theorem eq_or_le_of_mem_lowerChar (h : x ∈ lowerChar c) :
    x = c ∧ CaseRun.image? CaseRun.lower c.toNat = none ∨ ∃ n, 0x61 ≤ n ∧ x = Char.ofNat n := by
  have hmany : ∀ e ∈ CaseRun.lowerMany, ∀ n ∈ e.2, 0x61 ≤ n := by decide
  exact eq_or_le_of_mem_mapped (fun run hr => (forall_lower run hr).1) hmany h

theorem not_isCapital_of_mem_lowerChar (h : x ∈ lowerChar c) : ¬IsCapital x := by
  rcases eq_or_le_of_mem_lowerChar h with ⟨rfl, hn⟩ | ⟨n, hn, rfl⟩
  · exact fun hx => image?_lower_of_isCapital hx hn
  · rw [IsCapital, Char.toNat_ofNat]
    split <;> omega

theorem ne_of_mem_lowerChar {a : Char} (h : x ∈ lowerChar c) (hc : c ≠ a)
    (ha : 0 < a.toNat ∧ a.toNat < 0x61) : x ≠ a := by
  rcases eq_or_le_of_mem_lowerChar h with ⟨rfl, _⟩ | ⟨n, hn, rfl⟩
  · exact hc
  · exact ofNat_ne (by omega) ha.1

theorem lowerChar_eq_self (hc : c.toNat < 0x80) (h : ¬IsCapital c) : lowerChar c = [c] := by
  have himage : CaseRun.image? CaseRun.lower c.toNat = none := by
    rw [Option.eq_none_iff_forall_ne_some]
    intro m hm
    obtain ⟨run, hr, hn, _⟩ := exists_of_image? hm
    have hrun := (forall_lower run hr).2.1
    rw [IsCapital] at h
    omega
  have hmany : CaseRun.lowerMany.lookup c.toNat = none := by
    rw [CaseRun.lowerMany, List.lookup_cons, beq_false_of_ne (by omega)]
    rfl
  rw [lowerChar, mapped, hmany, himage]

/-- A character beyond ASCII does not become a small ASCII letter, but for the Kelvin sign. -/
theorem exists_mem_lowerChar (hc : 0x80 ≤ c.toNat) :
    ∃ x ∈ lowerChar c, x.toNat < 0x61 ∨ 0x80 ≤ x.toNat ∨ x = 'k' := by
  unfold lowerChar mapped
  split
  · next points hp =>
    obtain ⟨l₁, l₂, he, _⟩ := List.lookup_eq_some_iff.mp hp
    have hmem : (c.toNat, points) ∈ CaseRun.lowerMany := by simp [he]
    obtain rfl : points = [0x69, 0x307] := (Prod.mk.inj (List.mem_singleton.mp hmem)).2
    exact ⟨Char.ofNat 0x307, by simp, .inr (.inl (by decide))⟩
  · split
    · next n hn =>
      refine ⟨Char.ofNat n, List.mem_singleton_self _, ?_⟩
      obtain ⟨run, hr, hc', rfl⟩ := exists_of_image? hn
      rcases (forall_lower run hr).2.2 with hlast | himage | ⟨hfirst, himage⟩
      · omega
      · rw [Char.toNat_ofNat]
        split <;> omega
      · have hk : ((c.toNat : Int) + run.shift).toNat = 0x6B := by omega
        rw [hk]
        exact .inr (.inr rfl)
    · exact ⟨c, List.mem_singleton_self c, .inr (.inl hc)⟩

theorem mem_lowerAfter {seen t : Text} (h : x ∈ lowerAfter seen t) :
    (x = 'ς' ∨ x = 'σ') ∨ ∃ c ∈ t, x ∈ lowerChar c := by
  induction t generalizing seen with
  | nil => cases h
  | cons c t ih =>
    rw [lowerAfter, List.mem_append] at h
    rcases h with h | h
    · split at h
      · rw [List.mem_singleton] at h
        split at h
        · exact .inl (.inl h)
        · exact .inl (.inr h)
      · exact .inr ⟨c, List.mem_cons_self, h⟩
    · rcases ih h with hx | ⟨d, hd, hx⟩
      · exact .inl hx
      · exact .inr ⟨d, List.mem_cons_of_mem c hd, hx⟩

theorem lowerAfter_cons_eq_self {seen t : Text} (hc : c.toNat < 0x80) (h : ¬IsCapital c) :
    lowerAfter seen (c :: t) = c :: lowerAfter (c :: seen) t := by
  have hs : c ≠ 'Σ' := by
    rintro rfl
    exact absurd hc (by decide)
  rw [lowerAfter, if_neg hs, lowerChar_eq_self hc h, List.singleton_append]

theorem eq_of_lowerAfter_eq {seen t w : Text} (ht : ∀ c ∈ t, ¬IsCapital c)
    (hw : ∀ x ∈ w, 0x61 ≤ x.toNat ∧ x.toNat < 0x80 ∧ x ≠ 'k') (h : lowerAfter seen t = w) :
    t = w := by
  induction t generalizing seen w with
  | nil => exact h
  | cons c t ih =>
    rw [List.forall_mem_cons] at ht
    subst h
    have hlt : c.toNat < 0x80 := by
      by_contra hge
      rw [lowerAfter, List.forall_mem_append] at hw
      -- The sigma and whatever else lies beyond ASCII shows in the image.
      by_cases hs : c = 'Σ'
      · have hx := hw.1 (if meetsCased seen && !meetsCased t then 'ς' else 'σ') (by simp [hs])
        split at hx <;> exact absurd hx (by decide)
      · obtain ⟨x, hx, hbad⟩ := exists_mem_lowerChar (Nat.le_of_not_lt hge)
        obtain ⟨hlo, hhi, hk⟩ := hw.1 x (by rwa [if_neg hs])
        rcases hbad with hbad | hbad | hbad
        · omega
        · omega
        · exact hk hbad
    rw [lowerAfter_cons_eq_self hlt ht.1] at hw ⊢
    rw [← ih ht.2 (List.forall_mem_cons.mp hw).2 rfl]

end RailsLookup.Case

namespace RailsLookup.Text

variable {t w : Text}

theorem not_isCapital_of_mem_lower {x : Char} (h : x ∈ t.lower) : ¬Case.IsCapital x := by
  rcases Case.mem_lowerAfter h with (rfl | rfl) | ⟨c, _, hx⟩
  · decide
  · decide
  · exact Case.not_isCapital_of_mem_lowerChar hx

theorem not_mem_lower {a : Char} (ht : a ∉ t) (ha : 0 < a.toNat ∧ a.toNat < 0x61) :
    a ∉ t.lower := by
  intro h
  rcases Case.mem_lowerAfter h with (rfl | rfl) | ⟨c, hc, hx⟩
  · exact absurd ha (by decide)
  · exact absurd ha (by decide)
  · refine Case.ne_of_mem_lowerChar hx ?_ ha rfl
    rintro rfl
    exact ht hc

theorem lower_eq_iff (ht : ∀ c ∈ t, ¬Case.IsCapital c)
    (hw : ∀ x ∈ w, 0x61 ≤ x.toNat ∧ x.toNat < 0x80 ∧ x ≠ 'k') : t.lower = w ↔ t = w := by
  have hself (seen : Text) : Case.lowerAfter seen w = w := by
    induction w generalizing seen with
    | nil => rfl
    | cons x w ih =>
      obtain ⟨⟨hlo, hhi, _⟩, hw⟩ := List.forall_mem_cons.mp hw
      have hx : ¬Case.IsCapital x := fun h => by have := h.2; omega
      rw [Case.lowerAfter_cons_eq_self hhi hx, ih hw]
  constructor
  · exact Case.eq_of_lowerAfter_eq ht hw
  · rintro rfl
    exact hself []

end RailsLookup.Text
