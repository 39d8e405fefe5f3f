import Mathlib
import RailsLookup.Proofs.Text.Decoding

/-! # ASCII in texts and in bytes

A character of ASCII is written as one byte, and other characters are written without bytes of
ASCII. A byte of ASCII is read as itself whatever stands before it, even if that cannot be read. So
the ASCII of a text is that of its bytes, and a text is cut at a word of ASCII just where its bytes
are.
-/

namespace RailsLookup

namespace Text

variable {c : Char} {b : UInt8} {s t : Text}

/-- A check of each character of a text. Over characters, deciding the conclusion would mean to
try all of them. -/
theorem forall_of_all {P : Char → Prop} [DecidablePred P] (h : t.all (P ·) = true) :
    ∀ c ∈ t, P c := fun c hc => of_decide_eq_true (List.all_eq_true.mp h c hc)

theorem utf8EncodeChar_of_lt (h : c.toNat < 0x80) :
    String.utf8EncodeChar c = [UInt8.ofNat c.toNat] := by
  unfold String.utf8EncodeChar
  exact if_pos (Nat.le_of_lt_succ h)

theorem toNat_ofNat_toNat (b : UInt8) : (Char.ofNat b.toNat).toNat = b.toNat := by
  have hb := b.toNat_lt
  have hv : b.toNat.isValidChar := .inl (by omega)
  rw [Char.toNat_ofNat, if_pos hv]

theorem le_of_mem_utf8EncodeChar (h : 0x80 ≤ c.toNat) (hb : b ∈ String.utf8EncodeChar c) :
    0x80 ≤ b.toNat := by
  unfold String.utf8EncodeChar at hb
  change 0x80 ≤ c.val.toNat at h
  generalize c.val.toNat = v at h hb
  dsimp only at hb
  split_ifs at hb with h₁ h₂ h₃
  · omega
  all_goals
    simp only [List.mem_cons, List.not_mem_nil, or_false] at hb
    rcases hb with rfl | rfl | rfl | rfl <;> simp only [UInt8.toNat_ofNat'] <;> omega

@[simp] theorem utf8_nil : utf8 [] = [] := rfl

@[simp] theorem utf8_cons (c : Char) (t : Text) :
    utf8 (c :: t) = String.utf8EncodeChar c ++ t.utf8 := rfl

theorem utf8_append (s t : Text) : utf8 (s ++ t) = utf8 s ++ utf8 t := List.flatMap_append

theorem utf8_cons_of_lt (h : c.toNat < 0x80) (t : Text) :
    utf8 (c :: t) = UInt8.ofNat c.toNat :: t.utf8 := by
  rw [utf8_cons, utf8EncodeChar_of_lt h, List.singleton_append]

theorem utf8_eq_nil_iff : utf8 t = [] ↔ t = [] := by
  cases t with
  | nil => simp
  | cons c t => simp [String.utf8EncodeChar_ne_nil]

theorem utf8_map_ofNat {bytes : Bytes} (h : ∀ b ∈ bytes, b.toNat < 0x80) :
    utf8 (bytes.map fun b => Char.ofNat b.toNat) = bytes := by
  induction bytes with
  | nil => rfl
  | cons b bytes ih =>
    obtain ⟨hb, h⟩ := List.forall_mem_cons.mp h
    rw [List.map_cons, utf8_cons_of_lt (by rwa [toNat_ofNat_toNat]), ih h, toNat_ofNat_toNat,
      UInt8.ofNat_toNat]

theorem mem_of_mem_utf8 (hb : b.toNat < 0x80) (h : b ∈ utf8 t) : Char.ofNat b.toNat ∈ t := by
  obtain ⟨c, hc, hm⟩ := List.mem_flatMap.mp h
  have hlt : c.toNat < 0x80 := by
    by_contra hle
    exact absurd (le_of_mem_utf8EncodeChar (Nat.le_of_not_lt hle) hm) (Nat.not_le_of_lt hb)
  rw [utf8EncodeChar_of_lt hlt, List.mem_singleton] at hm
  have hv : b.toNat = c.toNat := by
    rw [hm, UInt8.toNat_ofNat']
    omega
  rwa [hv, Char.ofNat_toNat]

end Text

namespace Utf8

variable {pending : Option Sequence} {b : UInt8} {c : Char} {bytes : Bytes} {front word rest : Text}

theorem filter_step (h : Sound pending) (b : UInt8) :
    (step pending b).1.filter (·.toNat < 0x80) =
      ([b].filter (·.toNat < 0x80)).map fun b => Char.ofNat b.toNat := by
  by_cases hb : b.toNat < 0x80
  · have hr : (pending.toList.map fun _ => replacement).filter (·.toNat < 0x80) = [] := by
      cases pending <;> rfl
    rw [step_of_lt h hb, List.filter_append, hr]
    simp [hb, Text.toNat_ofNat_toNat]
  · have hnone : (step pending b).1.filter (·.toNat < 0x80) = [] := by
      rw [List.filter_eq_nil_iff]
      intro c hc
      simpa using le_toNat_step h (Nat.le_of_not_lt hb) c hc
    rw [hnone]
    simp [hb]

theorem filter_decodeFrom (h : Sound pending) (bytes : Bytes) :
    (decodeFrom pending bytes).filter (·.toNat < 0x80) =
      (bytes.filter (·.toNat < 0x80)).map fun b => Char.ofNat b.toNat := by
  induction bytes generalizing pending with
  | nil => cases pending <;> rfl
  | cons b bytes ih =>
    rw [decodeFrom_cons, List.filter_append, filter_step h, ih (h.step b), ← List.map_append,
      ← List.filter_append, List.singleton_append]

/-- The ASCII of a text is that of its bytes. -/
theorem filter_decode (bytes : Bytes) :
    (decode bytes).filter (·.toNat < 0x80) =
      (bytes.filter (·.toNat < 0x80)).map fun b => Char.ofNat b.toNat :=
  filter_decodeFrom sound_none bytes

theorem utf8_filter_decode (bytes : Bytes) :
    Text.utf8 ((decode bytes).filter (·.toNat < 0x80)) = bytes.filter (·.toNat < 0x80) := by
  rw [filter_decode, Text.utf8_map_ofNat]
  simp

theorem count_decode (hb : b.toNat < 0x80) (bytes : Bytes) :
    (decode bytes).count (Char.ofNat b.toNat) = bytes.count b := by
  have hinj : Function.Injective fun b : UInt8 => Char.ofNat b.toNat := by
    intro b b' he
    have hn := congrArg Char.toNat he
    simpa only [Text.toNat_ofNat_toNat, UInt8.toNat_inj] using hn
  calc (decode bytes).count (Char.ofNat b.toNat)
      = ((decode bytes).filter (·.toNat < 0x80)).count (Char.ofNat b.toNat) := by
        rw [List.count_filter]
        simpa [Text.toNat_ofNat_toNat] using hb
    _ = (bytes.filter (·.toNat < 0x80)).count b := by
        rw [filter_decode, List.count_map_of_injective _ _ hinj b]
    _ = bytes.count b := by
        rw [List.count_filter]
        simpa using hb

theorem decodeFrom_some_ne_nil (s : Sequence) (bytes : Bytes) : decodeFrom (some s) bytes ≠ [] := by
  induction bytes generalizing s with
  | nil => exact List.cons_ne_nil _ _
  | cons b bytes ih =>
    rw [decodeFrom_cons, step]
    split_ifs
    · exact List.cons_ne_nil _ _
    · exact ih _
    · exact List.cons_ne_nil _ _

theorem decode_eq_nil_iff : decode bytes = [] ↔ bytes = [] := by
  refine ⟨fun h => ?_, fun h => by rw [h]; rfl⟩
  cases bytes with
  | nil => rfl
  | cons b bytes =>
    rw [decode, decodeFrom] at h
    cases hl : lead b with
    | single c => simp [hl] at h
    | opening s => exact absurd (by simpa [hl] using h) (decodeFrom_some_ne_nil s bytes)
    | invalid => simp [hl] at h

theorem of_step_eq (h : Sound pending) (hc : c.toNat < 0x80)
    (he : (step pending b).1 = front ++ c :: rest) :
    b = UInt8.ofNat c.toNat ∧ (step pending b).2 = none ∧ front = decodeFrom pending [] ∧
      rest = [] := by
  have hb : b.toNat < 0x80 := by
    by_contra hb
    have hm : c ∈ (step pending b).1 := by simp [he]
    exact absurd (le_toNat_step h (Nat.le_of_not_lt hb) c hm) (Nat.not_le_of_lt hc)
  rw [step_of_lt h hb] at he ⊢
  have hlast : c = Char.ofNat b.toNat ∧ front = decodeFrom pending [] ∧ rest = [] := by
    have hr : c ≠ replacement := by
      rintro rfl
      exact absurd hc (by decide)
    cases pending with
    | none =>
      cases front with
      | nil => simpa [decodeFrom, eq_comm] using he
      | cons a front => simp at he
    | some s =>
      rcases front with _ | ⟨a, _ | ⟨a', front⟩⟩
      · exact absurd (List.cons.inj he).1.symm hr
      · simpa [decodeFrom, eq_comm, and_assoc, and_comm, and_left_comm] using he
      · simp at he
  obtain ⟨rfl, hfront, hrest⟩ := hlast
  rw [Text.toNat_ofNat_toNat, UInt8.ofNat_toNat]
  exact ⟨rfl, rfl, hfront, hrest⟩

/-- A character of ASCII in a text is a byte, which cuts the bytes where it cuts the text. -/
theorem exists_of_decodeFrom_eq (h : Sound pending) (hc : c.toNat < 0x80)
    (he : decodeFrom pending bytes = front ++ c :: rest) :
    ∃ before after, bytes = before ++ UInt8.ofNat c.toNat :: after ∧
      decodeFrom pending before = front ∧ decode after = rest := by
  induction bytes generalizing pending front with
  | nil =>
    have hm : c ∈ decodeFrom pending [] := by simp [he]
    cases pending with
    | none => cases hm
    | some s =>
      obtain rfl := List.mem_singleton.mp hm
      exact absurd hc (by decide)
  | cons b bytes ih =>
    have hlater (front' : Text) (hfront : front = (step pending b).1 ++ front')
        (he : decodeFrom (step pending b).2 bytes = front' ++ c :: rest) :
        ∃ before after, b :: bytes = before ++ UInt8.ofNat c.toNat :: after ∧
          decodeFrom pending before = front ∧ decode after = rest := by
      obtain ⟨before, after, rfl, rfl, hafter⟩ := ih (h.step b) he
      exact ⟨b :: before, after, rfl, by rw [decodeFrom_cons, hfront], hafter⟩
    rw [decodeFrom_cons, List.append_eq_append_iff] at he
    rcases he with ⟨front', hfront, he⟩ | ⟨_ | ⟨d, more⟩, hstep, he⟩
    · exact hlater front' hfront he
    · exact hlater [] (by simpa using hstep.symm) he.symm
    · obtain ⟨rfl, rfl⟩ := List.cons.inj he
      obtain ⟨rfl, hnone, hfront, rfl⟩ := of_step_eq h hc hstep
      exact ⟨[], bytes, rfl, hfront.symm, by rw [hnone]; rfl⟩

theorem exists_of_decode_eq (hw : ∀ c ∈ word, c.toNat < 0x80) (h : decode bytes = word ++ rest) :
    ∃ after, bytes = word.utf8 ++ after ∧ decode after = rest := by
  induction word generalizing bytes with
  | nil => exact ⟨bytes, rfl, h⟩
  | cons c word ih =>
    obtain ⟨hc, hw⟩ := List.forall_mem_cons.mp hw
    have he : decodeFrom none bytes = [] ++ c :: (word ++ rest) := h
    obtain ⟨before, after, rfl, hfront, hafter⟩ := exists_of_decodeFrom_eq sound_none hc he
    obtain rfl := decode_eq_nil_iff.mp hfront
    obtain ⟨after, rfl, hrest⟩ := ih hw hafter
    exact ⟨after, by rw [Text.utf8_cons_of_lt hc]; rfl, hrest⟩

/-- In some bytes the word is written after others that are read as `front`. -/
def WrittenAfter (word : Text) (bytes : Bytes) (front : Text) (before : Bytes) : Prop :=
  decode before = front ∧ before ++ word.utf8 <+: bytes

theorem WrittenAfter.eq_of_prefix {before before' : Bytes} (hc : c.toNat < 0x80)
    (h : WrittenAfter (c :: word) bytes front before)
    (h' : WrittenAfter (c :: word) bytes front before') (hp : before <+: before') :
    before' = before := by
  obtain ⟨more, rfl⟩ := hp
  have hnone : more.filter (·.toNat < 0x80) = [] := by
    have hf : (before ++ more).filter (·.toNat < 0x80) = before.filter (·.toNat < 0x80) := by
      rw [← utf8_filter_decode, h'.1, ← h.1, utf8_filter_decode]
    rwa [List.filter_append, List.append_right_eq_self] at hf
  cases more with
  | nil => simp
  | cons b more =>
    -- it would begin with the first byte of the word
    obtain ⟨rest, rfl⟩ := h.2
    obtain ⟨rest', he⟩ := h'.2
    rw [Text.utf8_cons_of_lt hc] at he
    have hb : b = UInt8.ofNat c.toNat := by
      simp only [List.append_assoc, List.append_cancel_left_eq, List.cons_append] at he
      exact (List.cons.inj he).1
    have hlt : b.toNat < 0x80 := by
      rw [hb, UInt8.toNat_ofNat']
      omega
    simp [hlt] at hnone

/-- Where a text goes on with a word of ASCII, its bytes do so after just one of their
beginnings. -/
theorem existsUnique_writtenAfter (hne : word ≠ []) (hw : ∀ c ∈ word, c.toNat < 0x80)
    (h : decode bytes = front ++ (word ++ rest)) :
    ∃! before, WrittenAfter word bytes front before := by
  cases word with
  | nil => exact absurd rfl hne
  | cons c word =>
    obtain ⟨hc, hword⟩ := List.forall_mem_cons.mp hw
    obtain ⟨before, after, rfl, hfront, hafter⟩ := exists_of_decodeFrom_eq sound_none hc h
    obtain ⟨after, rfl, -⟩ := exists_of_decode_eq hword hafter
    have hbefore : WrittenAfter (c :: word)
        (before ++ UInt8.ofNat c.toNat :: (Text.utf8 word ++ after)) front before :=
      ⟨hfront, after, by simp [Text.utf8_cons_of_lt hc]⟩
    refine ⟨before, hbefore, fun before' hbefore' => ?_⟩
    have hp := (List.prefix_append before _).trans hbefore.2
    have hp' := (List.prefix_append before' _).trans hbefore'.2
    rcases List.prefix_or_prefix_of_prefix hp hp' with hle | hle
    · exact hbefore.eq_of_prefix hc hbefore' hle
    · exact (hbefore'.eq_of_prefix hc hbefore hle).symm

end Utf8

end RailsLookup
