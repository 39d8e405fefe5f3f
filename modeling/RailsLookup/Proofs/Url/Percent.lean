import Mathlib
import RailsLookup.Proofs.Text.Encoding
import RailsLookup.Url.Percent

/-! # What percent-encoding keeps

The characters of an encoded text are printing ones outside the reserved. As long as a percent
sign and the digits after it stand for themselves, a text writes the same bytes before and
after it is encoded.
-/

namespace RailsLookup

theorem Digits.toNat_of_value? {c : Char} {n : Nat} (h : value? c = some n) :
    n < 10 ∧ c.toNat = n + 48 ∨
      (10 ≤ n ∧ n < 16) ∧ (c.toNat = n + 87 ∨ c.toNat = n + 55) := by
  unfold value? at h
  split_ifs at h with hd hl hu <;> obtain rfl := Option.some.inj h
  · simp only [Char.isDigit, Bool.and_eq_true, decide_eq_true_eq, ge_iff_le,
      UInt32.le_iff_toNat_le] at hd
    change 48 ≤ c.toNat ∧ c.toNat ≤ 57 at hd
    change c.toNat - 48 < 10 ∧ c.toNat = c.toNat - 48 + 48 ∨ _
    omega
  · change 97 ≤ c.toNat ∧ c.toNat ≤ 102 at hl
    change _ ∨ (10 ≤ c.toNat - 97 + 10 ∧ c.toNat - 97 + 10 < 16) ∧
      (c.toNat = c.toNat - 97 + 10 + 87 ∨ _)
    omega
  · change 65 ≤ c.toNat ∧ c.toNat ≤ 70 at hu
    change _ ∨ (10 ≤ c.toNat - 65 + 10 ∧ c.toNat - 65 + 10 < 16) ∧
      (_ ∨ c.toNat = c.toNat - 65 + 10 + 55)
    omega

namespace Percent

variable {reserved : Text} {bytes : Bytes} {b : UInt8} {c : Char} {t : Text}

def marks : Text := '%' :: "0123456789ABCDEF".toList

/-- A character that may stand for itself. -/
def Stands (reserved : Text) (c : Char) : Prop :=
  (0x20 ≤ c.toNat ∧ c.toNat < 0x7F) ∧ c ∉ reserved
  deriving Decidable

theorem Stands.lt_toNat (h : Stands reserved c) (hr : ' ' ∈ reserved) : 0x20 < c.toNat := by
  refine Nat.lt_of_le_of_ne h.1.1 fun he => h.2 ?_
  rwa [← Char.toNat_inj.mp (show ' '.toNat = c.toNat from he)]

theorem hexDigit_mem_marks : ∀ n < 16, hexDigit n ∈ marks := by decide

theorem value?_hexDigit : ∀ n < 16, Digits.value? (hexDigit n) = some n := by decide

theorem encode_cons (reserved : Text) (b : UInt8) (bytes : Bytes) :
    encode reserved (b :: bytes) =
      (if isPlain reserved b then [Char.ofNat b.toNat] else encodeByte b) ++
        encode reserved bytes := rfl

theorem encode_append (reserved : Text) (bytes more : Bytes) :
    encode reserved (bytes ++ more) = encode reserved bytes ++ encode reserved more :=
  List.flatMap_append

theorem encode_eq_nil_iff : encode reserved bytes = [] ↔ bytes = [] := by
  cases bytes with
  | nil => simp [encode]
  | cons b bytes =>
    rw [encode_cons]
    split <;> simp [encodeByte]

theorem isPlain_iff : isPlain reserved b = true ↔
    (0x20 ≤ b.toNat ∧ b.toNat < 0x7F) ∧ Char.ofNat b.toNat ∉ reserved := by
  simp [isPlain]

theorem stands_of_isPlain (h : isPlain reserved b = true) :
    Stands reserved (Char.ofNat b.toNat) := by
  obtain ⟨⟨hlo, hhi⟩, hr⟩ := isPlain_iff.mp h
  rw [Stands, Char.toNat_ofNat, if_pos (.inl (by omega))]
  exact ⟨⟨hlo, hhi⟩, hr⟩

theorem mem_encode (h : c ∈ encode reserved bytes) :
    c ∈ marks ∨ ∃ b ∈ bytes, isPlain reserved b = true ∧ c = Char.ofNat b.toNat := by
  obtain ⟨b, hb, hc⟩ := List.mem_flatMap.mp h
  split at hc
  · next hp => exact .inr ⟨b, hb, hp, List.mem_singleton.mp hc⟩
  · have hlt := b.toNat_lt
    simp only [encodeByte, List.mem_cons, List.not_mem_nil, or_false] at hc
    left
    rcases hc with rfl | rfl | rfl
    · exact List.mem_cons_self
    · exact hexDigit_mem_marks _ (by omega)
    · exact hexDigit_mem_marks _ (by omega)

/-- A character of an encoded text comes from encoding, or is one of the text that may stand for
itself. -/
theorem mem_encode_utf8 (h : c ∈ encode reserved t.utf8) :
    c ∈ marks ∨ Stands reserved c ∧ c ∈ t := by
  rcases mem_encode h with hm | ⟨b, hb, hp, rfl⟩
  · exact .inl hm
  · have hlt := (isPlain_iff.mp hp).1.2
    exact .inr ⟨stands_of_isPlain hp, Text.mem_of_mem_utf8 (by omega) hb⟩

theorem lt_toNat_of_mem_encode (hr : ' ' ∈ reserved) (h : c ∈ encode reserved t.utf8) :
    0x20 < c.toNat := by
  have hmarks : ∀ c ∈ marks, 0x20 < c.toNat := Text.forall_of_all (by decide)
  rcases mem_encode_utf8 h with hm | ⟨hs, _⟩
  · exact hmarks c hm
  · exact hs.lt_toNat hr

theorem not_mem_encode (hr : c ∈ reserved) (hm : c ∉ marks) : c ∉ encode reserved t.utf8 := by
  intro h
  rcases mem_encode_utf8 h with h | ⟨hs, _⟩
  · exact hm h
  · exact hs.2 hr

theorem encode_utf8EncodeChar (h : Stands reserved c) :
    encode reserved (String.utf8EncodeChar c) = [c] := by
  obtain ⟨⟨hlo, hhi⟩, hr⟩ := h
  have hv : (UInt8.ofNat c.toNat).toNat = c.toNat := by
    rw [UInt8.toNat_ofNat']
    omega
  rw [Text.utf8EncodeChar_of_lt (by omega), encode_cons, if_pos, hv, Char.ofNat_toNat]
  · rfl
  · rw [isPlain_iff, hv, Char.ofNat_toNat]
    exact ⟨⟨hlo, hhi⟩, hr⟩

theorem encode_eq_self (h : ∀ c ∈ t, Stands reserved c) : encode reserved t.utf8 = t := by
  induction t with
  | nil => rfl
  | cons c t ih =>
    rw [List.forall_mem_cons] at h
    rw [Text.utf8_cons, encode_append, encode_utf8EncodeChar h.1, ih h.2, List.singleton_append]

theorem decode_cons_of_ne (h : c ≠ '%') (t : Text) :
    decode (c :: t) = String.utf8EncodeChar c ++ decode t := by
  rw [decode]
  · simp
  · rintro a b rest rfl
    exact absurd rfl h

theorem number?_pair {a b : Char} {n : Nat} :
    Digits.number? 16 [a, b] = some n ↔
      ∃ i < 16, ∃ j < 16, Digits.value? a = some i ∧ Digits.value? b = some j ∧
        n = i * 16 + j := by
  simp only [Digits.number?, List.foldlM_cons, List.foldlM_nil, Option.bind_eq_bind,
    Option.bind_eq_some_iff, Option.map_eq_some_iff, Option.filter_eq_some_iff,
    Option.pure_def, Option.some.injEq, decide_eq_true_eq]
  constructor
  · rintro ⟨_, ⟨i, ⟨hi, hi'⟩, rfl⟩, _, ⟨j, ⟨hj, hj'⟩, rfl⟩, rfl⟩
    exact ⟨i, hi', j, hj', hi, hj, by omega⟩
  · rintro ⟨i, hi', j, hj', hi, hj, rfl⟩
    exact ⟨_, ⟨i, ⟨hi, hi'⟩, rfl⟩, _, ⟨j, ⟨hj, hj'⟩, rfl⟩, by omega⟩

theorem decode_encodeByte_append (b : UInt8) (t : Text) :
    decode (encodeByte b ++ t) = b :: decode t := by
  have hlt := b.toNat_lt
  have hn : Digits.number? 16 [hexDigit (b.toNat / 16), hexDigit (b.toNat % 16)] = some b.toNat :=
    number?_pair.mpr ⟨_, by omega, _, by omega, value?_hexDigit _ (by omega),
      value?_hexDigit _ (by omega), by omega⟩
  simp [encodeByte, decode, hn]

theorem decode_encode_append (h : ∀ b ∈ bytes, isPlain reserved b = true → b ≠ 0x25) (t : Text) :
    decode (encode reserved bytes ++ t) = bytes ++ decode t := by
  induction bytes with
  | nil => rfl
  | cons b bytes ih =>
    rw [List.forall_mem_cons] at h
    rw [encode_cons, List.append_assoc]
    split
    · next hp =>
      obtain ⟨⟨hlo, hhi⟩, _⟩ := isPlain_iff.mp hp
      have hv : (Char.ofNat b.toNat).toNat = b.toNat := by
        rw [Char.toNat_ofNat, if_pos (.inl (by omega))]
      have hne : Char.ofNat b.toNat ≠ '%' := by
        intro he
        have hb : b.toNat = 0x25 := by rw [← hv, he]; rfl
        exact h.1 hp (UInt8.toNat.inj hb)
      rw [List.singleton_append, decode_cons_of_ne hne, Text.utf8EncodeChar_of_lt (by omega), hv,
        UInt8.ofNat_toNat, ih h.2]
      rfl
    · rw [decode_encodeByte_append, ih h.2, List.cons_append]

theorem isPlain_eq_false_of_not_stands (h : ¬Stands reserved c)
    (hb : b ∈ String.utf8EncodeChar c) : isPlain reserved b = false := by
  rw [Bool.eq_false_iff]
  intro hp
  have hlt := (isPlain_iff.mp hp).1.2
  have hmem : Char.ofNat b.toNat ∈ [c] := Text.mem_of_mem_utf8 (by omega) (by simpa using hb)
  obtain rfl := List.mem_singleton.mp hmem
  exact h (stands_of_isPlain hp)

theorem eq_cons_of_encode_utf8 {e : Text} (h : encode reserved t.utf8 = c :: e) (hc : c ≠ '%') :
    ∃ rest : Text, t = c :: rest ∧ encode reserved rest.utf8 = e := by
  cases t with
  | nil => cases h
  | cons d t =>
    rw [Text.utf8_cons, encode_append] at h
    by_cases hd : Stands reserved d
    · rw [encode_utf8EncodeChar hd] at h
      obtain ⟨rfl, rfl⟩ := List.cons.inj h
      exact ⟨t, rfl, rfl⟩
    · obtain ⟨b, bytes, hb⟩ := List.exists_cons_of_ne_nil (String.utf8EncodeChar_ne_nil (c := d))
      have hp := isPlain_eq_false_of_not_stands hd (hb ▸ List.mem_cons_self)
      rw [hb, encode_cons, hp] at h
      exact absurd (List.cons.inj h).1.symm hc

theorem decode_percent_of_none
    (h : ∀ a b rest, t = a :: b :: rest → Digits.number? 16 [a, b] = none) :
    decode ('%' :: t) = 0x25 :: decode t := by
  rcases t with _ | ⟨a, _ | ⟨b, rest⟩⟩
  · rfl
  · rfl
  · rw [decode, h a b rest rfl]
    rfl

/-- Encoding puts no two digits after a percent sign. -/
theorem none_of_encode_utf8
    (h : ∀ a b rest, t = a :: b :: rest → Digits.number? 16 [a, b] = none) (a b : Char)
    (e : Text) (he : encode reserved t.utf8 = a :: b :: e) : Digits.number? 16 [a, b] = none := by
  rw [Option.eq_none_iff_forall_ne_some]
  intro n hn
  obtain ⟨i, _, j, _, ha, hb, _⟩ := number?_pair.mp hn
  obtain ⟨u, rfl, hu⟩ := eq_cons_of_encode_utf8 he (by rintro rfl; cases ha)
  obtain ⟨rest, rfl, _⟩ := eq_cons_of_encode_utf8 hu (by rintro rfl; cases hb)
  rw [h a b rest rfl] at hn
  cases hn

/-- A text writes the same bytes before and after it is encoded, if what writes a byte stands for
itself. -/
theorem decode_encode_utf8 (h : ∀ c, c = '%' ∨ (Digits.value? c).isSome → Stands reserved c)
    (t : Text) : decode (encode reserved t.utf8) = decode t := by
  have hpercent (t : Text) :
      encode reserved (Text.utf8 ('%' :: t)) = '%' :: encode reserved t.utf8 := by
    rw [Text.utf8_cons, encode_append, encode_utf8EncodeChar (h '%' (.inl rfl)),
      List.singleton_append]
  fun_induction decode t with
  | case1 => rfl
  | case2 a b rest n hn ih =>
    obtain ⟨i, _, j, _, ha, hb, _⟩ := number?_pair.mp hn
    rw [hpercent, Text.utf8_cons, encode_append, encode_utf8EncodeChar (h a (.inr (by simp [ha]))),
      Text.utf8_cons, encode_append, encode_utf8EncodeChar (h b (.inr (by simp [hb]))),
      List.singleton_append, List.singleton_append, decode, hn, ih]
  | case3 a b rest hn ih =>
    have hnone : ∀ a' b' rest', a :: b :: rest = a' :: b' :: rest' →
        Digits.number? 16 [a', b'] = none := by
      rintro _ _ _ ⟨⟩
      exact hn
    rw [hpercent, decode_percent_of_none (none_of_encode_utf8 hnone), ih]
    rfl
  | case4 c rest hne ih =>
    by_cases hc : c = '%'
    · subst hc
      have hnone : ∀ a b rest', rest = a :: b :: rest' → Digits.number? 16 [a, b] = none :=
        fun a b rest' he => (hne a b rest' rfl he).elim
      rw [hpercent, decode_percent_of_none (none_of_encode_utf8 hnone), ih]
      rfl
    · rw [Text.utf8_cons, encode_append, decode_encode_append, ih]
      · simp
      · rintro b hb _ rfl
        have hmem : '%' ∈ [c] := Text.mem_of_mem_utf8 (b := 0x25) (by decide) (by simpa using hb)
        exact hc (List.mem_singleton.mp hmem).symm

theorem decode_eq_utf8 (h : '%' ∉ t) : decode t = t.utf8 := by
  induction t with
  | nil => rfl
  | cons c t ih =>
    rw [List.mem_cons, not_or] at h
    rw [decode_cons_of_ne (Ne.symm h.1), ih h.2, Text.utf8_cons]

theorem decode_eq_nil_iff : decode t = [] ↔ t = [] := by
  fun_cases decode t with
  | case1 => simp
  | case2 a b rest n hn => simp
  | case3 a b rest hn => simp
  | case4 c rest hne => simp [String.utf8EncodeChar_ne_nil]

end Percent

end RailsLookup
