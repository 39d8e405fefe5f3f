import Mathlib
import RailsLookup.Proofs.Text.Encoding
import RailsLookup.Proofs.Text.Position

/-! # Boundaries of characters

A number of bytes is filled by a beginning of a text, or it ends inside a character. Only the first
byte of a character can be taken for one. So where the bytes of a word stand among those of a text,
the word stands in the text.
-/

namespace RailsLookup

theorem Utf8.decode_utf8_append (word : Text) (bytes : Bytes) :
    decode (word.utf8 ++ bytes) = word ++ decode bytes := by
  induction word with
  | nil => rfl
  | cons c word ih =>
    rw [Text.utf8_cons, List.append_assoc, decode, decodeFrom_utf8EncodeChar, ← decode, ih,
      List.cons_append]

namespace Text

variable {t word front : Text} {c : Char} {n o : Nat}

@[simp] theorem byteSize_nil : byteSize [] = 0 := rfl

theorem byteSize_cons (c : Char) (t : Text) : byteSize (c :: t) = c.utf8Size + byteSize t := rfl

theorem length_utf8 (t : Text) : t.utf8.length = t.byteSize := by
  induction t with
  | nil => rfl
  | cons c t ih =>
    rw [utf8_cons, List.length_append, String.length_utf8EncodeChar, ih, byteSize_cons]

theorem byteSize_pos (h : t ≠ []) : 0 < t.byteSize := by
  obtain ⟨c, t, rfl⟩ := List.exists_cons_of_ne_nil h
  have hc := c.utf8Size_pos
  rw [byteSize_cons]
  omega

/-- The offset falls between two bytes of one character. -/
def Inside (t : Text) (offset : Nat) : Prop :=
  ∃ (front : Text) (c : Char) (back : Text), t = front ++ c :: back ∧
    front.byteSize < offset ∧ offset < front.byteSize + c.utf8Size

/-- Either some characters fill the first bytes, or the last of these belongs to a character that
goes on. -/
theorem takeBytes?_cases (t : Text) (n : Nat) :
    (∃ front : Text, front <+: t ∧ front.byteSize = min n t.byteSize ∧
        t.takeBytes? n = some front) ∨
      t.Inside (min n t.byteSize) ∧ t.takeBytes? n = none := by
  fun_induction takeBytes? t n with
  | case1 t => exact .inl ⟨[], List.nil_prefix, by simp, rfl⟩
  | case2 n => exact .inl ⟨[], List.nil_prefix, by simp, rfl⟩
  | case3 c t n hne hn =>
    refine .inr ⟨⟨[], c, t, rfl, ?_, ?_⟩, rfl⟩
    all_goals
      have hn := Nat.pos_of_ne_zero hne
      rw [byteSize_cons, byteSize_nil]
      omega
  | case4 c t n hne hn ih =>
    have hmin : min n (byteSize (c :: t)) = c.utf8Size + min (n - c.utf8Size) (byteSize t) := by
      rw [byteSize_cons]
      omega
    rcases ih with ⟨front, hfront, hsize, htake⟩ | ⟨⟨front, d, back, rfl, hlo, hhi⟩, htake⟩
    · refine .inl ⟨c :: front, List.cons_prefix_cons.mpr ⟨rfl, hfront⟩, ?_, by rw [htake]; rfl⟩
      rw [byteSize_cons, hsize, hmin]
    · refine .inr ⟨⟨c :: front, d, back, rfl, ?_, ?_⟩, by rw [htake]; rfl⟩
      all_goals
        rw [hmin, byteSize_cons]
        omega

theorem eq_of_byteSize_eq {front' : Text} (h : front <+: t) (h' : front' <+: t)
    (hsize : front.byteSize = front'.byteSize) : front = front' := by
  have hle {a b : Text} (hab : a <+: b) (hsize : a.byteSize = b.byteSize) : a = b := by
    obtain ⟨more, rfl⟩ := hab
    by_contra hne
    have hpos := byteSize_pos (t := more) (by rintro rfl; simp at hne)
    rw [byteSize_append] at hsize
    omega
  rcases List.prefix_or_prefix_of_prefix h h' with hp | hp
  · exact hle hp hsize
  · exact (hle hp hsize.symm).symm

theorem not_inside (h : front <+: t) : ¬t.Inside front.byteSize := by
  rintro ⟨before, c, back, rfl, hlo, hhi⟩
  have hsize : byteSize (before ++ [c]) = before.byteSize + c.utf8Size := by
    rw [byteSize_append, byteSize_cons]
    rfl
  have hnext : before ++ [c] <+: before ++ c :: back := ⟨back, by simp⟩
  rcases List.prefix_or_prefix_of_prefix h hnext with hp | hp
  · rcases List.prefix_concat_iff.mp hp with rfl | hp
    · omega
    · have := byteSize_mono hp
      omega
  · have := byteSize_mono hp
    omega

theorem takeBytes?_eq_some_iff :
    t.takeBytes? n = some front ↔ front <+: t ∧ front.byteSize = min n t.byteSize := by
  rcases takeBytes?_cases t n with ⟨front', hfront', hsize', htake⟩ | ⟨hin, htake⟩
  · rw [htake, Option.some.injEq]
    constructor
    · rintro rfl
      exact ⟨hfront', hsize'⟩
    · rintro ⟨hfront, hsize⟩
      exact eq_of_byteSize_eq hfront' hfront (hsize'.trans hsize.symm)
  · rw [htake]
    constructor
    · rintro ⟨⟩
    · rintro ⟨hfront, hsize⟩
      exact absurd (hsize ▸ hin) (not_inside hfront)

theorem takeBytes?_eq_none_iff : t.takeBytes? n = none ↔ t.Inside (min n t.byteSize) := by
  rcases takeBytes?_cases t n with ⟨front, hfront, hsize, htake⟩ | ⟨hin, htake⟩
  · rw [htake, ← hsize]
    simp [not_inside hfront]
  · simp [htake, hin]

theorem isUTF8FirstByte_utf8EncodeChar {i : Nat} (hi : i < (String.utf8EncodeChar c).length) :
    ((String.utf8EncodeChar c)[i]).IsUTF8FirstByte ↔ i = 0 := by
  have hsize : i < [c].utf8Encode.size := by
    rw [List.utf8Encode_singleton, List.size_toByteArray]
    exact hi
  rw [← @List.isUTF8FirstByte_getElem_utf8Encode_singleton c i hsize]
  simp only [List.utf8Encode_singleton]
  simp

theorem not_utf8_prefix_drop (hn : 0 < n) (hlt : n < c.utf8Size) (hw : word ≠ []) :
    ¬word.utf8 <+: (utf8 (c :: t)).drop n := by
  obtain ⟨d, word, rfl⟩ := List.exists_cons_of_ne_nil hw
  have hd : 0 < (String.utf8EncodeChar d).length := by
    rw [String.length_utf8EncodeChar]
    exact d.utf8Size_pos
  have hc : n < (String.utf8EncodeChar c).length := by rwa [String.length_utf8EncodeChar]
  rw [utf8_cons, utf8_cons, List.drop_append_of_le_length (Nat.le_of_lt hc)]
  intro hp
  have hbyte : (String.utf8EncodeChar d)[0] = (String.utf8EncodeChar c)[n] := by
    have hhead := hp.getElem (i := 0) (by rw [List.length_append]; omega)
    rw [List.getElem_append_left hd, List.getElem_append_left (by simpa using hc)] at hhead
    simpa using hhead
  have hfirst := (isUTF8FirstByte_utf8EncodeChar hd).mpr rfl
  rw [hbyte, isUTF8FirstByte_utf8EncodeChar hc] at hfirst
  omega

theorem utf8_prefix_iff : word.utf8 <+: t.utf8 ↔ word <+: t := by
  constructor
  · rintro ⟨bytes, h⟩
    have ht := Utf8.decode_utf8_append word bytes
    rw [h, Utf8.decode_utf8] at ht
    exact ⟨Utf8.decode bytes, ht.symm⟩
  · rintro ⟨rest, rfl⟩
    exact ⟨utf8 rest, (utf8_append word rest).symm⟩

/-- A word whose bytes stand at an offset stands there in the text. -/
theorem utf8_prefix_drop_iff (hw : word ≠ []) :
    word.utf8 <+: t.utf8.drop o ↔
      ∃ front rest : Text, t = front ++ (word ++ rest) ∧ front.byteSize = o := by
  constructor
  · intro h
    induction t generalizing o with
    | nil =>
      rw [utf8_nil, List.drop_nil, List.prefix_nil, utf8_eq_nil_iff] at h
      exact absurd h hw
    | cons c t ih =>
      rcases Nat.lt_or_ge o c.utf8Size with hlt | hle
      · obtain rfl : o = 0 := by
          by_contra hne
          exact not_utf8_prefix_drop (Nat.pos_of_ne_zero hne) hlt hw h
        obtain ⟨rest, hrest⟩ := utf8_prefix_iff.mp h
        exact ⟨[], rest, hrest.symm, rfl⟩
      · rw [utf8_cons, List.drop_append, String.length_utf8EncodeChar,
          List.drop_of_length_le (by rwa [String.length_utf8EncodeChar]), List.nil_append] at h
        obtain ⟨front, rest, rfl, hsize⟩ := ih h
        refine ⟨c :: front, rest, rfl, ?_⟩
        rw [byteSize_cons]
        omega
  · rintro ⟨front, rest, rfl, rfl⟩
    rw [utf8_append, ← length_utf8, List.drop_left, utf8_append]
    exact List.prefix_append _ _

end Text

end RailsLookup
