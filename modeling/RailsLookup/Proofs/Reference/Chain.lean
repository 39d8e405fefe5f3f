import Mathlib
import RailsLookup.Proofs.Reference.Qualifiers
import RailsLookup.Proofs.Text.Case
import RailsLookup.Proofs.Text.Preference

/-! # A cursor on a chain of names

A cursor on a later name of a chain gives the names before it as qualifiers, whatever else the
line says. The first name has none before it and takes them from the leftmost place of the line
where it is qualified, be it in the chain itself. It has none if there is no such place.
-/

namespace RailsLookup

def isAsciiWord (c : Char) : Bool := c.isAlphanum || c == '_'

/-- A character that neither belongs to a name nor joins names. -/
def isApart (c : Char) : Bool := !isWord c && !isIdentifier c && c != ':'

theorem isWord_and_isIdentifier_of_isAsciiWord {c : Char} (h : isAsciiWord c = true) :
    isWord c = true ∧ isIdentifier c = true := by
  have hall : ∀ n < 128, isAsciiWord (Char.ofNat n) = true →
      isWord (Char.ofNat n) = true ∧ isIdentifier (Char.ofNat n) = true := by decide +kernel
  have hlt : c.toNat < 128 := by
    rcases (Bool.or_eq_true _ _).mp h with h | h
    · exact Case.toNat_lt_of_isAlphanum h
    · rw [beq_iff_eq.mp h]
      decide
  have hc := hall c.toNat hlt
  rw [Char.ofNat_toNat] at hc
  exact hc h

namespace Text

variable {front w rest : Text}

theorem run_of_append (hw : w ≠ []) (hid : ∀ c ∈ w, isIdentifier c = true)
    (hf : front.getLast?.any isIdentifier = false) (hr : rest.head?.any isIdentifier = false) :
    (front ++ w ++ rest).Run front.length (front.length + w.length) := by
  have hget (i : Nat) (hi : front.length ≤ i) (hlt : i < front.length + w.length) :
      (front ++ w ++ rest)[i]? = w[i - front.length]? := by
    rw [List.append_assoc, List.getElem?_append_right hi,
      List.getElem?_append_left (by omega)]
  refine ⟨Nat.lt_add_of_pos_right (List.length_pos_iff.mpr hw), fun i hi hlt => ?_, ?_, ?_⟩
  · refine ⟨w[i - front.length], ?_, hid _ (List.getElem_mem _)⟩
    rw [hget i hi hlt, List.getElem?_eq_getElem]
  · rintro i hi ⟨c, hc, hcid⟩
    rw [List.append_assoc, List.getElem?_append_left (by omega)] at hc
    rw [List.getLast?_eq_getElem?, ← hi, Nat.add_sub_cancel, hc] at hf
    simp [hcid] at hf
  · rintro ⟨c, hc, hcid⟩
    rw [List.getElem?_append_right (by simp), List.length_append, Nat.sub_self,
      ← List.head?_eq_getElem?] at hc
    simp [hc, hcid] at hr

end Text

namespace Namespace

variable {outer inner names : List Text} {n front : Text}

def opening (names : List Text) : Text := (names.map (· ++ mark)).flatten

theorem opening_eq (h : names ≠ []) : opening names = join names ++ mark := by
  induction names with
  | nil => exact absurd rfl h
  | cons n names ih =>
    cases names with
    | nil => simp [opening, join]
    | cons m names =>
      rw [opening, List.map_cons, List.flatten_cons, ← opening, ih (by simp)]
      simp only [join, List.intercalate_cons_cons, List.append_assoc]

theorem join_append_cons (outer : List Text) (n : Text) (inner : List Text) :
    join (outer ++ n :: inner) = opening outer ++ n ++ (inner.map (mark ++ ·)).flatten := by
  induction outer with
  | nil => simp [opening, join_cons]
  | cons m outer ih =>
    rw [List.cons_append, join, List.intercalate_cons_of_ne_nil (by simp), ← join, ih]
    simp [opening]

theorem IsChain.mem_join (h : IsChain names) {c : Char} (hc : c ∈ join names) :
    isWord c = true ∨ c = ':' := by
  obtain ⟨n, names, rfl⟩ := List.exists_cons_of_ne_nil h.ne_nil
  obtain ⟨hn, hnames⟩ := List.forall_mem_cons.mp h.isName
  rw [join_cons, List.mem_append, List.mem_flatten] at hc
  rcases hc with hc | ⟨_, hs, hc⟩
  · exact .inl (hn.2 c hc)
  · obtain ⟨m, hm, rfl⟩ := List.mem_map.mp hs
    rcases List.mem_append.mp hc with hc | hc
    · exact .inr (by simpa [mark] using hc)
    · exact .inl ((hnames m hm).2 c hc)

theorem IsChain.isLongestChain (h : IsChain names) (hf : front.getLast?.all isApart = true) :
    IsLongestChain (front ++ join names) names := by
  refine ⟨h, List.suffix_append _ _, fun other hother hsuffix => ?_⟩
  by_contra hlt
  obtain ⟨more, hmore⟩ :=
    List.suffix_of_suffix_length_le (List.suffix_append front _) hsuffix (by omega)
  obtain ⟨x, hx⟩ := hsuffix
  rw [← hmore, ← List.append_assoc] at hx
  have hfront := List.append_cancel_right hx
  cases more using List.reverseRecOn with
  | nil => simp [← hmore] at hlt
  | append_singleton more c =>
    rw [← hfront, ← List.append_assoc, List.getLast?_concat] at hf
    have hmem : c ∈ join other := by simp [← hmore]
    rcases hother.mem_join hmem with hc | rfl
    · simp [isApart, hc] at hf
    · exact absurd hf (by decide)

end Namespace

namespace Reference

open Namespace Pattern

variable {content l front rest w n : Text} {names outer inner : List Text} {s column : Nat}

theorem ends_mark_eq_nil {spot e e' : Spot} (he : e ∈ Pattern.word.ends spot)
    (he' : e' ∈ Pattern.word.ends spot) (hlt : e.Beyond e') :
    (lit mark ++ Pattern.word).ends e' = [] := by
  obtain ⟨c, more, hc, hrest⟩ := head_of_beyond he he' hlt
  rw [List.eq_nil_iff_forall_not_mem]
  intro x hx
  obtain ⟨mid, hm, -⟩ := mem_ends_append.mp hx
  obtain ⟨_, rfl, hr⟩ := (spells_lit mark _ _).mp hm
  obtain ⟨rfl, -⟩ := List.cons.inj (hrest.symm.trans hr.1)
  exact absurd hc (by decide)

theorem greedy_chain : chain.Greedy := by
  have hword : Pattern.word.Greedy := greedy_some isWord
  have hmarked : (lit mark ++ Pattern.word).Greedy :=
    (greedy_lit mark).append hword (stopsShort_lit mark _)
  have hon : ∀ spot, ∀ e ∈ (lit mark ++ Pattern.word).ends spot, e.Beyond spot := by
    intro spot e he
    refine ((spells_lit mark).append (spells_some isWord)).beyond ?_ he
    rintro ⟨_, rfl, t, -, ht⟩
    simp [mark] at ht
  have hstop : StopsShort (lit mark ++ Pattern.word) (lit mark ++ Pattern.word) := by
    intro spot e he e' he' hlt
    obtain ⟨mid, hm, he⟩ := mem_ends_append.mp he
    obtain ⟨mid', hm', he'⟩ := mem_ends_append.mp he'
    obtain rfl := eq_of_mem_ends_lit hm hm'
    rw [ends_mark_eq_nil he he' hlt]
    exact List.nil_subset _
  refine hword.append (hmarked.star hon hstop) fun spot e he e' he' hlt => ?_
  rw [ends_star_of_ends_eq_nil (ends_mark_eq_nil he he' hlt)]
  exact List.Subset.refl _

/-- After `front` the names stand on the line, and then `::` and the word as a whole. -/
structure Qualified (l w front : Text) (names : List Text) : Prop where
  isChain : IsChain names
  before : front.getLast?.any isWord = false
  stands : ∃ rest, l = front ++ (join names ++ (mark ++ w ++ rest)) ∧
    rest.head?.any isWord = false

/-- The names qualify the word at the leftmost place of the line where any do, and no longer chain
that begins there does. -/
def FirstQualified (l w : Text) (names : List Text) : Prop :=
  ∃ front, Qualified l w front names ∧ ∀ front' names', Qualified l w front' names' →
    front.length ≤ front'.length ∧ (front = front' → (join names').length ≤ (join names).length)

theorem startsAt_mark_word_iff (hw : w.getLast?.any isWord = true) {t : Text} :
    (lit mark ++ lit w ++ edge).startsAt (.between front t) = true ↔
      ∃ rest, t = mark ++ w ++ rest ∧ rest.head?.any isWord = false := by
  have hedge (rest : Text) : (Spot.between (front ++ (mark ++ w)) rest).isEdge = true ↔
      rest.head?.any isWord = false := by
    have hlast : (mark ++ w).getLast?.any isWord = true := by
      obtain ⟨c, hc, hcw⟩ := (Option.any_eq_true _ _).mp hw
      simp [List.getLast?_append, hc, hcw]
    rw [Spot.isEdge_between_append (by simp [mark]), hlast]
    simp
  have hspells := (spells_lit mark).append (spells_lit w)
  simp only [startsAt_iff_exists, mem_ends_append (a := lit mark ++ lit w), mem_ends_edge,
    hspells _ _]
  constructor
  · rintro ⟨_, mid, ⟨_, ⟨_, rfl, _, rfl, rfl⟩, hr⟩, hend, rfl⟩
    obtain ⟨rest, rfl, rfl⟩ := hr.eq_between
    exact ⟨rest, rfl, (hedge rest).mp hend⟩
  · rintro ⟨rest, rfl, hrest⟩
    exact ⟨_, _, ⟨mark ++ w, ⟨mark, rfl, w, rfl, rfl⟩, Spot.reads_between front (mark ++ w) rest⟩,
      (hedge rest).mpr hrest, rfl⟩

theorem Qualified.exists_capture (h : Qualified l w front names)
    (hw : w.getLast?.any isWord = true) :
    ∃ rest, l = front ++ (join names ++ rest) ∧
      Capture chains (lit mark ++ lit w ++ edge) front (join names) rest := by
  obtain ⟨rest, hl, hrest⟩ := h.stands
  exact ⟨_, hl, ⟨names, h.isChain, rfl⟩,
    (Spot.isEdge_between_of_head (h.isChain.head_join _)).mpr h.before,
    (startsAt_mark_word_iff hw).mpr ⟨rest, rfl, hrest⟩⟩

theorem qualified_of_capture {c after : Text} (hw : w.getLast?.any isWord = true)
    (h : Capture chains (lit mark ++ lit w ++ edge) front c after) :
    ∃ names, c = join names ∧ Qualified (front ++ (c ++ after)) w front names := by
  obtain ⟨⟨names, hn, rfl⟩, hedge, hstarts⟩ := h
  obtain ⟨rest, rfl, hrest⟩ := (startsAt_mark_word_iff hw).mp hstarts
  exact ⟨names, rfl, hn, (Spot.isEdge_between_of_head (hn.head_join _)).mp hedge, rest, rfl, hrest⟩

theorem chainOnLine?_eq_none (hw : w.getLast?.any isWord = true) (h : chainOnLine? l w = none)
    (front : Text) (names : List Text) : ¬Qualified l w front names := by
  intro hq
  obtain ⟨rest, rfl, hc⟩ := hq.exists_capture hw
  have hsome : (chainOnLine? _ w).isSome = true := hc.isSome_capture? spells_chain
  rw [h] at hsome
  cases hsome

theorem firstQualified_of_chainOnLine? {c : Text} (hw : w.getLast?.any isWord = true)
    (h : chainOnLine? l w = some c) : ∃ names, c = join names ∧ FirstQualified l w names := by
  obtain ⟨front, after, rfl, hb, hleast⟩ := capture?_eq_some_iff.mp h
  obtain ⟨rest, rfl, hc⟩ := capture_of_between? spells_chain hb
  obtain ⟨names, rfl, hq⟩ := qualified_of_capture hw hc
  refine ⟨names, rfl, front, hq, fun front' names' hq' => ?_⟩
  obtain ⟨rest', hl, hc'⟩ := hq'.exists_capture hw
  constructor
  · by_contra hlt
    have hsome := hc'.isSome_between? spells_chain
    rw [hleast front' _ hl (by omega)] at hsome
    cases hsome
  · rintro rfl
    rw [List.append_cancel_left hl] at hb
    exact greedy_chain.length_le_of_between? spells_chain hb hc'

theorem at?_of_word {row : Nat} (hl : content.lines[row]? = some (front ++ w ++ rest))
    (hw : w ≠ []) (hid : ∀ c ∈ w, isIdentifier c = true)
    (hf : front.getLast?.any isIdentifier = false) (hr : rest.head?.any isIdentifier = false)
    (hs : front.length ≤ column) (he : column ≤ front.length + w.length) :
    at? content ⟨row, column⟩ = some
      { word := w, line := front ++ w ++ rest, column
        scope := ((chainBefore? front <|> chainOnLine? (front ++ w ++ rest) w).map
          Namespace.segments).getD [] } := by
  have hword : ((front ++ w ++ rest).take (front.length + w.length)).drop front.length = w := by
    rw [← List.length_append, List.take_left, List.drop_left]
  have hfront : (front ++ w ++ rest).take front.length = front := by
    rw [List.append_assoc, List.take_left]
  rw [at?_of_run hl (Text.run_of_append hw hid hf hr) hs he, ofWord, hword, hfront]

/-- A chain of names of ASCII stands on a line between `front` and `rest`, which neither make its
ends longer nor join further names to it. -/
structure StandsApart (l front : Text) (names : List Text) (rest : Text) : Prop where
  eq : l = front ++ join names ++ rest
  isName : ∀ n ∈ names, n ≠ [] ∧ ∀ c ∈ n, isAsciiWord c = true
  before : front.getLast?.all isApart = true
  after : rest.head?.all isApart = true

theorem chainBefore?_of_apart (hf : front.getLast?.all isApart = true) :
    chainBefore? front = none := by
  rw [Option.eq_none_iff_forall_ne_some]
  intro c hc
  obtain ⟨names, x, -, -, rfl⟩ := exists_of_chainBefore? hc
  have hlast : (x ++ join names ++ mark).getLast? = some ':' := by
    simp [mark, List.getLast?_append]
  rw [hlast] at hf
  exact absurd hf (by decide)

theorem segments_chainBefore? (h : IsChain names) (hf : front.getLast?.all isApart = true) :
    (chainBefore? (front ++ join names ++ mark)).map Namespace.segments = some names := by
  obtain ⟨stem, c, hjoin, hc⟩ := h.exists_last
  have hsome := isSome_chainBefore? (front ++ stem) hc
  rw [List.append_assoc front, ← hjoin] at hsome
  obtain ⟨chain, hchain⟩ := Option.isSome_iff_exists.mp hsome
  obtain ⟨found, rfl, hlongest⟩ := isLongestChain_of_chainBefore? hchain
  obtain rfl := (h.isLongestChain hf).unique hlongest
  rw [hchain, Option.map_some, segments_join h.not_mem_colon]

theorem not_isIdentifier_of_apart {c? : Option Char} (h : c?.all isApart = true) :
    c?.any isIdentifier = false := by
  cases c? with
  | none => rfl
  | some c =>
    simp only [Option.all_some, isApart, Bool.and_eq_true, Bool.not_eq_true'] at h
    exact h.1.2

theorem StandsApart.at?_eq {row : Nat} (h : StandsApart l front (outer ++ n :: inner) rest)
    (hl : content.lines[row]? = some l) (hs : (front ++ opening outer).length ≤ column)
    (he : column ≤ (front ++ opening outer ++ n).length) :
    at? content ⟨row, column⟩ = some
      { word := n, line := l, column
        scope := ((chainBefore? (front ++ opening outer) <|> chainOnLine? l n).map
          Namespace.segments).getD [] } := by
  have hline : l = front ++ opening outer ++ n ++ ((inner.map (mark ++ ·)).flatten ++ rest) := by
    rw [h.eq, join_append_cons]
    simp only [List.append_assoc]
  obtain ⟨hne, hn⟩ := h.isName n (by simp)
  have hbefore : (front ++ opening outer).getLast?.any isIdentifier = false := by
    by_cases ho : outer = []
    · rw [ho, opening, List.map_nil, List.flatten_nil, List.append_nil]
      exact not_isIdentifier_of_apart h.before
    · have hlast : (front ++ opening outer).getLast? = some ':' := by
        simp [opening_eq ho, mark, List.getLast?_append]
      rw [hlast]
      decide
  have hafter : ((inner.map (mark ++ ·)).flatten ++ rest).head?.any isIdentifier = false := by
    cases inner with
    | nil => exact not_isIdentifier_of_apart h.after
    | cons m inner => exact (by decide : (some ':').any isIdentifier = false)
  rw [hline] at hl ⊢
  rw [List.length_append] at he
  exact at?_of_word hl hne (fun c hc => (isWord_and_isIdentifier_of_isAsciiWord (hn c hc)).2)
    hbefore hafter hs he

/-- A cursor on a name of a chain gives the name. On a later name the qualifiers are the names
before it. On the first one they are those of the leftmost place of the line where it is
qualified, and there are none if it is nowhere qualified. -/
theorem at?_on_chain (content l front rest : Text) (names : List Text) (n : Text)
    (row column k : Nat) (hl : content.lines[row]? = some l) (h : StandsApart l front names rest)
    (hk : names[k]? = some n) (hs : (front ++ opening (names.take k)).length ≤ column)
    (he : column ≤ (front ++ opening (names.take k) ++ n).length) :
    ∃ r, at? content ⟨row, column⟩ = some r ∧ r.word = n ∧ r.line = l ∧ r.column = column ∧
      (0 < k → r.scope = names.take k) ∧
      (k = 0 → FirstQualified l n r.scope ∨
        r.scope = [] ∧ ∀ front' names', ¬Qualified l n front' names') := by
  obtain ⟨hlt, rfl⟩ := List.getElem?_eq_some_iff.mp hk
  have hnames : names = names.take k ++ names[k] :: names.drop (k + 1) := by
    rw [← List.drop_eq_getElem_cons hlt, List.take_append_drop]
  have hname := h.isName _ (List.getElem_mem hlt)
  have hword : names[k].getLast?.any isWord = true := by
    rw [List.getLast?_eq_some_getLast hname.1, Option.any_some]
    exact (isWord_and_isIdentifier_of_isAsciiWord (hname.2 _ (List.getLast_mem _))).1
  refine ⟨_, (hnames ▸ h).at?_eq hl hs he, rfl, rfl, rfl, fun hpos => ?_, ?_⟩
  · have hne : names.take k ≠ [] := by
      rw [ne_eq, List.take_eq_nil_iff, not_or]
      exact ⟨by omega, List.ne_nil_of_length_pos (by omega)⟩
    have hchain : IsChain (names.take k) := by
      refine ⟨hne, fun m hm => ?_⟩
      obtain ⟨hm, hw⟩ := h.isName m (List.mem_of_mem_take hm)
      exact ⟨hm, fun c hc => (isWord_and_isIdentifier_of_isAsciiWord (hw c hc)).1⟩
    have hbefore := segments_chainBefore? hchain h.before
    rw [List.append_assoc, ← opening_eq hne] at hbefore
    obtain ⟨chain, hc, hsegments⟩ := Option.map_eq_some_iff.mp hbefore
    rw [hc]
    exact hsegments
  · rintro rfl
    have hbefore : chainBefore? (front ++ opening (names.take 0)) = none := by
      rw [List.take_zero, opening, List.map_nil, List.flatten_nil, List.append_nil]
      exact chainBefore?_of_apart h.before
    dsimp only
    rw [hbefore]
    cases hc : chainOnLine? l names[0] with
    | none => exact .inr ⟨rfl, chainOnLine?_eq_none hword hc⟩
    | some chain =>
      obtain ⟨found, rfl, hfirst⟩ := firstQualified_of_chainOnLine? hword hc
      have hcolon := hfirst.choose_spec.1.isChain.not_mem_colon
      left
      change FirstQualified l names[0] (segments (join found))
      rwa [segments_join hcolon]

theorem at?_on_chain_grid :
    StandsApart "y(A::B::A, X::A)".toList "y(".toList ["A".toList, "B".toList, "A".toList]
      ", X::A)".toList ∧
    at? "y(A::B::A, X::A)\n".toList ⟨0, 2⟩ = some
      { word := "A".toList, line := "y(A::B::A, X::A)".toList, column := 2,
        scope := ["A".toList, "B".toList] } ∧
    FirstQualified "y(A::B::A, X::A)".toList "A".toList ["A".toList, "B".toList] := by
  have h : StandsApart "y(A::B::A, X::A)".toList "y(".toList
      ["A".toList, "B".toList, "A".toList] ", X::A)".toList :=
    ⟨by decide, by simp [isAsciiWord], by decide, by decide⟩
  have hr : at? "y(A::B::A, X::A)\n".toList ⟨0, 2⟩ = some
      { word := "A".toList, line := "y(A::B::A, X::A)".toList, column := 2,
        scope := ["A".toList, "B".toList] } := by cbv
  obtain ⟨r, hr', -, -, -, -, hfirst⟩ := at?_on_chain "y(A::B::A, X::A)\n".toList _ _ _ _ "A".toList
    0 2 0 (by decide) h (by decide) (by decide) (by decide)
  obtain rfl := Option.some.inj (hr.symm.trans hr')
  exact ⟨h, hr, (hfirst rfl).resolve_right fun hnil => by cases hnil.1⟩

/-- The first name of a chain may take qualifiers from elsewhere on the line. A superscript in front
of it is no word character and still belongs to the word at the cursor. -/
theorem at?_first_name_qualified_elsewhere :
    at? "A::B, X::A\n".toList ⟨0, 0⟩ = some
      { word := "A".toList, line := "A::B, X::A".toList, column := 0, scope := ["X".toList] } ∧
    isWord '²' = false ∧ at? "²A::B\n".toList ⟨0, 1⟩ = some
      { word := "²A".toList, line := "²A::B".toList, column := 1, scope := [] } := by
  exact ⟨by cbv, by decide, by cbv⟩

end Reference

end RailsLookup
