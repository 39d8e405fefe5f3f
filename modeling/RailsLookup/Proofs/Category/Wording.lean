import Mathlib
import RailsLookup.Proofs.Category.Priority

/-! # The wording of categories

Services, controllers, helpers and mailers are told by a whole word of the line that ends in their
name, or by a keyword that introduces a name. The patterns for them read runs of characters and
optional parts in every way, so it is enough that one way leads on. A pattern for constants with a
namespace adds nothing to the one for constants alone.
-/

namespace RailsLookup.Category

open Pattern Computability

variable {line key : Text} {ending : String} {p : Pattern} {M : Language Char}

/-- A whole word of the line: a run of word characters with no other one before or after it. -/
def IsWordOf (line run : Text) : Prop :=
  ∃ front rest : Text, line = front ++ (run ++ rest) ∧ run ∈ words ∧
    front.getLast?.any isWord = false ∧ rest.head?.any isWord = false

def ShowsEnding (ending line : Text) : Prop :=
  ∃ run, IsWordOf line run ∧ ending <:+ run ∧ ending.length < run.length

def colons : Language Char :=
  {s | ∃ gap first gap' second : Text, gap ∈ gaps ∧ (first = [] ∨ first = [':']) ∧ gap' ∈ gaps ∧
    (second = [] ∨ second = [':']) ∧ s = gap ++ first ++ gap' ++ second}

/-- The key stands in the line with no word character before it, and after it come up to two
colons and a word character. -/
def Introduces (key line : Text) : Prop :=
  ∃ (front s : Text) (c : Char) (rest : Text), line = front ++ (key ++ (s ++ c :: rest)) ∧
    front.getLast?.any isWord = false ∧ s ∈ colons ∧ isWord c = true

/-- A word in quotation marks, or a colon and a word character. -/
def OpensValue (t : Text) : Prop :=
  (∃ (q : Char) (w : Text) (q' : Char) (rest : Text), t = q :: (w ++ q' :: rest) ∧
    q ∈ quotationMarks ∧ w ∈ words ∧ q' ∈ quotationMarks) ∨
  ∃ (c : Char) (rest : Text), t = ':' :: c :: rest ∧ isWord c = true

/-- The key stands in the line with no word character before it, and after it come a colon in
white space and a value. -/
def GivesOption (key line : Text) : Prop :=
  ∃ front gap gap' value : Text, line = front ++ (key ++ (gap ++ ':' :: (gap' ++ value))) ∧
    front.getLast?.any isWord = false ∧ gap ∈ gaps ∧ gap' ∈ gaps ∧ OpensValue value

theorem getLast?_of_mem_words {run : Text} (h : run ∈ words) :
    run.getLast?.any isWord = true := by
  rw [List.getLast?_eq_some_getLast h.1, Option.any_some]
  exact h.2 _ (List.getLast_mem h.1)

theorem head?_of_mem_words {run : Text} (h : run ∈ words) (rest : Text) :
    (run ++ rest).head?.any isWord = true := by
  obtain ⟨hne, hw⟩ := h
  obtain ⟨c, run, rfl⟩ := List.exists_cons_of_ne_nil hne
  exact hw c List.mem_cons_self

theorem showsEnding_of_stem {stem e front rest : Text} (hs : stem ∈ words)
    (he : ∀ c ∈ e, isWord c = true) (hf : front.getLast?.any isWord = false)
    (hr : (stem ++ e).getLast?.any isWord ≠ rest.head?.any isWord) :
    ShowsEnding e (front ++ (stem ++ e ++ rest)) := by
  have hword : stem ++ e ∈ words :=
    ⟨by simp [hs.1], List.forall_mem_append.mpr ⟨hs.2, he⟩⟩
  rw [getLast?_of_mem_words hword, ne_comm, Ne, Bool.not_eq_true] at hr
  refine ⟨stem ++ e, ⟨front, rest, rfl, hword, hf, hr⟩, List.suffix_append _ _, ?_⟩
  rw [List.length_append]
  exact Nat.lt_add_of_pos_left (List.length_pos_iff.mpr hs.1)

theorem occursIn_wordEnding_iff (he : ∀ c ∈ ending.toList, isWord c = true) :
    (wordEnding ending).occursIn line = true ↔ ShowsEnding ending.toList line := by
  have hspells : (edge ++ word ++ lit ending.toList).SpellsFromEdge (words * {ending.toList}) :=
    spells_word.edge_append.append (spells_lit ending.toList)
  refine (hspells.occursIn_append_edge_iff ?_).trans ?_
  · rintro _ ⟨stem, hs, _, rfl, rfl⟩
    exact head?_of_mem_words hs _
  · constructor
    · rintro ⟨front, _, rest, rfl, hf, ⟨stem, hs, _, rfl, rfl⟩, hr⟩
      exact showsEnding_of_stem hs he hf hr
    · rintro ⟨_, ⟨front, rest, rfl, hrun, hf, hr⟩, ⟨stem, rfl⟩, hlen⟩
      have hne : stem ≠ [] := by
        rintro rfl
        simp at hlen
      have hs : stem ∈ words := ⟨hne, (List.forall_mem_append.mp hrun.2).1⟩
      refine ⟨front, _, rest, rfl, hf, ⟨stem, hs, _, rfl, rfl⟩, ?_⟩
      rw [getLast?_of_mem_words hrun, hr]
      simp

theorem showsEnding_of_qualifiedEnding (he : ∀ c ∈ ending.toList, isWord c = true)
    (h : (qualifiedEnding ending).occursIn line = true) : ShowsEnding ending.toList line := by
  have hscope : (word ++ lit [':', ':']).Spells (words * {[':', ':']}) :=
    spells_word.append (spells_lit [':', ':'])
  have hspells := ((hscope.edge_append.append hscope.star).append spells_word).append
    (spells_lit ending.toList)
  rw [← Language.mul_self_kstar_comm] at hspells
  obtain ⟨front, t, rfl, hstarts⟩ := occursIn_iff.mp h
  obtain ⟨-, _, ⟨_, ⟨_, ⟨before, -, _, ⟨w, -, _, rfl, rfl⟩, rfl⟩, stem, hs, rfl⟩, _, rfl, rfl⟩,
    rest, rfl, hedge⟩ := hspells.startsAt_append_edge_iff.mp hstarts
  have hcolon : (front ++ before ++ w ++ [':', ':']).getLast?.any isWord = false := by
    simpa [List.getLast?_append] using show isWord ':' = false by decide
  have hend : (Spot.between (front ++ before ++ w ++ [':', ':'] ++ (stem ++ ending.toList))
      rest).isEdge = true := by
    simpa only [List.append_assoc] using hedge
  rw [Spot.isEdge_between_append (by simp [hs.1])] at hend
  have hshows := showsEnding_of_stem hs he hcolon hend
  simpa only [List.append_assoc] using hshows

theorem occursIn_keyed_iff (hp : p.SpellsFromEdge ({key} * M)) (hk : key.head?.any isWord = true) :
    p.occursIn line = true ↔ ∃ front s rest, line = front ++ (key ++ (s ++ rest)) ∧
      front.getLast?.any isWord = false ∧ s ∈ M := by
  rw [hp.occursIn_iff_of_head]
  · constructor
    · rintro ⟨front, _, rest, rfl, hf, _, rfl, s, hs, rfl⟩
      exact ⟨front, s, rest, by simp, hf, hs⟩
    · rintro ⟨front, s, rest, rfl, hf, hs⟩
      exact ⟨front, key ++ s, rest, by simp, hf, key, rfl, s, hs, rfl⟩
  · rintro _ ⟨_, rfl, s, -, rfl⟩
    obtain ⟨c, hc, hcw⟩ := (Option.any_eq_true _ _).mp hk
    simp [hc, hcw]

/-- White space that no colon follows belongs to the white space after it. -/
theorem gaps_mul_eq_colons :
    gaps * ({[':']} * gaps * ({[':']} + {[]}) + {[]}) = colons := by
  ext s
  constructor
  · rintro ⟨gap, hg, _, ⟨_, ⟨_, rfl, gap', hg', rfl⟩, second, hs, rfl⟩ | rfl, rfl⟩
    · exact ⟨gap, [':'], gap', second, hg, .inr rfl, hg', hs.symm, by simp⟩
    · exact ⟨gap, [], [], [], hg, .inl rfl, nil_mem_gaps, .inl rfl, by simp⟩
  · rintro ⟨gap, first, gap', second, hg, rfl | rfl, hg', hs, rfl⟩
    · have hall : gap ++ gap' ∈ gaps := List.forall_mem_append.mpr ⟨hg, hg'⟩
      rcases hs with rfl | rfl
      · exact ⟨gap ++ gap', hall, [], .inr rfl, by simp⟩
      · refine ⟨gap ++ gap', hall, [':'], .inl ?_, by simp⟩
        exact ⟨_, ⟨_, rfl, [], nil_mem_gaps, rfl⟩, [], .inr rfl, rfl⟩
    · exact ⟨gap, hg, _, .inl ⟨_, ⟨_, rfl, gap', hg', rfl⟩, second, hs.symm, rfl⟩, by simp⟩

theorem occursIn_keyword_iff {key : String} (hk : key.toList.head?.any isWord = true) :
    (keyword key).occursIn line = true ↔ Introduces key.toList line := by
  have hcolons : (lit [':'] ++ blanks ++ optional (lit [':'])).Spells
      ({[':']} * gaps * ({[':']} + {[]})) :=
    ((spells_lit [':']).append spells_blanks).append (spells_lit [':']).optional
  have hparts : (keyword key).SpellsFromEdge
      ({key.toList} * gaps * ({[':']} * gaps * ({[':']} + {[]}) + {[]}) * words) :=
    (((spells_lit key.toList).edge_append.append spells_blanks).append
      hcolons.optional).append spells_word
  have hspells : (keyword key).SpellsFromEdge ({key.toList} * (colons * words)) := by
    rwa [mul_assoc _ gaps, gaps_mul_eq_colons, mul_assoc] at hparts
  rw [occursIn_keyed_iff hspells hk]
  constructor
  · rintro ⟨front, _, rest, rfl, hf, s, hs, w, ⟨hne, hw⟩, rfl⟩
    obtain ⟨c, w, rfl⟩ := List.exists_cons_of_ne_nil hne
    exact ⟨front, s, c, w ++ rest, by simp, hf, hs, hw c List.mem_cons_self⟩
  · rintro ⟨front, s, c, rest, rfl, hf, hs, hc⟩
    exact ⟨front, s ++ [c], rest, by simp, hf, s, hs, [c], singleton_mem_words hc, rfl⟩

def values : Language Char := quotes * (words * quotes) + {[':']} * words

theorem opensValue_iff {t : Text} : OpensValue t ↔ ∃ s ∈ values, ∃ rest, t = s ++ rest := by
  constructor
  · rintro (⟨q, w, q', rest, rfl, hq, hw, hq'⟩ | ⟨c, rest, rfl, hc⟩)
    · refine ⟨[q] ++ (w ++ [q']), .inl ⟨[q], ⟨q, hq, rfl⟩, w ++ [q'], ?_, rfl⟩, rest, by simp⟩
      exact ⟨w, hw, [q'], ⟨q', hq', rfl⟩, rfl⟩
    · exact ⟨[':', c], .inr ⟨[':'], rfl, [c], singleton_mem_words hc, rfl⟩, rest, rfl⟩
  · rintro ⟨_, ⟨_, ⟨q, hq, rfl⟩, _, ⟨w, hw, _, ⟨q', hq', rfl⟩, rfl⟩, rfl⟩ |
      ⟨_, rfl, w, ⟨hne, hw⟩, rfl⟩, rest, rfl⟩
    · exact .inl ⟨q, w, q', rest, by simp, hq, hw, hq'⟩
    · obtain ⟨c, w, rfl⟩ := List.exists_cons_of_ne_nil hne
      exact .inr ⟨c, w ++ rest, by simp, hw c List.mem_cons_self⟩

theorem spells_controllerOption :
    controllerOption.SpellsFromEdge
      ({"controller".toList} * (gaps * ({[':']} * (gaps * values)))) := by
  have hquoted : (quote ++ word ++ quote).Spells (quotes * words * quotes) :=
    (spells_quote.append spells_word).append spells_quote
  have hsymbol : (lit [':'] ++ word).Spells ({[':']} * words) :=
    (spells_lit [':']).append spells_word
  have hparts : controllerOption.SpellsFromEdge ({"controller".toList} * gaps * {[':']} * gaps *
      (quotes * words * quotes + {[':']} * words)) :=
    ((((spells_lit "controller".toList).edge_append.append spells_blanks).append
      (spells_lit [':'])).append spells_blanks).append (hquoted.alt hsymbol)
  simpa only [values, mul_assoc] using hparts

theorem occursIn_controllerOption_iff :
    controllerOption.occursIn line = true ↔ GivesOption "controller".toList line := by
  rw [occursIn_keyed_iff spells_controllerOption (by decide)]
  constructor
  · rintro ⟨front, _, rest, rfl, hf, gap, hg, _, ⟨_, rfl, _, ⟨gap', hg', s, hs, rfl⟩, rfl⟩, rfl⟩
    have hv := opensValue_iff.mpr ⟨s, hs, rest, rfl⟩
    exact ⟨front, gap, gap', s ++ rest, by simp, hf, hg, hg', hv⟩
  · rintro ⟨front, gap, gap', value, rfl, hf, hg, hg', hv⟩
    obtain ⟨s, hs, rest, rfl⟩ := opensValue_iff.mp hv
    refine ⟨front, gap ++ ([':'] ++ (gap' ++ s)), rest, by simp, hf, gap, hg, _, ?_, rfl⟩
    exact ⟨[':'], rfl, gap' ++ s, ⟨gap', hg', s, hs, rfl⟩, rfl⟩

theorem occursIn_ending_or_keyword_iff {key : String}
    (he : ending.toList.all isWord = true) (hk : key.toList.head?.any isWord = true) :
    (wordEnding ending).occursIn line = true ∨ (keyword key).occursIn line = true ↔
      ShowsEnding ending.toList line ∨ Introduces key.toList line := by
  rw [occursIn_wordEnding_iff (List.all_eq_true.mp he), occursIn_keyword_iff hk]

/-- A line shows a service, a helper or a mailer just if one of its words ends in the name of the
category and is longer, or the keyword of the category introduces a name. It shows a controller
just if one of its words has the ending or the option for a controller is given. A constant with a
namespace is shown by its last name alone. -/
theorem matchesLine_exactly (line : Text) :
    (service.matchesLine line = true ↔
      ShowsEnding "Service".toList line ∨ Introduces "service".toList line) ∧
    (helper.matchesLine line = true ↔
      ShowsEnding "Helper".toList line ∨ Introduces "helper".toList line) ∧
    (mailer.matchesLine line = true ↔
      ShowsEnding "Mailer".toList line ∨ Introduces "mailer".toList line) ∧
    (controller.matchesLine line = true ↔
      ShowsEnding "Controller".toList line ∨ GivesOption "controller".toList line) ∧
    ∀ ending ∈ ["Helper", "Mailer"],
      (qualifiedEnding ending).occursIn line = true → (wordEnding ending).occursIn line = true := by
  have hqualified (ending : String) (h : ending ∈ ["Helper", "Mailer"])
      (hq : (qualifiedEnding ending).occursIn line = true) :
      (wordEnding ending).occursIn line = true := by
    have hall : ["Helper", "Mailer"].all (·.toList.all isWord) = true := by decide
    have he := List.all_eq_true.mp (List.all_eq_true.mp hall ending h)
    exact (occursIn_wordEnding_iff he).mpr (showsEnding_of_qualifiedEnding he hq)
  have hhelper := or_iff_left_of_imp (hqualified "Helper" (by simp))
  have hmailer := or_iff_left_of_imp (hqualified "Mailer" (by simp))
  refine ⟨?_, ?_, ?_, ?_, hqualified⟩
  · rw [← occursIn_ending_or_keyword_iff (by decide) (by decide)]
    simp [matchesLine_iff, patterns]
  · rw [← occursIn_ending_or_keyword_iff (by decide) (by decide), or_comm, ← hhelper]
    simp [matchesLine_iff, patterns]
  · rw [← occursIn_ending_or_keyword_iff (by decide) (by decide), or_comm, ← hmailer]
    simp [matchesLine_iff, patterns]
  · have he : "Controller".toList.all isWord = true := by decide
    rw [← occursIn_wordEnding_iff (List.all_eq_true.mp he), ← occursIn_controllerOption_iff]
    simp [matchesLine_iff, patterns]

end RailsLookup.Category
