import Mathlib
import RailsLookup.Proofs.Lookup.Failure
import RailsLookup.Proofs.Text.Reading

/-! # Methods of the document

A method is defined where `def`, white space and its name stand, possibly as a method of `self`,
and no word goes on before the one or after the other. A callback or a call is resolved to the
first place of the document where its word is defined in this sense. The word under the cursor is
an identifier, and not all characters of identifiers are in words or the other way round. So a
definition that identifiers alone would set apart can be missed.
-/

namespace RailsLookup

open Pattern

namespace Method

variable {name content l : Text} {n : Nat} {pos : Position}

/-- At the column of a line a definition of the method begins: `def` with no word character before
it, white space, possibly `self.`, and the name, which ends at the edge of a word. -/
def DefinedAt (name l : Text) (column : Nat) : Prop :=
  ∃ front gap receiver rest : Text,
    l = front ++ ("def".toList ++ gap ++ receiver ++ name ++ rest) ∧ front.length = column ∧
    front.getLast?.any isWord = false ∧ gap ≠ [] ∧ (∀ c ∈ gap, isBlank c = true) ∧
    (receiver = [] ∨ receiver = "self.".toList) ∧
    name.getLast?.any isWord ≠ rest.head?.any isWord

def FirstDefined (name content : Text) (pos : Position) : Prop :=
  ∃ l, content.lines[pos.line]? = some l ∧ IsLeast {n | DefinedAt name l n} pos.column ∧
    ∀ l' ∈ content.lines.take pos.line, ∀ n, ¬DefinedAt name l' n

def introductions : Language Char :=
  {s | ∃ gap receiver : Text, gap ≠ [] ∧ (∀ c ∈ gap, isBlank c = true) ∧
    (receiver = [] ∨ receiver = "self.".toList) ∧ s = "def".toList ++ gap ++ receiver}

theorem spells_definitionOf (name : Text) :
    (edge ++ lit "def".toList ++ gap ++ optional (lit "self.".toList) ++
      lit name).SpellsFromEdge (introductions * {name}) := by
  have h := (((spells_lit "def".toList).edge_append.append (spells_some isBlank)).append
    (spells_lit "self.".toList).optional).append (spells_lit name)
  refine h.congr fun s => ?_
  constructor
  · rintro ⟨_, ⟨_, ⟨_, rfl, gap, ⟨hne, hg⟩, rfl⟩, receiver, hr, rfl⟩, _, rfl, rfl⟩
    exact ⟨_, ⟨gap, receiver, hne, hg, hr.symm, rfl⟩, _, rfl, rfl⟩
  · rintro ⟨_, ⟨gap, receiver, hne, hg, hr, rfl⟩, _, rfl, rfl⟩
    exact ⟨_, ⟨_, ⟨_, rfl, gap, ⟨hne, hg⟩, rfl⟩, receiver, hr.symm, rfl⟩, _, rfl, rfl⟩

theorem head?_of_mem_introductions {s : Text} (h : s ∈ introductions * {name}) :
    s.head?.any isWord = true := by
  obtain ⟨_, ⟨gap, receiver, -, -, -, rfl⟩, _, -, rfl⟩ := h
  rfl

theorem columns_definitionOf (hne : name ≠ []) (l : Text) :
    (definitionOf name).columns l = {n | DefinedAt name l n} := by
  have hstarts := (spells_definitionOf name).startsAt_append_edge_iff_of_head
    fun s => head?_of_mem_introductions
  ext n
  constructor
  · rintro ⟨front, t, rfl, rfl, h⟩
    obtain ⟨hfree, _, ⟨_, ⟨gap, receiver, hgne, hg, hr, rfl⟩, _, rfl, rfl⟩, rest, rfl, hend⟩ :=
      (hstarts front t).mp h
    rw [List.getLast?_append_of_ne_nil _ hne] at hend
    exact ⟨front, gap, receiver, rest, rfl, rfl, hfree, hgne, hg, hr, hend⟩
  · rintro ⟨front, gap, receiver, rest, rfl, rfl, hfree, hgne, hg, hr, hend⟩
    refine ⟨front, _, rfl, rfl, (hstarts _ _).mpr ⟨hfree, _, ?_, rest, rfl, ?_⟩⟩
    · exact ⟨_, ⟨gap, receiver, hgne, hg, hr, rfl⟩, name, rfl, rfl⟩
    · rw [List.getLast?_append_of_ne_nil _ hne]
      exact hend

theorem find?_definitionOf_eq_some_iff (hne : name ≠ []) :
    (definitionOf name).find? l = some n ↔ IsLeast {n | DefinedAt name l n} n := by
  rw [find?_eq_some_iff_isLeast, columns_definitionOf hne]

theorem find?_definitionOf_eq_none_iff (hne : name ≠ []) :
    (definitionOf name).find? l = none ↔ ∀ n, ¬DefinedAt name l n := by
  rw [find?_eq_none_iff, columns_definitionOf hne]
  rfl

theorem findInLines?_definitionOf_eq_some_iff (hne : name ≠ []) :
    (definitionOf name).findInLines? content = some pos ↔ FirstDefined name content pos := by
  simp only [findInLines?_eq_some_iff, find?_definitionOf_eq_some_iff hne,
    find?_definitionOf_eq_none_iff hne, FirstDefined]

theorem exists_firstDefined (hne : name ≠ []) (hm : l ∈ content.lines)
    (h : DefinedAt name l n) : ∃ pos, FirstDefined name content pos := by
  have hfind : ((definitionOf name).find? l).isSome = true := by
    apply isSome_find?
    rw [columns_definitionOf hne]
    exact h
  obtain ⟨pos, hpos⟩ := Option.isSome_iff_exists.mp (isSome_findInLines? hm hfind)
  exact ⟨pos, (findInLines?_definitionOf_eq_some_iff hne).mp hpos⟩

theorem find_of_firstDefined {c : Context} {document : Path} (hd : c.document? = some document)
    (hne : name ≠ []) (h : FirstDefined name content pos) :
    find c name content = .ok ⟨document, pos⟩ := by
  rw [find, Context.foundOr_eq_ok_iff]
  simp [find?, hd, (findInLines?_definitionOf_eq_some_iff hne).mpr h]

/-- On a line of the text stand `def`, a blank and the word, and none of the characters stands
directly before or after them. -/
def Defines (isPart : Char → Bool) (word content : Text) : Prop :=
  ∃ l ∈ content.lines, ∃ front rest : Text, l = front ++ ("def ".toList ++ word ++ rest) ∧
    front.getLast?.any isPart = false ∧ rest.head?.any isPart = false

theorem Defines.exists_firstDefined {word : Text} (h : Defines isWord word content)
    (hw : word.getLast?.any isWord = true) : ∃ pos, FirstDefined word content pos := by
  obtain ⟨l, hm, front, rest, rfl, hbefore, hafter⟩ := h
  have hne : word ≠ [] := by
    rintro rfl
    cases hw
  have hblank : ∀ c ∈ [' '], isBlank c = true := List.all_eq_true.mp (by decide)
  apply Method.exists_firstDefined hne hm
  refine ⟨front, [' '], [], rest, ?_, rfl, hbefore, by simp, hblank, .inl rfl, ?_⟩
  · simp
  · rw [hw, hafter]
    simp

end Method

namespace Context

open Method

/-- A callback or a call whose word ends with a word character is resolved to a place in the
document if `def` and the word stand on one of its lines with no word character directly before
or after them: to the first place where the method is defined. -/
theorem resolve?_method_of_defines (c : Context) (content : Text) (position : Position)
    (r : Reference) (document : Path) (hd : c.document? = some document)
    (hr : Reference.at? content position = some r)
    (hc : Category.classify r.line = .callback ∨ Category.classify r.line = .method)
    (hw : r.word.getLast?.any isWord = true) (h : Defines isWord r.word content) :
    ∃ pos, c.resolve? content position = some ⟨document, pos⟩ ∧
      FirstDefined r.word content pos := by
  have hne : r.word ≠ [] := by
    intro hnil
    rw [hnil] at hw
    cases hw
  obtain ⟨pos, hpos⟩ := h.exists_firstDefined hw
  have hown (l : Location) : (Category.classify r.line).lookup? c r ≠ some (.ok l) := by
    rw [Category.lookup?_eq_none_iff.mpr hc]
    exact Option.some_ne_none _ ∘ Eq.symm
  refine ⟨pos, ?_, hpos⟩
  rw [resolve?, hr]
  simp [resolveReference_of_not_lookup? hown, find_of_firstDefined hd hne hpos, Except.toOption]

def post : Context where
  disk := {}
  document? := some (.ofString "/app/models/post.rb")

def tidyPost : Text :=
  "  after_save :tidy\n  def self.tidyup\n  end\n  private def tidy(force)\n  end\n".toList

theorem resolve?_method_of_defines_post :
    ∃ r, Reference.at? tidyPost ⟨0, 14⟩ = some r ∧ r.word = "tidy".toList ∧
      Category.classify r.line = .callback ∧ Defines isWord r.word tidyPost ∧
      ∃ pos, post.resolve? tidyPost ⟨0, 14⟩ = some ⟨.ofString "/app/models/post.rb", pos⟩ ∧
        FirstDefined r.word tidyPost pos := by
  let r : Reference := ⟨"tidy".toList, "  after_save :tidy".toList, 14, []⟩
  have hr : Reference.at? tidyPost ⟨0, 14⟩ = some r := by decide +kernel
  have hc : Category.classify r.line = .callback := by decide +kernel
  have hdef : Defines isWord r.word tidyPost :=
    ⟨"  private def tidy(force)".toList, by decide +kernel, "  private ".toList,
      "(force)".toList, by decide, by decide, by decide⟩
  exact ⟨r, hr, rfl, hc, hdef,
    resolve?_method_of_defines post tidyPost _ r _ rfl hr (.inl hc) (by decide) hdef⟩

/-- A call at the position is resolved to nothing, though the text defines its word as an
identifier. -/
def MissedAt (content : Text) (position : Position) : Prop :=
  ∃ r, Reference.at? content position = some r ∧ Category.classify r.line = .method ∧
    Defines isIdentifier r.word content ∧ post.resolve? content position = none

/-- Definitions are missed if their word ends with a character that is in no word, and if a
combining mark or a connector is next to them, which are in words but not in identifiers. -/
theorem resolve?_misses_definitions :
    MissedAt "call x²\ndef x²\n".toList ⟨0, 5⟩ ∧
    MissedAt "call foo\ndef foo\u0301\n".toList ⟨0, 5⟩ ∧
    MissedAt "call foo\n‿def foo\n".toList ⟨0, 5⟩ := by
  have hsquare : MissedAt "call x²\ndef x²\n".toList ⟨0, 5⟩ :=
    ⟨⟨"x²".toList, "call x²".toList, 5, []⟩, by decide +kernel, by decide +kernel,
      ⟨"def x²".toList, by decide +kernel, [], [], by decide, by decide, by decide⟩,
      by decide +kernel⟩
  have hmark : MissedAt "call foo\ndef foo\u0301\n".toList ⟨0, 5⟩ :=
    ⟨⟨"foo".toList, "call foo".toList, 5, []⟩, by decide +kernel, by decide +kernel,
      ⟨"def foo\u0301".toList, by decide +kernel, [], "\u0301".toList, by decide, by decide,
        by decide +kernel⟩, by decide +kernel⟩
  have hconnector : MissedAt "call foo\n‿def foo\n".toList ⟨0, 5⟩ :=
    ⟨⟨"foo".toList, "call foo".toList, 5, []⟩, by decide +kernel, by decide +kernel,
      ⟨"‿def foo".toList, by decide +kernel, "‿".toList, [], by decide, by decide +kernel,
        by decide⟩, by decide +kernel⟩
  exact ⟨hsquare, hmark, hconnector⟩

end Context

end RailsLookup
