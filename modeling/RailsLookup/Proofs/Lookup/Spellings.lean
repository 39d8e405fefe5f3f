import Mathlib
import RailsLookup.Proofs.Inflection.RoundTrip
import RailsLookup.Proofs.Lookup.Homes

/-! # Two spellings of one name

A controller, service, helper or mailer is named by its constant, such as `BlogPostHelper`, or by
the stem of its file, such as `blog_post`. Each lookup brings the two to one form before it
searches, so it finds the same by both.
-/

namespace RailsLookup

namespace Inflection

theorem snakeCase_stripSuffix_snakeCase {ending : Text} (he : ending.any Char.isUpper = true)
    (n : Text) :
    snakeCase ((snakeCase n).stripSuffix ending) =
      snakeCase ((n ++ ending).stripSuffix ending) := by
  have hnot : ¬ending <:+ snakeCase n := by
    intro hs
    obtain ⟨c, hc, hup⟩ := List.any_eq_true.mp he
    rw [isUpper_of_mem_snakeCase (hs.subset hc)] at hup
    cases hup
  rw [Text.stripSuffix_eq_self hnot, Text.stripSuffix_append, snakeCase_snakeCase]

theorem IsConstant.colon_not_mem {n : Text} (h : IsConstant n) : ':' ∉ n := by
  intro hm
  exact absurd (h.isAlphanum _ hm) (by decide)

end Inflection

open Inflection

variable {c : Context} {root : Path} {n : Text}

/-- Two lookups have found the same, or neither has found anything. -/
def Alike (found found' : Except LookupError Location) : Prop :=
  (∃ l, found = .ok l ∧ found' = .ok l) ∨
    ∃ name name', found = .error (.notFound name) ∧ found' = .error (.notFound name')

theorem Context.alike_foundOr (name name' : Text) (found : Option Location) :
    Alike (foundOr name found) (foundOr name' found) := by
  cases found with
  | none => exact .inr ⟨name, name', rfl, rfl⟩
  | some l => exact .inl ⟨l, rfl, rfl⟩

theorem FixedPath.byStem_alike (hw : c.workspace? = some root) {ending : String}
    (he : ending.toList.any Char.isUpper = true) (locate? : Path → Text → Option Location)
    (n : Text) :
    Alike (byStem c ending locate? (n ++ ending.toList))
      (byStem c ending locate? (snakeCase n)) := by
  rw [byStem, byStem, snakeCase_stripSuffix_snakeCase he, Context.workspace, hw]
  split
  · exact .inr ⟨_, _, rfl, rfl⟩
  · apply Context.alike_foundOr

namespace ConstantKind

/-- A small initial marks the stem of a file, and the constant is made of it again. -/
theorem constantName_snakeCase (kind : ConstantKind) (h : IsConstant n) :
    kind.constantName (snakeCase n) = kind.constantName (n ++ kind.ending.toList) := by
  have hlarge : (n ++ kind.ending.toList).head?.any Char.isLower = false := by
    obtain ⟨d, t, rfl, hd⟩ := h.exists_cons
    simpa using Char.not_isLower_of_isUpper hd
  rw [constantName, if_pos h.head_snakeCase, h.classify_snakeCase, constantName, hlarge]
  rfl

theorem find_alike (kind : ConstantKind) (hw : c.workspace? = some root) {q q' : Text}
    (hscope : (Namespace.split q).1 = (Namespace.split q').1)
    (hleaf : kind.constantName (Namespace.split q).2 = kind.constantName (Namespace.split q').2) :
    Alike (kind.find c q) (kind.find c q') := by
  rw [find, find, Context.workspace, hw]
  simp only [hscope, hleaf]
  apply Context.alike_foundOr

theorem find_qualifiedName_alike (kind : ConstantKind) (hw : c.workspace? = some root)
    (h : IsConstant n) (r : Reference) :
    Alike (kind.find c { r with word := n ++ kind.ending.toList }.qualifiedName)
      (kind.find c { r with word := snakeCase n }.qualifiedName) := by
  have hstem : ':' ∉ snakeCase n := not_mem_snakeCase h.colon_not_mem (by decide) (by decide)
  have hconstant : ':' ∉ n ++ kind.ending.toList := by
    have hending : ':' ∉ kind.ending.toList := by cases kind <;> decide
    simp [h.colon_not_mem, hending]
  apply kind.find_alike hw
  · rw [Reference.split_qualifiedName_of_not_mem hconstant,
      Reference.split_qualifiedName_of_not_mem hstem]
  · rw [Reference.split_qualifiedName_of_not_mem hconstant,
      Reference.split_qualifiedName_of_not_mem hstem]
    exact (kind.constantName_snakeCase h).symm

end ConstantKind

namespace Category

def ending? : Category → Option String
  | service => some "Service"
  | controller => some "Controller"
  | helper => some ConstantKind.helper.ending
  | mailer => some ConstantKind.mailer.ending
  | view | callback | model | method => none

/-- By the constant of a controller, service, helper or mailer and by the stem of its file the same
place is found, or nothing by either. -/
theorem lookup?_by_constant_and_stem (c : Context) (root : Path) (category : Category)
    (ending : String) (r : Reference) (n : Text) (hw : c.workspace? = some root)
    (he : category.ending? = some ending) (hn : IsConstant n) :
    ∃ found found',
      category.lookup? c { r with word := n ++ ending.toList } = some found ∧
      category.lookup? c { r with word := snakeCase n } = some found' ∧ Alike found found' := by
  cases category <;> simp only [ending?, Option.some.injEq, reduceCtorEq] at he <;> subst he
  case service | controller => exact ⟨_, _, rfl, rfl, FixedPath.byStem_alike hw (by decide) _ n⟩
  case helper => exact ⟨_, _, rfl, rfl, ConstantKind.helper.find_qualifiedName_alike hw hn r⟩
  case mailer => exact ⟨_, _, rfl, rfl, ConstantKind.mailer.find_qualifiedName_alike hw hn r⟩

def atlas : Context where
  disk := { entries := [(.ofStrings ["app"], .directory),
    (.ofStrings ["app", "helpers"], .directory),
    (.ofStrings ["app", "helpers", "area51_map_helper.rb"],
      .file (Text.utf8 "module Admin\n  module Area51MapHelper\n  end\nend\n".toList))] }
  workspace? := some (.ofString "/")

def toAtlas : Reference := ⟨"area51_map".toList, "helper :area51_map".toList, 8, ["Admin".toList]⟩

theorem lookup?_by_constant_and_stem_atlas :
    atlas.workspace? = some (.ofString "/") ∧ helper.ending? = some "Helper" ∧
    IsConstant "Area51Map".toList ∧ snakeCase "Area51Map".toList = toAtlas.word ∧
    helper.lookup? atlas toAtlas =
      some (.ok ⟨.ofString "/app/helpers/area51_map_helper.rb", ⟨1, 2⟩⟩) ∧
    ∃ found found',
      helper.lookup? atlas { toAtlas with word := "Area51Map".toList ++ "Helper".toList } =
        some found ∧
      helper.lookup? atlas { toAtlas with word := snakeCase "Area51Map".toList } =
        some found' ∧ Alike found found' := by
  have hw : atlas.workspace? = some (.ofString "/") := rfl
  have hn : IsConstant "Area51Map".toList :=
    ⟨by decide, List.all_eq_true.mp (by decide), by decide⟩
  have hfound : helper.lookup? atlas toAtlas =
      some (.ok ⟨.ofString "/app/helpers/area51_map_helper.rb", ⟨1, 2⟩⟩) := by cbv
  exact ⟨hw, rfl, hn, by decide +kernel, hfound,
    lookup?_by_constant_and_stem atlas _ helper _ toAtlas _ hw rfl hn⟩

end Category

end RailsLookup
