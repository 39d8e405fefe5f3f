import Mathlib
import RailsLookup.Lookup.FixedPath
import RailsLookup.Proofs.Disk.Below
import RailsLookup.Proofs.Lookup.Failure
import RailsLookup.Proofs.Reference.Qualifiers

/-! # Where models live

A model has two spellings, and each of them two homes: the directory of its namespace and the one
above it. The spellings are gone through one after the other, so the flat home of the first comes
before the namespace of the second. A model of the namespace is found unless it is shadowed in
this way.
-/

namespace RailsLookup

theorem Inflection.snakeCase_ne_nil {t : Text} (h : t ≠ []) : snakeCase t ≠ [] := by
  obtain ⟨c, t, rfl⟩ := List.exists_cons_of_ne_nil h
  rw [snakeCase, snakeAfter]
  split <;> simp

namespace FixedPath

open Inflection

variable {c : Context} {d : Disk} {w name file : Text} {scope names : List Text} {root path : Path}
  {directory : String} {l : Location}

def flatHome (root : Path) (directory : String) (file : Text) : Path :=
  (root.joinAll ["app", directory]).join (.ofText file)

def namespaceHome (root : Path) (directory : String) (scope : List Text) (file : Text) : Path :=
  ((root.joinAll ["app", directory]).join
    (.ofText (['/'].intercalate (scope.map snakeCase)))).join (.ofText file)

theorem candidates_eq (hne : scope ≠ []) (hs : ∀ n ∈ scope, n ≠ [] ∧ ':' ∉ n) :
    candidates root directory scope file =
      [namespaceHome root directory scope file, flatHome root directory file] := by
  have hdir : Namespace.directory (Namespace.join scope) =
      ['/'].intercalate (scope.map snakeCase) := by
    rw [Namespace.directory, Namespace.segments_join hs]
  have hinner : ['/'].intercalate (scope.map snakeCase) ≠ [] := by
    obtain ⟨n, scope, rfl⟩ := List.exists_cons_of_ne_nil hne
    have hn := snakeCase_ne_nil (hs n List.mem_cons_self).1
    cases scope with
    | nil => simpa using hn
    | cons m scope => simp
  rw [candidates, hdir]
  simp [hinner, namespaceHome, flatHome]

theorem findSome?_locateClass? (d : Disk) (name : Text) (paths : List Path) :
    (paths.findSome? (locateClass? d name)).map Location.path = paths.find? d.isFile := by
  induction paths with
  | nil => rfl
  | cons p paths ih =>
    rw [List.findSome?_cons, List.find?_cons]
    cases hr : d.read? p with
    | none => simpa [locateClass?, Disk.readText?, Disk.isFile, hr] using ih
    | some content => simp [locateClass?, Disk.readText?, Disk.isFile, hr]

theorem find?_flatMap_candidates (names : List Text) (paths : Text → List Path) :
    (names.findSome? fun name => (paths name).findSome? (locateClass? d (classify name))).map
        Location.path = (names.flatMap paths).find? d.isFile := by
  induction names with
  | nil => rfl
  | cons name names ih =>
    rw [List.findSome?_cons, List.flatMap_cons, List.find?_append,
      ← findSome?_locateClass? d (classify name), ← ih]
    cases (paths name).findSome? (locateClass? d (classify name)) <;> simp

theorem toOption_model (hw : c.workspace? = some root) :
    (model c w scope).toOption = (modelNames w).findSome? fun name =>
      (candidates root "models" scope (name ++ ".rb".toList)).findSome?
        (locateClass? c.disk (classify name)) := by
  rw [model, Context.workspace, hw]
  change (Context.foundOr w _).toOption = _
  generalize ((modelNames w).findSome? _ : Option Location) = found
  cases found <;> rfl

def lowerFile (w : Text) : Text := Text.lower (singularize w) ++ ".rb".toList

def snakeFile (w : Text) : Text := snakeCase (singularize w) ++ ".rb".toList

/-- The file of a model is the first of its four homes that is a file. -/
theorem path_model (hw : c.workspace? = some root) (hne : scope ≠ [])
    (hs : ∀ n ∈ scope, n ≠ [] ∧ ':' ∉ n) :
    (model c w scope).toOption.map Location.path =
      [namespaceHome root "models" scope (lowerFile w), flatHome root "models" (lowerFile w),
        namespaceHome root "models" scope (snakeFile w),
        flatHome root "models" (snakeFile w)].find? c.disk.isFile := by
  rw [toOption_model hw, find?_flatMap_candidates, modelNames]
  simp only [candidates_eq hne hs]
  by_cases hsame : Text.lower (singularize w) = snakeCase (singularize w)
  · -- the second spelling is left out, and to try it again would change nothing
    have hdups : [Text.lower (singularize w), snakeCase (singularize w)].eraseDups =
        [snakeCase (singularize w)] := by
      simp [List.eraseDups_cons, hsame]
    have hfile : lowerFile w = snakeFile w := by rw [lowerFile, snakeFile, hsame]
    let homes := [namespaceHome root "models" scope (snakeFile w),
      flatHome root "models" (snakeFile w)]
    rw [hdups, hfile]
    change homes.find? _ = (homes ++ homes).find? _
    rw [List.find?_append, Option.or_self]
  · have hdups : [Text.lower (singularize w), snakeCase (singularize w)].eraseDups =
        [Text.lower (singularize w), snakeCase (singularize w)] := by
      simp [List.eraseDups_cons, Ne.symm hsame]
    rw [hdups]
    rfl

theorem exists_ok_of_path {found : Except LookupError Location}
    (h : found.toOption.map Location.path = some path) : ∃ l, found = .ok l ∧ l.path = path := by
  cases found with
  | error e => cases h
  | ok l => exact ⟨l, rfl, Option.some.inj h⟩

/-- If a model has a file in the directory of its namespace under one of its spellings, then that
is where it is found, unless the first spelling has only a flat file: this one is taken then. -/
theorem model_namespaced_unless_shadowed (c : Context) (w : Text) (scope : List Text) (root : Path)
    (hw : c.workspace? = some root) (hne : scope ≠ []) (hs : ∀ n ∈ scope, n ≠ [] ∧ ':' ∉ n)
    (h : c.disk.isFile (namespaceHome root "models" scope (lowerFile w)) = true ∨
      c.disk.isFile (namespaceHome root "models" scope (snakeFile w)) = true) :
    ∃ l, model c w scope = .ok l ∧
      ((c.disk.isFile (flatHome root "models" (lowerFile w)) = true →
          c.disk.isFile (namespaceHome root "models" scope (lowerFile w)) = true) →
        l.path = namespaceHome root "models" scope (lowerFile w) ∨
        l.path = namespaceHome root "models" scope (snakeFile w)) ∧
      (c.disk.isFile (flatHome root "models" (lowerFile w)) = true →
        c.disk.isFile (namespaceHome root "models" scope (lowerFile w)) = false →
        l.path = flatHome root "models" (lowerFile w)) := by
  have hpath := path_model (w := w) hw hne hs
  cases hinner : c.disk.isFile (namespaceHome root "models" scope (lowerFile w)) with
  | true =>
    rw [List.find?_cons_of_pos hinner] at hpath
    obtain ⟨l, hl, hp⟩ := exists_ok_of_path hpath
    exact ⟨l, hl, fun _ => .inl hp, fun _ hfalse => absurd hfalse (by decide)⟩
  | false =>
    rw [List.find?_cons_of_neg (by simp [hinner])] at hpath
    cases hflat : c.disk.isFile (flatHome root "models" (lowerFile w)) with
    | true =>
      rw [List.find?_cons_of_pos hflat] at hpath
      obtain ⟨l, hl, hp⟩ := exists_ok_of_path hpath
      exact ⟨l, hl, fun himp => absurd (himp rfl) (by decide), fun _ _ => hp⟩
    | false =>
      rw [List.find?_cons_of_neg (by simp [hflat]),
        List.find?_cons_of_pos (h.resolve_left (by simp [hinner]))] at hpath
      obtain ⟨l, hl, hp⟩ := exists_ok_of_path hpath
      exact ⟨l, hl, fun _ => .inr hp, fun hfalse => absurd hfalse (by decide)⟩

def magazine (flat : String) : Context where
  disk := { entries := [(.ofStrings ["app"], .directory),
    (.ofStrings ["app", "models"], .directory),
    (.ofStrings ["app", "models", flat], .file (Text.utf8 "class Blogpost\nend\n".toList)),
    (.ofStrings ["app", "models", "admin"], .directory),
    (.ofStrings ["app", "models", "admin", "blog_post.rb"],
      .file (Text.utf8 "class Admin::BlogPost\nend\n".toList))] }
  workspace? := some (.ofString "/")

theorem model_namespaced_unless_shadowed_magazine :
    (magazine "blog_post.rb").disk.isFile
      (namespaceHome (.ofString "/") "models" ["Admin".toList] (snakeFile "BlogPost".toList)) =
        true ∧
    (magazine "blog_post.rb").disk.isFile
      (flatHome (.ofString "/") "models" (lowerFile "BlogPost".toList)) = false ∧
    ∃ l, model (magazine "blog_post.rb") "BlogPost".toList ["Admin".toList] = .ok l ∧
      (l.path = namespaceHome (.ofString "/") "models" ["Admin".toList]
          (lowerFile "BlogPost".toList) ∨
        l.path = namespaceHome (.ofString "/") "models" ["Admin".toList]
          (snakeFile "BlogPost".toList)) := by
  have hinner : (magazine "blog_post.rb").disk.isFile
      (namespaceHome (.ofString "/") "models" ["Admin".toList] (snakeFile "BlogPost".toList)) =
        true := by cbv
  have hflat : (magazine "blog_post.rb").disk.isFile
      (flatHome (.ofString "/") "models" (lowerFile "BlogPost".toList)) = false := by cbv
  obtain ⟨l, hl, hpath, -⟩ := model_namespaced_unless_shadowed (magazine "blog_post.rb")
    "BlogPost".toList ["Admin".toList] (.ofString "/") rfl (by decide) (by decide) (.inr hinner)
  exact ⟨hinner, hflat, l, hl, hpath fun htrue => absurd (hflat.symm.trans htrue) (by decide)⟩

/-- The flat file of the first spelling is found although the second one has a file in the
directory of the namespace. -/
theorem model_shadowed_magazine :
    (magazine "blogpost.rb").disk.isFile
      (namespaceHome (.ofString "/") "models" ["Admin".toList] (snakeFile "BlogPost".toList)) =
        true ∧
    model (magazine "blogpost.rb") "BlogPost".toList ["Admin".toList] =
      .ok ⟨flatHome (.ofString "/") "models" (lowerFile "BlogPost".toList), ⟨0, 0⟩⟩ := by
  exact ⟨by cbv, by cbv⟩

end FixedPath

end RailsLookup
