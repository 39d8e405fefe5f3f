import RailsLookup.Lookup.Context
import RailsLookup.Namespace
import RailsLookup.Text.Search

/-! # Models, controllers and services

Each of these has one home, such as `app/models/post.rb`. A qualified name is first
looked for in the directory of its namespace.
-/

namespace RailsLookup.FixedPath

open Pattern Inflection

/-- The files that may define a name below `app/<directory>`, the most specific first. -/
def candidates (root : Path) (directory : String) (scope : List Text) (file : Text) : List Path :=
  let base := root.joinAll ["app", directory]
  let inner := Namespace.directory (Namespace.join scope)
  let flat := base.join (.ofText file)
  if inner.isEmpty then [flat] else [(base.join (.ofText inner)).join (.ofText file), flat]

def classLine (name : Text) : Pattern :=
  edge ++ lit "class".toList ++ gap ++ star (word ++ lit Namespace.mark) ++ lit name ++ edge

/-- The class in a file, or the beginning of the file; `none` if it cannot be read. -/
def locateClass? (d : Disk) (name : Text) (path : Path) : Option Location :=
  (d.readText? path).map fun content =>
    ⟨path, ((classLine name).findInLines? content).getD .start⟩

def modelNames (w : Text) : List Text :=
  let singular := singularize w
  [Text.lower singular, snakeCase singular].eraseDups

def model (c : Context) (w : Text) (scope : List Text) : Except LookupError Location := do
  let root ← c.workspace
  Context.foundOr w <| (modelNames w).findSome? fun name =>
    (candidates root "models" scope (name ++ ".rb".toList)).findSome?
      (locateClass? c.disk (classify name))

/-- Looks for a name by the stem of its file, which does not have the ending of the name. -/
def byStem (c : Context) (ending : String) (locate? : Path → Text → Option Location) (w : Text) :
    Except LookupError Location := do
  let stem := snakeCase (Text.stripSuffix w ending.toList)
  if stem.isEmpty then throw (.notFound w)
  let root ← c.workspace
  Context.foundOr w (locate? root stem)

def controller (c : Context) (w : Text) (scope : List Text) : Except LookupError Location :=
  byStem c "Controller" (fun root stem =>
    (candidates root "controllers" scope (stem ++ "_controller.rb".toList)).findSome?
      (locateClass? c.disk (classify stem ++ "Controller".toList))) w

def service (c : Context) (w : Text) (scope : List Text) : Except LookupError Location :=
  byStem c "Service" (fun root stem =>
    ((candidates root "services" scope (stem ++ "_service.rb".toList)).find? c.disk.isFile).map
      (⟨·, .start⟩)) w

end RailsLookup.FixedPath
