import RailsLookup.Lookup.Context
import RailsLookup.Lookup.Controller

/-! # Methods

A method is looked for in the document itself, and from a controller also in the
controller's helper.
-/

namespace RailsLookup.Method

open Pattern

/-- `def` and the name, possibly as a method of `self`. -/
def definitionOf (name : Text) : Pattern :=
  edge ++ lit "def".toList ++ gap ++ optional (lit "self.".toList) ++ lit name ++ edge

def helper? (c : Context) (document : Path) : Option Path := do
  let controller ← document.controllerName?
  let root ← c.workspace?
  let path := (root.joinAll ["app", "helpers"]).join (.ofText (controller ++ "_helper.rb".toList))
  guard (c.disk.isFile path)
  return path

def find? (c : Context) (name content : Text) : Option Location := do
  let document ← c.document?
  match (definitionOf name).findInLines? content with
  | some position => return ⟨document, position⟩
  | none =>
    let helper ← helper? c document
    let source ← c.disk.readText? helper
    let position ← (definitionOf name).findInLines? source
    return ⟨helper, position⟩

def find (c : Context) (name content : Text) : Except LookupError Location :=
  Context.foundOr name (find? c name content)

end RailsLookup.Method
