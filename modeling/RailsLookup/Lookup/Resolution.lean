import RailsLookup.Category
import RailsLookup.Reference
import RailsLookup.Lookup.Constant
import RailsLookup.Lookup.FixedPath
import RailsLookup.Lookup.Method
import RailsLookup.Lookup.Template

/-! # Resolution

A reference is looked up as its line's category says. If that fails, a method of the same
name is looked for.
-/

namespace RailsLookup

namespace Category

/-- The category's own lookup; callbacks and methods have none. -/
def lookup? (category : Category) (c : Context) (r : Reference) :
    Option (Except LookupError Location) :=
  match category with
  | service => some (FixedPath.service c r.word r.scope)
  | controller => some (FixedPath.controller c r.word r.scope)
  | helper => some (ConstantKind.helper.find c r.qualifiedName)
  | mailer => some (ConstantKind.mailer.find c r.qualifiedName)
  | view => some (Template.find c r.word r.line)
  | model => some (FixedPath.model c r.word r.scope)
  | callback | method => none

end Category

namespace Context

def resolveReference (c : Context) (r : Reference) (category : Category) (content : Text) :
    Except LookupError Location :=
  match category.lookup? c r with
  | some (.ok location) => .ok location
  | _ => Method.find c r.word content

def resolve? (c : Context) (content : Text) (position : Position) : Option Location := do
  let r ← Reference.at? content position
  (c.resolveReference r (Category.classify r.line) content).toOption

def resolveInFile? (c : Context) (path : Path) (position : Position) : Option Location := do
  let content ← c.disk.readText? path
  { c with document? := some path }.resolve? content position

end Context

end RailsLookup
