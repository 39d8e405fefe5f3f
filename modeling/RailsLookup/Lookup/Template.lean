import RailsLookup.Lookup.Context
import RailsLookup.Lookup.Controller

/-! # Templates

The template of a `render` call is looked for among the views of the controller at hand,
then in all views. A partial's file name begins with an underscore.
-/

namespace RailsLookup.Template

open Pattern

def renderCall : Pattern := lit "render".toList ++ blanks ++ optional (lit ['('] ++ blanks)

/-- The name in quotation marks after `render`, up to the nearest mark. -/
def quotedName? (line : Text) : Option Text :=
  let inLine (c : Char) : Bool := c != '\n'
  let option := lit "partial".toList ++ blanks ++ lit [':'] ++ blanks
  capture? (renderCall ++ optional option ++ quote) (one inLine ++ fewest inLine) quote line

def symbolName? (line : Text) : Option Text :=
  capture? (renderCall ++ lit [':']) word (lit []) line

def underscored (name : Text) : Text := if name.head? == some '_' then name else '_' :: name

/-- The template that a line names; the word under the cursor if it names none. -/
def name (w line : Text) : Text :=
  let written := (quotedName? line <|> symbolName? line).getD w
  if Text.occurs "partial".toList line then
    match Text.cutLast ['/'] written with
    | some (directory, file) => directory ++ '/' :: underscored file
    | none => underscored written
  else written

def fileName (name : Text) (extensions : List Text) : Pattern :=
  let last := if extensions.isEmpty then lit [] else anyOf (extensions.map lit)
  lit name ++ star (lit ['.'] ++ word) ++ lit ['.'] ++ last ++ finish

def ofController? (c : Context) (views : Path) (template : Text) : Option Path := do
  let controller ← c.document?.bind Path.controllerName?
  let path := (views.join (.ofText controller)).join (.ofText (template ++ ".html.erb".toList))
  guard (c.disk.isFile path)
  return path

/-- The first template below the views that has the name and, if one is given, the directory. -/
def anywhere? (c : Context) (views : Path) (template : Text) : Option Path :=
  let (directory, file) := (Text.cutLast ['/'] template).getD ([], template)
  let accepts := (fileName file c.settings.viewExtensions).opens
  (c.disk.files c.settings.search accepts views).find? fun path =>
    directory.isEmpty || path.parentEndsWith (.ofText directory)

def find (c : Context) (w line : Text) : Except LookupError Location := do
  let root ← c.workspace
  let views := root.joinAll ["app", "views"]
  let template := name w line
  Context.foundOr template <|
    (ofController? c views template <|> anywhere? c views template).map (⟨·, .start⟩)

end RailsLookup.Template
