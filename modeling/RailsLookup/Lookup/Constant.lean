import RailsLookup.Lookup.Context
import RailsLookup.Declaration
import RailsLookup.Namespace

/-! # Helpers and mailers

These are found by their declarations. Files of the kind's own directory whose names
mention the constant or its namespace come first, then the other files there, then the
fallback directories.
-/

namespace RailsLookup

inductive ConstantKind where
  | helper
  | mailer
  deriving DecidableEq, Repr

namespace ConstantKind

def ending : ConstantKind → String
  | helper => "Helper"
  | mailer => "Mailer"

def directory : ConstantKind → String
  | helper => "helpers"
  | mailer => "mailers"

/-- The constant that a name stands for: a small initial marks the stem of a file. -/
def constantName (kind : ConstantKind) (leaf : Text) : Text :=
  if leaf.head?.any Char.isLower then Inflection.classify leaf ++ kind.ending.toList else leaf

/-- Whether a file's name mentions the stem or the namespace of a constant. -/
def mentionedBy (stem token : Text) (path : Path) : Bool :=
  let name := Text.lower ((path.fileName?.map Utf8.decode).getD [])
  Text.occurs stem name || (!token.isEmpty && Text.occurs token name)

end ConstantKind

def Disk.declaration? (d : Disk) (leaf scope : Text) (path : Path) : Option Location :=
  (d.readText? path).bind fun content => (Declaration.find? content leaf scope).map (⟨path, ·⟩)

def Context.sources (c : Context) (directory : Path) : List Path :=
  c.disk.files c.settings.search (".rb".toList.isSuffixOf ·) directory

namespace ConstantKind

def searched (kind : ConstantKind) (c : Context) (root : Path) (stem token : Text) : List Path :=
  let own := c.sources (root.joinAll ["app", kind.directory])
  let (mentioning, others) := own.partition (mentionedBy stem token)
  mentioning ++ others ++
    c.settings.fallbackDirectories.flatMap fun name => c.sources (root.join (.ofText name))

def find (kind : ConstantKind) (c : Context) (qualified : Text) :
    Except LookupError Location := do
  let root ← c.workspace
  let (scope, leaf) := Namespace.split qualified
  let leaf := kind.constantName leaf
  let stem := Inflection.snakeCase (Text.stripSuffix leaf kind.ending.toList)
  let token := ['_'].intercalate (Namespace.pieces (Text.lower scope))
  Context.foundOr qualified <|
    (kind.searched c root stem token).findSome? (c.disk.declaration? leaf scope)

end ConstantKind

end RailsLookup
