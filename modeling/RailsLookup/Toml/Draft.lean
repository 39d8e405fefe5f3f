import RailsLookup.Toml.Basic

/-! # Tables under construction

A document defines its tables piece by piece. A table remembers how it came to be, which
decides how it may still grow: a header may complete a table that other headers implied,
and a dotted key may only extend a table that dotted keys made.
-/

namespace RailsLookup.Toml

inductive Origin where
  | header
  /-- Part of a longer header. -/
  | implied
  | dotted
  deriving DecidableEq

inductive Draft where
  | value (v : Toml)
  | table (origin : Origin) (entries : List (Text × Draft))
  /-- An array of tables, the last one first. -/
  | tables (last : List (Text × Draft)) (earlier : List (List (Text × Draft)))

namespace Draft

abbrev Entries := List (Text × Draft)

def Entries.set (es : Entries) (key : Text) (d : Draft) : Entries :=
  if es.any (·.1 == key) then es.map fun (k, old) => if k == key then (k, d) else (k, old)
  else es ++ [(key, d)]

def openTable (es : Entries) : List Text → Option Entries
  | [] => none
  | [key] =>
    match es.lookup key with
    | none => some (Entries.set es key (table .header []))
    | some (table .implied inner) => some (Entries.set es key (table .header inner))
    | some _ => none
  | key :: rest =>
    match (es.lookup key).getD (table .implied []) with
    | value _ => none
    | table origin inner =>
      (openTable inner rest).map fun inner => Entries.set es key (table origin inner)
    | tables last earlier =>
      (openTable last rest).map fun last => Entries.set es key (tables last earlier)

def openElement (es : Entries) : List Text → Option Entries
  | [] => none
  | [key] =>
    match es.lookup key with
    | none => some (Entries.set es key (tables [] []))
    | some (tables last earlier) => some (Entries.set es key (tables [] (last :: earlier)))
    | some _ => none
  | key :: rest =>
    match (es.lookup key).getD (table .implied []) with
    | value _ => none
    | table origin inner =>
      (openElement inner rest).map fun inner => Entries.set es key (table origin inner)
    | tables last earlier =>
      (openElement last rest).map fun last => Entries.set es key (tables last earlier)

def assign (es : Entries) (v : Toml) : List Text → Option Entries
  | [] => none
  | [key] => if es.any (·.1 == key) then none else some (es ++ [(key, value v)])
  | key :: rest =>
    match (es.lookup key).getD (table .dotted []) with
    | value _ | table .header _ => none
    | table .dotted inner =>
      (assign inner v rest).map fun inner => Entries.set es key (table .dotted inner)
    | table .implied inner =>
      if rest.length = 1 then none
      else (assign inner v rest).map fun inner => Entries.set es key (table .implied inner)
    | tables last earlier =>
      if rest.length = 1 then none
      else (assign last v rest).map fun last => Entries.set es key (tables last earlier)

/-- Give a value to a key in the table that a header opened. -/
def assignIn (es : Entries) (v : Toml) (key : List Text) : List Text → Option Entries
  | [] => assign es v key
  | k :: rest =>
    match es.lookup k with
    | none | some (value _) => none
    | some (table origin inner) =>
      (assignIn inner v key rest).map fun inner => Entries.set es k (table origin inner)
    | some (tables last earlier) =>
      (assignIn last v key rest).map fun last => Entries.set es k (tables last earlier)

mutual

def finish : Draft → Toml
  | value v => v
  | table _ es => .table (finishEntries es)
  | tables last earlier => .array ((finishTables earlier).reverse ++ [.table (finishEntries last)])

def finishEntries : List (Text × Draft) → List (Text × Toml)
  | [] => []
  | (k, d) :: rest => (k, finish d) :: finishEntries rest

def finishTables : List (List (Text × Draft)) → List Toml
  | [] => []
  | es :: rest => .table (finishEntries es) :: finishTables rest

end

end Draft

end RailsLookup.Toml
