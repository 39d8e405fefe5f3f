import RailsLookup.Settings.Basic
import RailsLookup.Lookup.Context
import RailsLookup.Toml.Reader

/-! # Reading settings

Settings come from one document: that of the project, or else the user's, or else they are
the defaults. A group of settings may be a table or an array of its values in order; what
is missing has its default, and unknown keys are ignored.
-/

namespace RailsLookup.Settings

/-- The values of the named fields, by key in a table and by place in an array. -/
def fields? (names : List String) : Toml → Option (List (Option Toml))
  | .table entries => some (names.map fun n => entries.lookup n.toList)
  | .array items => some ((List.range names.length).map (items[·]?))
  | _ => none

def read {α : Type} (read? : Toml → Option α) (default : α) : Option Toml → Option α
  | none => some default
  | some t => read? t

def search? (t : Toml) : Option SearchOptions := do
  let default : SearchOptions := {}
  match ← fields? ["follow_symlinks", "max_depth"] t with
  | [follow, depth] =>
    return { followLinks := ← read Toml.boolean? default.followLinks follow
             maxDepth := ← read (fun t => t.natural?.map some) default.maxDepth depth }
  | _ => none

def texts? (name : String) (default : List Text) (t : Toml) : Option (List Text) := do
  match ← fields? [name] t with
  | [field] => read Toml.strings? default field
  | _ => none

def ofToml? (t : Toml) : Option Settings := do
  let default : Settings := {}
  match ← fields? ["search", "views", "helpers"] t with
  | [search, views, helpers] =>
    return {
      search := ← read search? default.search search
      viewExtensions :=
        ← read (texts? "extensions" default.viewExtensions) default.viewExtensions views
      fallbackDirectories :=
        ← read (texts? "fallback_dirs" default.fallbackDirectories) default.fallbackDirectories
          helpers }
  | _ => none

def parse (path : Path) (source : Text) : Except LookupError Settings :=
  match (Toml.parse? source).bind ofToml? with
  | some settings => .ok settings
  | none => .error (.badSettings path "not a settings document".toList)

def ofFile? (d : Disk) (path : Path) : Option Settings :=
  (d.readText? path).bind fun source => (parse path source).toOption

def projectFile (root : Path) : Path := root.join (.ofString ".rails-goto.toml")

def ofProject (d : Disk) (root : Path) : Settings := (ofFile? d (projectFile root)).getD {}

/-- The settings of a project or else, from the file `user?`, of the user. -/
def load (d : Disk) (user? root? : Option Path) : Settings :=
  (((root?.map projectFile).toList ++ user?.toList).findSome? (ofFile? d)).getD {}

end RailsLookup.Settings
