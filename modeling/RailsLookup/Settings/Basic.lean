import RailsLookup.Disk.Walk

/-! # Settings

What a project or a user can change about a search.
-/

namespace RailsLookup

structure Settings where
  search : SearchOptions := {}
  viewExtensions : List Text := ["html", "erb", "haml", "slim"].map String.toList
  /-- Directories searched for helpers and mailers after their own. -/
  fallbackDirectories : List Text := ["lib", "app/models", "app/controllers"].map String.toList
  deriving DecidableEq, Repr

end RailsLookup
