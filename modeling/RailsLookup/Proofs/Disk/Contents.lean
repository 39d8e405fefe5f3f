import Mathlib.Data.List.Basic
import RailsLookup.Proofs.Disk.Visit

/-! # The contents of files

Where a path leads and what a walk lists does not depend on what the files hold. So a change to
the contents of all files shows only where a file is read.
-/

namespace RailsLookup

/-- The entry with the content of a file changed. -/
def Entry.mapFile (f : Bytes → Bytes) : Entry → Entry
  | .file content => .file (f content)
  | e => e

namespace Disk

def mapFiles (f : Bytes → Bytes) (d : Disk) : Disk :=
  { d with entries := d.entries.map fun (place, e) => (place, e.mapFile f) }

variable (f : Bytes → Bytes) (d : Disk)

theorem get?_mapFiles (place : Place) :
    (d.mapFiles f).get? place = (d.get? place).map (Entry.mapFile f) := by
  cases place with
  | nil => rfl
  | cons n parent =>
    simp only [get?, mapFiles]
    induction d.entries with
    | nil => rfl
    | cons entry entries ih =>
      rw [List.map_cons, List.lookup_cons, List.lookup_cons, ih]
      split <;> rfl

theorem get?_mapFiles_eq_directory_iff (place : Place) :
    (d.mapFiles f).get? place = some .directory ↔ d.get? place = some .directory := by
  rw [get?_mapFiles]
  rcases d.get? place with _ | (_ | _ | _) <;> simp [Entry.mapFile]

theorem follow_mapFiles (links : Nat) (place : Place) (pieces : List Name) :
    (d.mapFiles f).follow links place pieces = d.follow links place pieces := by
  fun_induction d.follow links place pieces with
  | case1 => rw [follow]
  | case2 links place piece rest hs ih => rw [follow, if_pos hs, ih]
  | case3 links place piece rest hs hu ih => rw [follow, if_neg hs, if_pos hu, ih]
  | case4 links place piece rest hs hu he =>
    rw [follow, if_neg hs, if_neg hu, get?_mapFiles, he]
    rfl
  | case5 links place piece rest hs hu he ih =>
    rw [follow, if_neg hs, if_neg hu, get?_mapFiles, he]
    exact ih
  | case6 links place piece rest hs hu content he hr =>
    rw [follow, if_neg hs, if_neg hu, get?_mapFiles, he]
    exact if_pos hr
  | case7 links place piece rest hs hu content he hr =>
    rw [follow, if_neg hs, if_neg hu, get?_mapFiles, he]
    exact if_neg hr
  | case8 place piece rest hs hu target he =>
    rw [follow, if_neg hs, if_neg hu, get?_mapFiles, he]
    rfl
  | case9 place piece rest hs hu target he links ih =>
    rw [follow, if_neg hs, if_neg hu, get?_mapFiles, he]
    simp only [dite_eq_ite] at ih
    exact ih

theorem lookup?_mapFiles (p : Path) : (d.mapFiles f).lookup? p = d.lookup? p := by
  rw [lookup?, lookup?, follow_mapFiles]
  rfl

theorem read?_mapFiles (p : Path) : (d.mapFiles f).read? p = (d.read? p).map f := by
  rw [read?, read?, lookup?_mapFiles]
  cases d.lookup? p with
  | none => rfl
  | some place =>
    rw [Option.bind_some, Option.bind_some, get?_mapFiles]
    rcases d.get? place with _ | (_ | _ | _) <;> rfl

theorem isFile_mapFiles (p : Path) : (d.mapFiles f).isFile p = d.isFile p := by
  rw [isFile, isFile, read?_mapFiles, Option.isSome_map]

theorem children_mapFiles (place : Place) : (d.mapFiles f).children place = d.children place := by
  simp only [children, mapFiles, List.filterMap_map]
  rfl

end Disk

namespace Visit

variable (f : Bytes → Bytes) (d : Disk) (options : SearchOptions)

theorem names_mapFiles (v : Visit) : v.names (d.mapFiles f) = v.names d := by
  rw [names, names, Disk.children_mapFiles]

theorem move_mapFiles (v : Visit) (n : Name) :
    v.move (d.mapFiles f) options n = v.move d options n := by
  unfold move
  rw [Disk.get?_mapFiles]
  rcases d.get? (n :: v.place) with _ | (_ | _ | link)
  · rfl
  · rfl
  · rfl
  · simp only [Option.map_some, Entry.mapFile, Disk.lookup?_mapFiles]
    generalize (if options.followLinks then d.lookup? (v.here n) else none) = target?
    cases target? with
    | none => rfl
    | some target =>
      simp only [Disk.get?_mapFiles]
      rcases d.get? target with _ | (_ | _ | _) <;> rfl

theorem listed_mapFiles (accepts : Text → Bool) (v : Visit) :
    v.listed (d.mapFiles f) options accepts = v.listed d options accepts := by
  induction v using induction_on_entered d options with
  | step v ih =>
    rw [listed_eq_flatMap, listed_eq_flatMap, names_mapFiles]
    refine List.flatMap_congr fun n hn => ?_
    unfold listedAt
    rw [move_mapFiles]
    cases hm : v.move d options n with
    | skip => rfl
    | list => rfl
    | enter target => exact ih n hn target hm

end Visit

theorem Disk.files_mapFiles (f : Bytes → Bytes) (d : Disk) (options : SearchOptions)
    (accepts : Text → Bool) (root : Path) :
    (d.mapFiles f).files options accepts root = d.files options accepts root := by
  have hfirst : Visit.first? (d.mapFiles f) options root = Visit.first? d options root := by
    simp only [Visit.first?, lookup?_mapFiles, get?_mapFiles_eq_directory_iff]
  have hlisted : Visit.listed (d.mapFiles f) options accepts = Visit.listed d options accepts :=
    funext (Visit.listed_mapFiles f d options accepts)
  rw [Visit.files_eq, Visit.files_eq, hfirst, hlisted]

end RailsLookup
