import RailsLookup.Disk.Basic

/-! # Walks

A walk lists the regular files below a directory, depth first and in the order of their
names' bytes. It enters a linked directory only if that is not one of those on the way from
the start, so it always ends.
-/

namespace RailsLookup

structure SearchOptions where
  followLinks : Bool := true
  /-- How many components below the start a file may lie. -/
  maxDepth : Option Nat := none
  deriving DecidableEq, Repr

namespace Disk

def isName (n : Name) : Bool :=
  !n.isEmpty && n != Path.dot && n != Path.dotDot && !n.contains Path.slash

def children (d : Disk) (place : Place) : List Name :=
  let names := d.entries.filterMap fun (place', _) =>
    match place' with
    | n :: parent => if parent == place && isName n then some n else none
    | [] => none
  names.eraseDups.mergeSort fun a b => decide (a ≤ b)

def places (d : Disk) : List Place := [] :: d.entries.map (·.1)

def height (d : Disk) : Nat := (d.places.map List.length).foldr max 0

def unvisited (d : Disk) (way : List Place) : Nat := d.places.countP fun p => p ∉ way

theorem mem_places_of_get? {d : Disk} {place : Place} {e : Entry}
    (h : d.get? place = some e) : place ∈ d.places := by
  cases place with
  | nil => simp [places]
  | cons n parent =>
    obtain ⟨l₁, l₂, hl, _⟩ := List.lookup_eq_some_iff.mp h
    simp [places, hl]

theorem length_le_foldr_max {place : Place} {ps : List Place} (h : place ∈ ps) :
    place.length ≤ (ps.map List.length).foldr max 0 := by
  induction ps with
  | nil => simp at h
  | cons p ps ih =>
    rw [List.map_cons, List.foldr_cons]
    rcases List.mem_cons.mp h with rfl | h
    · exact Nat.le_max_left ..
    · exact Nat.le_trans (ih h) (Nat.le_max_right ..)

theorem length_le_height {d : Disk} {place : Place} (h : place ∈ d.places) :
    place.length ≤ d.height :=
  length_le_foldr_max h

theorem countP_notMem_cons_le (place : Place) (way ps : List Place) :
    ps.countP (fun p => p ∉ place :: way) ≤ ps.countP (fun p => p ∉ way) := by
  apply List.countP_mono_left
  simp only [List.mem_cons, decide_eq_true_eq]
  exact fun p _ h hp => h (Or.inr hp)

theorem countP_notMem_cons_lt {place : Place} {way ps : List Place} (h : place ∈ ps)
    (hw : place ∉ way) :
    ps.countP (fun p => p ∉ place :: way) < ps.countP (fun p => p ∉ way) := by
  induction ps with
  | nil => simp at h
  | cons p ps ih =>
    rw [List.countP_cons, List.countP_cons]
    by_cases hp : p = place
    · subst hp
      have := countP_notMem_cons_le p way ps
      rw [if_neg (by simp), if_pos (by simpa using hw)]
      omega
    · have hlt := ih ((List.mem_cons.mp h).resolve_left (Ne.symm hp))
      have he : decide (p ∉ place :: way) = decide (p ∉ way) := by simp [hp]
      rw [he]
      omega

theorem unvisited_cons_le (d : Disk) (place : Place) (way : List Place) :
    d.unvisited (place :: way) ≤ d.unvisited way :=
  countP_notMem_cons_le place way d.places

theorem unvisited_cons_lt {d : Disk} {place : Place} {way : List Place} (h : place ∈ d.places)
    (hw : place ∉ way) : d.unvisited (place :: way) < d.unvisited way :=
  countP_notMem_cons_lt h hw

/-- The accepted files below the directory at `place`, which is reached by `path` through the
places of `way`. Nothing lies deeper than `depth`. -/
def walk (d : Disk) (options : SearchOptions) (accepts : Text → Bool) (way : List Place)
    (place : Place) (path : Path) (depth : Option Nat) : List Path :=
  if depth = some 0 then []
  else
    (d.children place).flatMap fun n =>
      let here := path.join ⟨n⟩
      let listed := if (Utf8.decode? n).any accepts then [here] else []
      match h : d.get? (n :: place) with
      | none => []
      | some (.file _) => listed
      | some .directory =>
        d.walk options accepts ((n :: place) :: way) (n :: place) here (depth.map (· - 1))
      | some (.link _) =>
        match if options.followLinks then d.lookup? here else none with
        | none => []
        | some target =>
          match h : d.get? target with
          | some (.file _) => listed
          | some .directory =>
            if target ∈ way then []
            else d.walk options accepts (target :: way) target here (depth.map (· - 1))
          | _ => []
termination_by (d.unvisited way, d.height - place.length)
decreasing_by
  · have hle := length_le_height (mem_places_of_get? h)
    simp only [List.length_cons] at hle
    rcases Nat.lt_or_eq_of_le (unvisited_cons_le d (n :: place) way) with hlt | heq
    · exact Prod.Lex.left _ _ hlt
    · rw [heq]
      exact Prod.Lex.right _ (by simp only [List.length_cons]; omega)
  · exact Prod.Lex.left _ _ (unvisited_cons_lt (mem_places_of_get? h) (by assumption))

/-- The regular files below a directory whose names are accepted; none if the path does not lead to
a directory. -/
def files (d : Disk) (options : SearchOptions) (accepts : Text → Bool) (start : Path) : List Path :=
  match d.lookup? start with
  | none => []
  | some place =>
    if d.get? place = some .directory then
      d.walk options accepts [place] place start options.maxDepth
    else []

end Disk

end RailsLookup
