import RailsLookup.Disk.Walk

/-! # Visits

A walk visits one directory after the other. A move says what it does with an entry, and what
it lists below a directory is put together from the moves there. Visits of which each is
entered from the one before come to an end, also where links lead back up.
-/

namespace RailsLookup

namespace Disk

variable {d : Disk} {place : Place} {n : Name}

theorem mem_children_iff :
    n ∈ d.children place ↔ isName n = true ∧ ∃ e, d.get? (n :: place) = some e := by
  have he : (∃ e, d.get? (n :: place) = some e) ↔ ∃ e, (n :: place, e) ∈ d.entries := by
    rw [← Option.isSome_iff_exists, ← Option.ne_none_iff_isSome, get?, ne_eq,
      List.lookup_eq_none_iff]
    · simp
    · simp
  rw [he, children, List.mem_mergeSort, List.mem_eraseDups, List.mem_filterMap]
  constructor
  · rintro ⟨⟨place', e⟩, hm, h⟩
    cases place' with
    | nil => simp at h
    | cons m parent =>
      simp only [Option.ite_none_right_eq_some, Bool.and_eq_true, beq_iff_eq,
        Option.some.injEq] at h
      obtain ⟨⟨rfl, hn⟩, rfl⟩ := h
      exact ⟨hn, e, hm⟩
  · rintro ⟨hn, e, hm⟩
    exact ⟨_, hm, by simp [hn]⟩

theorem nodup_eraseDups (ns : List Name) : ns.eraseDups.Nodup := by
  match ns with
  | [] => simp
  | n :: ns =>
    have : (ns.filter fun m => !m == n).length < ns.length + 1 :=
      Nat.lt_succ_of_le (List.length_filter_le ..)
    rw [List.eraseDups_cons, List.nodup_cons]
    exact ⟨by simp, nodup_eraseDups _⟩
termination_by ns.length

theorem pairwise_lt_children (d : Disk) (place : Place) :
    (d.children place).Pairwise (· < ·) := by
  unfold children
  generalize d.entries.filterMap _ = ns
  have hle : (ns.eraseDups.mergeSort fun a b => decide (a ≤ b)).Pairwise fun a b => a ≤ b := by
    refine (List.pairwise_mergeSort ?_ ?_ _).imp of_decide_eq_true
    · intro a b c hab hbc
      exact decide_eq_true (List.le_trans (of_decide_eq_true hab) (of_decide_eq_true hbc))
    · intro a b
      simpa using List.le_total a b
  have hne : (ns.eraseDups.mergeSort fun a b => decide (a ≤ b)).Nodup :=
    (List.mergeSort_perm ..).nodup_iff.mpr (nodup_eraseDups ns)
  exact hle.imp₂ (fun _ _ h hn => Std.lt_of_le_of_ne h hn) hne

end Disk

/-- A directory that a walk has come to, as `Disk.walk` sees it. -/
structure Visit where
  /-- The directories from the start to this one, which comes first. -/
  way : List Place
  place : Place
  path : Path
  /-- How many components below this directory a file may lie. -/
  depth : Option Nat

inductive Move where
  | skip
  | list
  | enter (target : Place)

namespace Visit

variable (d : Disk) (options : SearchOptions) (accepts : Text → Bool)

def names (v : Visit) : List Name := if v.depth = some 0 then [] else d.children v.place

def here (v : Visit) (n : Name) : Path := v.path.join ⟨n⟩

/-- What is done with the entry of the given name. Only for a linked directory does the way
matter. -/
def move (v : Visit) (n : Name) : Move :=
  match d.get? (n :: v.place) with
  | none => .skip
  | some (.file _) => .list
  | some .directory => .enter (n :: v.place)
  | some (.link _) =>
    match if options.followLinks then d.lookup? (v.here n) else none with
    | none => .skip
    | some target =>
      match d.get? target with
      | some (.file _) => .list
      | some .directory => if v.way.contains target then .skip else .enter target
      | _ => .skip

def enter (v : Visit) (n : Name) (target : Place) : Visit :=
  ⟨target :: v.way, target, v.here n, v.depth.map (· - 1)⟩

def listed (v : Visit) : List Path := d.walk options accepts v.way v.place v.path v.depth

def first? (root : Path) : Option Visit :=
  (d.lookup? root).bind fun place =>
    if d.get? place = some .directory then some ⟨[place], place, root, options.maxDepth⟩
    else none

def listedFile (v : Visit) (n : Name) : List Path :=
  if (Utf8.decode? n).any accepts then [v.here n] else []

def listedAt (v : Visit) (n : Name) : List Path :=
  match v.move d options n with
  | .skip => []
  | .list => v.listedFile accepts n
  | .enter target => (v.enter n target).listed d options accepts

variable {d options accepts} {v : Visit} {n : Name} {target : Place}

theorem first?_eq_some_iff {root : Path} :
    first? d options root = some v ↔ ∃ place, d.lookup? root = some place ∧
      d.get? place = some .directory ∧ ⟨[place], place, root, options.maxDepth⟩ = v := by
  simp only [first?, Option.bind_eq_some_iff, Option.ite_none_right_eq_some, Option.some.injEq]

theorem files_eq (d : Disk) (options : SearchOptions) (accepts : Text → Bool) (root : Path) :
    d.files options accepts root =
      ((first? d options root).map (listed d options accepts)).getD [] := by
  unfold Disk.files first?
  cases d.lookup? root with
  | none => rfl
  | some place =>
    by_cases h : d.get? place = some .directory
    · simp [h, listed]
    · simp [h]

theorem listed_eq_flatMap (v : Visit) :
    v.listed d options accepts = (v.names d).flatMap (v.listedAt d options accepts) := by
  unfold listed
  rw [Disk.walk, names]
  split
  · rfl
  · congr 1
    funext n
    have hf : (if (Utf8.decode? n).any accepts then [v.path.join ⟨n⟩] else []) =
        v.listedFile accepts n := rfl
    simp only [hf, listedAt, move, here]
    -- the cases of `walk` are those of `move`
    split
    · next h => simp only [h]
    · next h => simp only [h]
    · next h => simp only [h, listed, enter, here]
    · next h =>
      simp only [h]
      generalize (if options.followLinks then d.lookup? (v.path.join ⟨n⟩) else none) = target?
      cases target? with
      | none => rfl
      | some target =>
        dsimp only
        split
        · next ht => simp only [ht]
        · next ht =>
          by_cases hw : target ∈ v.way
          · simp [ht, hw]
          · simp [ht, hw, listed, enter, here]
        · next h₁ h₂ =>
          split <;> simp_all

theorem mem_names_iff : n ∈ v.names d ↔
    v.depth ≠ some 0 ∧ Disk.isName n = true ∧ ∃ e, d.get? (n :: v.place) = some e := by
  unfold names
  split <;> simp [Disk.mem_children_iff, *]

theorem pairwise_lt_names (d : Disk) (v : Visit) : (v.names d).Pairwise (· < ·) := by
  unfold names
  split
  · exact .nil
  · exact Disk.pairwise_lt_children d v.place

theorem move_eq_list_iff :
    v.move d options n = .list ↔
      (∃ content, d.get? (n :: v.place) = some (.file content)) ∨
      options.followLinks = true ∧ ∃ link target content,
        d.get? (n :: v.place) = some (.link link) ∧ d.lookup? (v.here n) = some target ∧
        d.get? target = some (.file content) := by
  unfold move
  rcases h : d.get? (n :: v.place) with _ | (_ | _ | link)
  · simp
  · simp
  · simp
  · cases hf : options.followLinks
    · simp
    · rcases hl : d.lookup? (v.here n) with _ | target
      · simp
      · rcases ht : d.get? target with _ | (_ | _ | _) <;> simp [ht]
        split <;> simp

theorem move_eq_enter_iff :
    v.move d options n = .enter target ↔
      (target = n :: v.place ∧ d.get? (n :: v.place) = some .directory) ∨
      options.followLinks = true ∧ ∃ link,
        d.get? (n :: v.place) = some (.link link) ∧ d.lookup? (v.here n) = some target ∧
        d.get? target = some .directory ∧ target ∉ v.way := by
  unfold move
  rcases h : d.get? (n :: v.place) with _ | (_ | _ | link)
  · simp
  · simp
  · simpa using eq_comm
  · cases hf : options.followLinks
    · simp
    · rcases hl : d.lookup? (v.here n) with _ | goal
      · simp
      · rcases ht : d.get? goal with _ | (_ | _ | _) <;> grind

theorem get?_of_move_eq_enter (h : v.move d options n = .enter target) :
    d.get? target = some .directory := by
  rcases move_eq_enter_iff.mp h with ⟨rfl, hd⟩ | ⟨_, _, _, _, hd, _⟩
  · exact hd
  · exact hd

def Enters (d : Disk) (options : SearchOptions) (v' v : Visit) : Prop :=
  ∃ n ∈ v.names d, ∃ target, v.move d options n = .enter target ∧ v' = v.enter n target

/-- What gets smaller when a directory is entered: the places that are not on the way, or else
the room below the directory. Entering a directory above the start by a link brings up the
directories below it once more, so these alone do not get fewer. -/
def rank (d : Disk) (v : Visit) : Nat × Nat :=
  (d.unvisited v.way, d.height - v.place.length)

theorem rank_enter_lt (h : v.move d options n = .enter target) :
    Prod.Lex (· < ·) (· < ·) ((v.enter n target).rank d) (v.rank d) := by
  have hm := Disk.mem_places_of_get? (get?_of_move_eq_enter h)
  rcases move_eq_enter_iff.mp h with ⟨rfl, _⟩ | ⟨_, _, _, _, _, hw⟩
  · have hle := Disk.length_le_height hm
    rcases Nat.lt_or_eq_of_le (Disk.unvisited_cons_le d (n :: v.place) v.way) with hlt | heq
    · exact .left _ _ hlt
    · simp only [rank, enter, heq]
      refine .right _ ?_
      simp only [List.length_cons] at hle ⊢
      omega
  · exact .left _ _ (Disk.unvisited_cons_lt hm hw)

theorem wellFounded_enters (d : Disk) (options : SearchOptions) :
    WellFounded (Enters d options) := by
  refine Subrelation.wf ?_ (InvImage.wf (rank d) (Prod.lex Nat.lt_wfRel Nat.lt_wfRel).wf)
  rintro _ v ⟨n, _, target, h, rfl⟩
  exact rank_enter_lt h

/-- What holds of a directory whenever it holds of those entered from it holds of every one. -/
@[elab_as_elim]
theorem induction_on_entered (d : Disk) (options : SearchOptions) {motive : Visit → Prop}
    (v : Visit)
    (step : ∀ v, (∀ n ∈ v.names d, ∀ target, v.move d options n = .enter target →
      motive (v.enter n target)) → motive v) : motive v := by
  induction v using (wellFounded_enters d options).induction with
  | _ v ih => exact step v fun n hn target h => ih _ ⟨n, hn, target, h, rfl⟩

/-- The files that a walk comes upon, by the names that lead to them. -/
inductive Finds (d : Disk) (options : SearchOptions) : Visit → List Name → Prop where
  | file {v : Visit} {n : Name} : n ∈ v.names d → v.move d options n = .list →
      Finds d options v [n]
  | inside {v : Visit} {n : Name} {target : Place} {names : List Name} : n ∈ v.names d →
      v.move d options n = .enter target → Finds d options (v.enter n target) names →
      Finds d options v (n :: names)

variable {rest ns : List Name}

theorem Finds.ne_nil (h : v.Finds d options ns) : ns ≠ [] := by
  cases h <;> simp

theorem Finds.isName (h : v.Finds d options ns) : ∀ n ∈ ns, Disk.isName n = true := by
  induction h with
  | file hn _ => simpa using (mem_names_iff.mp hn).2.1
  | inside hn _ _ ih => exact List.forall_mem_cons.mpr ⟨(mem_names_iff.mp hn).2.1, ih⟩

theorem Finds.length_le (h : v.Finds d options ns) : ∀ m ∈ v.depth, ns.length ≤ m := by
  induction h with
  | @file v n hn _ =>
    intro m hm
    have hz : m ≠ 0 := fun h => (mem_names_iff.mp hn).1 (h ▸ hm)
    rw [List.length_singleton]
    omega
  | @inside v n target ns hn _ _ ih =>
    intro m hm
    have hz : m ≠ 0 := fun h => (mem_names_iff.mp hn).1 (h ▸ hm)
    have hle := ih (m - 1) (Option.mem_map_of_mem _ hm)
    rw [List.length_cons]
    omega

theorem finds_cons_iff :
    v.Finds d options (n :: rest) ↔ n ∈ v.names d ∧
      (rest = [] ∧ v.move d options n = .list ∨
        ∃ target, v.move d options n = .enter target ∧
          (v.enter n target).Finds d options rest) := by
  constructor
  · intro h
    cases h with
    | file hn hm => exact ⟨hn, .inl ⟨rfl, hm⟩⟩
    | inside hn hm h => exact ⟨hn, .inr ⟨_, hm, h⟩⟩
  · rintro ⟨hn, ⟨rfl, hm⟩ | ⟨target, hm, h⟩⟩
    · exact .file hn hm
    · exact .inside hn hm h

end Visit

end RailsLookup
