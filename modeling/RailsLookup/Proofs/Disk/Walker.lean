import RailsLookup.Proofs.Disk.Visit

/-! # Walks step by step

A walker looks at one entry at a time and keeps the directories that it has not finished. It
needs no measure to be defined, and from every start it is done after finitely many steps,
with the same paths that `Disk.files` lists.
-/

namespace RailsLookup

structure Walker where
  /-- The directories that are being read, the innermost first, each with the names that are
  left. -/
  reading : List (Visit × List Name)
  listed : List Path

namespace Walker

variable (d : Disk) (options : SearchOptions) (accepts : Text → Bool)

def openWith (v : Visit) (outer : List (Visit × List Name)) (listed : List Path) : Walker :=
  ⟨(v, v.names d) :: outer, listed⟩

/-- Look at the next entry, or leave a directory without any; `none` if the walk is done. -/
def step : Walker → Option Walker
  | ⟨[], _⟩ => none
  | ⟨(_, []) :: outer, listed⟩ => some ⟨outer, listed⟩
  | ⟨(v, n :: rest) :: outer, listed⟩ =>
    match v.move d options n with
    | .skip => some ⟨(v, rest) :: outer, listed⟩
    | .list => some ⟨(v, rest) :: outer, listed ++ v.listedFile accepts n⟩
    | .enter target => some (openWith d (v.enter n target) ((v, rest) :: outer) listed)

def after : Nat → Walker → Option Walker
  | 0, w => some w
  | k + 1, w => (w.step d options accepts).bind (after k)

def start (root : Path) : Walker :=
  match Visit.first? d options root with
  | none => ⟨[], []⟩
  | some v => openWith d v [] []

variable {d options accepts}

theorem after_add {j k : Nat} {w w' : Walker} (h : w.after d options accepts j = some w') :
    w.after d options accepts (j + k) = w'.after d options accepts k := by
  induction j generalizing w with
  | zero =>
    obtain rfl : w = w' := by simpa [after] using h
    rw [Nat.zero_add]
  | succ j ih =>
    rw [after, Option.bind_eq_some_iff] at h
    obtain ⟨u, hu, h⟩ := h
    rw [Nat.succ_add, after, hu, Option.bind_some, ih h]

theorem after_one (w : Walker) :
    w.after d options accepts 1 = w.step d options accepts := by
  simp [after]

/-- If the directories entered from `v` can be read to their ends, so can the rest of `v`. -/
theorem exists_after_rest {v : Visit}
    (ih : ∀ n ∈ v.names d, ∀ target, v.move d options n = .enter target → ∀ outer listed,
      ∃ k, (openWith d (v.enter n target) outer listed).after d options accepts k =
        some ⟨outer, listed ++ (v.enter n target).listed d options accepts⟩)
    (rest : List Name) (hr : ∀ n ∈ rest, n ∈ v.names d) (outer : List (Visit × List Name))
    (listed : List Path) :
    ∃ k, (⟨(v, rest) :: outer, listed⟩ : Walker).after d options accepts k =
      some ⟨outer, listed ++ rest.flatMap (v.listedAt d options accepts)⟩ := by
  induction rest generalizing listed with
  | nil => exact ⟨1, by simp [after_one, step]⟩
  | cons n rest ihr =>
    -- the entry itself is done after some steps, with what is listed there
    have hn : ∃ j, (⟨(v, n :: rest) :: outer, listed⟩ : Walker).after d options accepts j =
        some ⟨(v, rest) :: outer, listed ++ v.listedAt d options accepts n⟩ := by
      unfold Visit.listedAt
      cases hm : v.move d options n with
      | skip => exact ⟨1, by simp [after_one, step, hm]⟩
      | list => exact ⟨1, by simp [after_one, step, hm]⟩
      | enter target =>
        obtain ⟨j, hj⟩ := ih n (hr n List.mem_cons_self) target hm ((v, rest) :: outer) listed
        exact ⟨1 + j, by rw [after_add (by rw [after_one, step, hm])]; exact hj⟩
    obtain ⟨j, hj⟩ := hn
    obtain ⟨k, hk⟩ := ihr (fun m hm => hr m (List.mem_cons_of_mem _ hm))
      (listed ++ v.listedAt d options accepts n)
    refine ⟨j + k, ?_⟩
    rw [after_add hj, hk, List.flatMap_cons, List.append_assoc]

theorem exists_after_openWith (d : Disk) (options : SearchOptions) (accepts : Text → Bool)
    (v : Visit) (outer : List (Visit × List Name)) (listed : List Path) :
    ∃ k, (openWith d v outer listed).after d options accepts k =
      some ⟨outer, listed ++ v.listed d options accepts⟩ := by
  induction v using Visit.induction_on_entered d options generalizing outer listed with
  | step v ih =>
    rw [Visit.listed_eq_flatMap]
    exact exists_after_rest ih _ (fun _ h => h) outer listed

/-- Every walk ends: whatever the links on the disk, the walker is done after finitely many
steps and has listed the files of the walk. -/
theorem exists_after_done (d : Disk) (options : SearchOptions) (accepts : Text → Bool)
    (root : Path) :
    ∃ k w, (start d options root).after d options accepts k = some w ∧
      w.step d options accepts = none ∧ w.listed = d.files options accepts root := by
  rw [start, Visit.files_eq]
  cases Visit.first? d options root with
  | none => exact ⟨0, _, rfl, rfl, rfl⟩
  | some v =>
    obtain ⟨k, hk⟩ := exists_after_openWith d options accepts v [] []
    exact ⟨k, _, hk, rfl, rfl⟩

end Walker

end RailsLookup
