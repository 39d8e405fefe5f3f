import Mathlib.Data.List.Sort
import RailsLookup.Proofs.Disk.Listing

/-! # The options of a walk

Every option of a walk leaves files out and changes nothing else. A limit on the depth leaves out
what lies deeper, and the choice of names leaves out what is named otherwise. A walk that follows
no links comes only upon files that it comes upon with links too, as the way to them does not
matter then. A listing is determined by what it holds, so it is enough to compare the files that
two walks come upon.
-/

namespace RailsLookup

namespace Listing

variable {root : Path} {found found' : List Name → Prop} {paths paths' : List Path}

theorem unique (h : Listing root found paths) (h' : Listing root found paths') :
    paths = paths' := by
  obtain ⟨ways, rfl, hs, hm⟩ := h
  obtain ⟨ways', rfl, hs', hm'⟩ := h'
  rw [hs.eq_of_mem_iff hs' fun ns => (hm ns).trans (hm' ns).symm]

theorem sublist (h : Listing root found paths) (h' : Listing root found' paths')
    (hf : ∀ ns, found ns → found' ns) : paths.Sublist paths' := by
  classical
  obtain ⟨ways, rfl, hs, hm⟩ := h
  obtain ⟨ways', rfl, hs', hm'⟩ := h'
  have hways : ways = ways'.filter (· ∈ ways) := by
    apply hs.eq_of_mem_iff (hs'.filter _)
    intro ns
    rw [List.mem_filter, decide_eq_true_iff, hm', hm]
    exact ⟨fun h => ⟨hf ns h, h⟩, fun h => h.2⟩
  rw [hways]
  exact List.filter_sublist.map _

end Listing

namespace Visit

variable {d : Disk} {options options' : SearchOptions} {v : Visit} {n : Name} {ns : List Name}
  {target : Place}

theorem move_eq_list_mono (hl : options.followLinks = true → options'.followLinks = true)
    (h : v.move d options n = .list) : v.move d options' n = .list := by
  rw [move_eq_list_iff] at h ⊢
  exact h.imp_right (And.imp_left hl)

theorem move_eq_enter_mono (hl : options.followLinks = true → options'.followLinks = true)
    (h : v.move d options n = .enter target) : v.move d options' n = .enter target := by
  rw [move_eq_enter_iff] at h ⊢
  exact h.imp_right (And.imp_left hl)

theorem Finds.mono (h : v.Finds d options ns)
    (hl : options.followLinks = true → options'.followLinks = true) {depth : Option Nat}
    (hd : ∀ m ∈ depth, ns.length ≤ m) : Finds d options' { v with depth := depth } ns := by
  induction h generalizing depth with
  | @file v n hn hm =>
    have hz : depth ≠ some 0 := fun h => absurd (hd 0 h) (by simp)
    exact .file (mem_names_iff.mpr ⟨hz, (mem_names_iff.mp hn).2⟩) (move_eq_list_mono hl hm)
  | @inside v n target ns hn hm _ ih =>
    have hz : depth ≠ some 0 := fun h => absurd (hd 0 h) (by simp)
    have hd' : ∀ m ∈ depth.map (· - 1), ns.length ≤ m := by
      intro m hm
      obtain ⟨k, hk, rfl⟩ := Option.map_eq_some_iff.mp hm
      exact Nat.le_sub_one_of_lt (hd k hk)
    exact .inside (mem_names_iff.mpr ⟨hz, (mem_names_iff.mp hn).2⟩) (move_eq_enter_mono hl hm)
      (ih hd')

end Visit

/-- Whether the file name of the path can be read as a text and is accepted. -/
def Path.nameAccepted (accepts : Text → Bool) (p : Path) : Bool :=
  p.fileName?.any fun n => (Utf8.decode? n).any accepts

namespace Disk

open Visit

variable {d : Disk} {options options' : SearchOptions} {accepts : Text → Bool} {root : Path}
  {ns : List Name}

theorem Visits.mono (h : d.Visits options root ns)
    (hl : options.followLinks = true → options'.followLinks = true)
    (hd : ∀ m ∈ options'.maxDepth, ns.length ≤ m) : d.Visits options' root ns := by
  obtain ⟨v, hv, hf⟩ := h
  obtain ⟨place, hp, he, rfl⟩ := first?_eq_some_iff.mp hv
  exact ⟨_, first?_eq_some_iff.mpr ⟨place, hp, he, rfl⟩, hf.mono hl hd⟩

theorem Visits.length_le (h : d.Visits options root ns) :
    ∀ m ∈ options.maxDepth, ns.length ≤ m := by
  obtain ⟨v, hv, hf⟩ := h
  obtain ⟨place, -, -, rfl⟩ := first?_eq_some_iff.mp hv
  exact hf.length_le

/-- A limit on the depth leaves out what lies deeper, whatever else the options are. -/
theorem visits_limited_iff {m : Nat} :
    d.Visits { options with maxDepth := some m } root ns ↔
      d.Visits { options with maxDepth := none } root ns ∧ ns.length ≤ m := by
  constructor
  · intro h
    exact ⟨h.mono (fun hf => hf) (by simp), h.length_le m rfl⟩
  · rintro ⟨h, hle⟩
    refine h.mono (fun hf => hf) fun k hk => ?_
    rwa [← Option.some.inj hk]

theorem Visits.components_extend (h : d.Visits options root ns) :
    (root.extend ns).components = root.components ++ ns.map .name := by
  obtain ⟨v, hv, hf⟩ := h
  obtain ⟨place, hp, -, rfl⟩ := first?_eq_some_iff.mp hv
  exact Path.components_extend (bytes_ne_nil_of_lookup? hp) hf.isName

theorem Visits.nameAccepted_extend_iff (h : d.Visits options root ns) :
    (root.extend ns).nameAccepted accepts = true ↔ LastAccepted accepts ns := by
  obtain ⟨v, hv, hf⟩ := h
  obtain ⟨place, hp, -, rfl⟩ := first?_eq_some_iff.mp hv
  rw [Path.nameAccepted,
    Path.fileName?_extend (bytes_ne_nil_of_lookup? hp) hf.isName hf.ne_nil]
  simp only [Option.any_eq_true, LastAccepted]
  constructor
  · rintro ⟨n, hn, t, ht, ha⟩
    exact ⟨n, t, hn, ht, ha⟩
  · rintro ⟨n, t, hn, ht, ha⟩
    exact ⟨n, hn, t, ht, ha⟩

theorem files_limited (d : Disk) (options : SearchOptions) (accepts : Text → Bool) (root : Path)
    (m : Nat) :
    d.files { options with maxDepth := some m } accepts root =
      (d.files { options with maxDepth := none } accepts root).filter fun p =>
        p.components.length ≤ root.components.length + m := by
  have hall := listing_visited d { options with maxDepth := none } accepts root
  refine ((listing_visited d _ accepts root).congr fun ns => ?_).unique (hall.filter _)
  rw [visits_limited_iff, and_right_comm, decide_eq_true_iff]
  apply and_congr_right
  rintro ⟨h, -⟩
  rw [h.components_extend, List.length_append, List.length_map]
  omega

theorem files_accepted (d : Disk) (options : SearchOptions) (accepts : Text → Bool)
    (root : Path) :
    d.files options accepts root =
      (d.files options (fun _ => true) root).filter (·.nameAccepted accepts) := by
  have hall := listing_visited d options (fun _ => true) root
  refine ((listing_visited d options accepts root).congr fun ns => ?_).unique (hall.filter _)
  rw [and_assoc]
  apply and_congr_right
  intro h
  rw [h.nameAccepted_extend_iff]
  constructor
  · rintro ⟨n, t, hn, ht, ha⟩
    exact ⟨⟨n, t, hn, ht, rfl⟩, n, t, hn, ht, ha⟩
  · exact fun h => h.2

theorem sublist_files_linked (d : Disk) (options : SearchOptions) (accepts : Text → Bool)
    (root : Path) :
    (d.files { options with followLinks := false } accepts root).Sublist
      (d.files { options with followLinks := true } accepts root) := by
  apply (listing_visited d _ accepts root).sublist (listing_visited d _ accepts root)
  rintro ns ⟨h, ha⟩
  exact ⟨h.mono (fun _ => rfl) h.length_le, ha⟩

/-- The options of a walk are filters. With a limit it lists the files at most so many components
below the root, with a choice of names those whose names are accepted, each in the order of the
walk without it. Without links it lists some of the files that it lists with them, in their
order. -/
theorem files_filtered_by_options (d : Disk) (options : SearchOptions) (accepts : Text → Bool)
    (root : Path) :
    (∀ m, d.files { options with maxDepth := some m } accepts root =
      (d.files { options with maxDepth := none } accepts root).filter fun p =>
        p.components.length ≤ root.components.length + m) ∧
    (∀ p ∈ d.files options accepts root, root.components <+: p.components) ∧
    d.files options accepts root =
      (d.files options (fun _ => true) root).filter (·.nameAccepted accepts) ∧
    (d.files { options with followLinks := false } accepts root).Sublist
      (d.files { options with followLinks := true } accepts root) := by
  refine ⟨files_limited d options accepts root, ?_, files_accepted d options accepts root,
    sublist_files_linked d options accepts root⟩
  intro p hp
  obtain ⟨ns, rfl, h, -⟩ := (listing_visited d options accepts root).mem_iff.mp hp
  rw [h.components_extend]
  exact List.prefix_append _ _

end Disk

end RailsLookup
