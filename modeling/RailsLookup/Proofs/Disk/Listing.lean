import RailsLookup.Proofs.Disk.Below
import RailsLookup.Proofs.Disk.Visit

/-! # The order of a walk and what it lists

The paths of a walk ascend strictly when they are compared name by name, which is not the
order of the paths as bytes. Without links a walk lists exactly the files that lie below its
root through directories, as deep as the options allow.
-/

namespace RailsLookup

/-- The paths below `root` whose names satisfy `found`, each once and in ascending order of the
names. -/
def Listing (root : Path) (found : List Name → Prop) (paths : List Path) : Prop :=
  ∃ ways : List (List Name),
    paths = ways.map root.extend ∧ ways.Pairwise (· < ·) ∧ ∀ ns, ns ∈ ways ↔ found ns

namespace Listing

variable {root : Path} {found found' : List Name → Prop} {paths : List Path}

theorem nil : Listing root (fun _ => False) [] := ⟨[], rfl, .nil, by simp⟩

theorem congr (h : Listing root found paths) (hf : ∀ ns, found ns ↔ found' ns) :
    Listing root found' paths := by
  obtain ⟨ways, hp, hs, hm⟩ := h
  exact ⟨ways, hp, hs, fun ns => (hm ns).trans (hf ns)⟩

theorem mem_iff (h : Listing root found paths) {p : Path} :
    p ∈ paths ↔ ∃ ns, p = root.extend ns ∧ found ns := by
  obtain ⟨ways, rfl, _, hm⟩ := h
  simp only [List.mem_map, hm, eq_comm (a := p), and_comm]

theorem filter (h : Listing root found paths) (p : Path → Bool) :
    Listing root (fun ns => found ns ∧ p (root.extend ns) = true) (paths.filter p) := by
  obtain ⟨ways, rfl, hs, hm⟩ := h
  refine ⟨ways.filter (p ∘ root.extend), List.filter_map, hs.filter _, fun ns => ?_⟩
  rw [List.mem_filter, hm, Function.comp_apply]

theorem head?_eq_some_iff (h : Listing root found paths) {p : Path} :
    paths.head? = some p ↔ ∃ ns, found ns ∧ p = root.extend ns ∧ ∀ ns', found ns' → ¬ns' < ns := by
  obtain ⟨ways, rfl, hs, hm⟩ := h
  cases ways with
  | nil =>
    have hnone (ns : List Name) : ¬found ns := fun hf => by simpa using (hm ns).mpr hf
    simp [hnone]
  | cons way ways =>
    obtain ⟨hlt, -⟩ := List.pairwise_cons.mp hs
    rw [List.map_cons, List.head?_cons, Option.some.injEq]
    constructor
    · rintro rfl
      refine ⟨way, (hm way).mp List.mem_cons_self, rfl, fun ns' hf hless => ?_⟩
      rcases List.mem_cons.mp ((hm ns').mpr hf) with rfl | hin
      · exact Std.lt_irrefl hless
      · exact Std.lt_irrefl (List.lt_trans hless (hlt ns' hin))
    · rintro ⟨ns, hf, rfl, hleast⟩
      rcases List.mem_cons.mp ((hm ns).mpr hf) with rfl | hin
      · rfl
      · exact absurd (hlt ns hin) (hleast way ((hm way).mp List.mem_cons_self))

theorem eq_nil_iff (h : Listing root found paths) : paths = [] ↔ ∀ ns, ¬found ns := by
  obtain ⟨ways, rfl, -, hm⟩ := h
  rw [List.map_eq_nil_iff, List.eq_nil_iff_forall_not_mem]
  simp only [hm]

/-- The listings below the entries of a directory, one after the other. -/
theorem flatMap {ns : List Name} {found : Name → List Name → Prop} {f : Name → List Path}
    (hs : ns.Pairwise (· < ·)) (h : ∀ n ∈ ns, Listing (root.join ⟨n⟩) (found n) (f n)) :
    Listing root (fun way => ∃ n ∈ ns, ∃ rest, way = n :: rest ∧ found n rest)
      (ns.flatMap f) := by
  induction ns with
  | nil => exact nil.congr (by simp)
  | cons n ns ih =>
    obtain ⟨hlt, hs⟩ := List.pairwise_cons.mp hs
    obtain ⟨hn, hns⟩ := List.forall_mem_cons.mp h
    obtain ⟨first, hf, hfs, hfm⟩ := hn
    obtain ⟨later, hl, hls, hlm⟩ := ih hs hns
    refine ⟨first.map (n :: ·) ++ later, ?_, ?_, fun way => ?_⟩
    · rw [List.flatMap_cons, hf, hl, List.map_append, List.map_map]
      rfl
    · refine List.pairwise_append.mpr ⟨?_, hls, ?_⟩
      · refine List.pairwise_map.mpr (hfs.imp fun h => ?_)
        exact List.cons_lt_cons_iff.mpr (.inr ⟨rfl, h⟩)
      · intro a ha b hb
        obtain ⟨u, _, rfl⟩ := List.mem_map.mp ha
        obtain ⟨m, hm, rest, rfl, _⟩ := (hlm b).mp hb
        exact List.cons_lt_cons_iff.mpr (.inl (hlt m hm))
    · simp only [List.mem_append, List.mem_map, hfm, hlm, List.mem_cons, exists_eq_or_imp,
        eq_comm (a := way), and_comm]

end Listing

def LastAccepted (accepts : Text → Bool) (ns : List Name) : Prop :=
  ∃ n t, ns.getLast? = some n ∧ Utf8.decode? n = some t ∧ accepts t = true

theorem lastAccepted_cons_iff {accepts : Text → Bool} {n : Name} {ns : List Name} (h : ns ≠ []) :
    LastAccepted accepts (n :: ns) ↔ LastAccepted accepts ns := by
  simp only [LastAccepted, List.getLast?_cons_of_ne_nil h]

namespace Visit

variable {d : Disk} {options : SearchOptions} {accepts : Text → Bool} {v : Visit} {n : Name}
  {ns : List Name}

theorem listing_listedFile (v : Visit) (n : Name) :
    Listing (v.here n) (fun rest => rest = [] ∧ LastAccepted accepts [n])
      (v.listedFile accepts n) := by
  have ha : LastAccepted accepts [n] ↔ (Utf8.decode? n).any accepts = true := by
    simp [LastAccepted, Option.any_eq_true]
  unfold listedFile
  split
  · next h => exact ⟨[[]], rfl, by simp, fun ns => by simp [ha, h]⟩
  · next h => exact Listing.nil.congr fun ns => by simp [ha, h]

/-- A walk lists the files that it comes upon and whose names are accepted. -/
theorem listing_listed (v : Visit) :
    Listing v.path (fun ns => v.Finds d options ns ∧ LastAccepted accepts ns)
      (v.listed d options accepts) := by
  induction v using induction_on_entered d options with
  | step v ih =>
    have hat : ∀ n ∈ v.names d, Listing (v.here n)
        (fun rest => v.Finds d options (n :: rest) ∧ LastAccepted accepts (n :: rest))
        (v.listedAt d options accepts n) := by
      intro n hn
      unfold listedAt
      cases hm : v.move d options n with
      | skip => exact Listing.nil.congr fun rest => by simp [finds_cons_iff, hm]
      | list =>
        refine (listing_listedFile v n).congr fun rest => ?_
        simp only [finds_cons_iff, hn, hm, true_and, and_true, reduceCtorEq, false_and,
          exists_false, or_false]
        constructor <;> (rintro ⟨rfl, ha⟩; exact ⟨rfl, ha⟩)
      | enter target =>
        refine (ih n hn target hm).congr fun rest => ?_
        simp only [finds_cons_iff, hn, hm, true_and, and_false, reduceCtorEq, false_or,
          Move.enter.injEq, exists_eq_left']
        constructor
        · rintro ⟨h, ha⟩
          exact ⟨h, (lastAccepted_cons_iff h.ne_nil).mpr ha⟩
        · rintro ⟨h, ha⟩
          exact ⟨h, (lastAccepted_cons_iff h.ne_nil).mp ha⟩
    rw [listed_eq_flatMap]
    refine (Listing.flatMap (pairwise_lt_names d v) hat).congr fun way => ?_
    constructor
    · rintro ⟨n, _, rest, rfl, h⟩
      exact h
    · rintro ⟨h, ha⟩
      obtain ⟨n, rest, rfl⟩ := List.exists_cons_of_ne_nil h.ne_nil
      exact ⟨n, (finds_cons_iff.mp h).1, rest, rfl, h, ha⟩

theorem Finds.exists_read? (h : v.Finds d options ns) (hl : d.lookup? v.path = some v.place)
    (hd : d.get? v.place = some .directory) :
    ∃ content, d.read? (v.path.extend ns) = some content := by
  simp only [Disk.read?_eq_some_iff]
  induction h with
  | @file v n hn hm =>
    have hname := (mem_names_iff.mp hn).2.1
    rcases move_eq_list_iff.mp hm with ⟨content, he⟩ | ⟨_, _, target, content, _, ht, he⟩
    · exact ⟨content, _, Disk.lookup?_join hl hd hname he (by simp), he⟩
    · exact ⟨content, target, ht, he⟩
  | @inside v n target ns hn hm _ ih =>
    have hname := (mem_names_iff.mp hn).2.1
    have ht : d.lookup? (v.here n) = some target := by
      rcases move_eq_enter_iff.mp hm with ⟨rfl, he⟩ | ⟨_, _, _, ht, _⟩
      · exact Disk.lookup?_join hl hd hname he (by simp)
      · exact ht
    exact ih ht (get?_of_move_eq_enter hm)

end Visit

namespace Disk

open Visit

/-- A regular file below a place, by the names that lead to it: no link stands among them. -/
inductive HoldsFile (d : Disk) : Place → List Name → Prop where
  | file {place : Place} {n : Name} {content : Bytes} : isName n = true →
      d.get? (n :: place) = some (.file content) → HoldsFile d place [n]
  | inside {place : Place} {n : Name} {ns : List Name} : isName n = true →
      d.get? (n :: place) = some .directory → HoldsFile d (n :: place) ns →
      HoldsFile d place (n :: ns)

variable {d : Disk} {options : SearchOptions} {accepts : Text → Bool} {root : Path}
  {v : Visit} {ns : List Name}

theorem holdsFile_of_finds (hf : options.followLinks = false) (h : v.Finds d options ns) :
    d.HoldsFile v.place ns := by
  induction h with
  | @file v n hn hm =>
    obtain ⟨-, hname, _⟩ := mem_names_iff.mp hn
    rcases move_eq_list_iff.mp hm with ⟨content, he⟩ | ⟨ht, _⟩
    · exact .file hname he
    · rw [hf] at ht
      cases ht
  | @inside v n target ns hn hm _ ih =>
    obtain ⟨-, hname, _⟩ := mem_names_iff.mp hn
    rcases move_eq_enter_iff.mp hm with ⟨rfl, he⟩ | ⟨ht, _⟩
    · exact .inside hname he ih
    · rw [hf] at ht
      cases ht

theorem HoldsFile.finds {place : Place} (h : d.HoldsFile place ns) {v : Visit}
    (hp : v.place = place) (hd : ∀ m ∈ v.depth, ns.length ≤ m) : v.Finds d options ns := by
  induction h generalizing v with
  | @file place n content hname he =>
    subst hp
    have hz : v.depth ≠ some 0 := fun h => absurd (hd 0 h) (by simp)
    exact .file (mem_names_iff.mpr ⟨hz, hname, _, he⟩) (move_eq_list_iff.mpr (.inl ⟨_, he⟩))
  | @inside place n ns hname he _ ih =>
    subst hp
    have hz : v.depth ≠ some 0 := fun h => absurd (hd 0 h) (by simp)
    refine .inside (mem_names_iff.mpr ⟨hz, hname, _, he⟩)
      (move_eq_enter_iff.mpr (.inl ⟨rfl, he⟩)) (ih rfl fun m hm => ?_)
    obtain ⟨k, hk, rfl⟩ := Option.map_eq_some_iff.mp hm
    have := hd k hk
    simp only [List.length_cons] at this
    omega

theorem finds_iff_holdsFile (hf : options.followLinks = false) :
    v.Finds d options ns ↔ d.HoldsFile v.place ns ∧ ∀ m ∈ v.depth, ns.length ≤ m :=
  ⟨fun h => ⟨holdsFile_of_finds hf h, h.length_le⟩, fun ⟨h, hd⟩ => h.finds rfl hd⟩

theorem listing_files (options : SearchOptions) (accepts : Text → Bool) {place : Place}
    (hl : d.lookup? root = some place) (hd : d.get? place = some .directory) :
    Listing root
      (fun ns => Finds d options ⟨[place], place, root, options.maxDepth⟩ ns ∧
        LastAccepted accepts ns)
      (d.files options accepts root) := by
  rw [files_eq, first?_eq_some_iff.mpr ⟨place, hl, hd, rfl⟩]
  exact listing_listed _

def Visits (d : Disk) (options : SearchOptions) (root : Path) (ns : List Name) : Prop :=
  ∃ v, first? d options root = some v ∧ v.Finds d options ns

theorem listing_visited (d : Disk) (options : SearchOptions) (accepts : Text → Bool)
    (root : Path) :
    Listing root (fun ns => d.Visits options root ns ∧ LastAccepted accepts ns)
      (d.files options accepts root) := by
  rw [files_eq]
  cases hv : first? d options root with
  | none => exact Listing.nil.congr fun ns => by simp [Visits, hv]
  | some v =>
    obtain ⟨place, -, -, rfl⟩ := first?_eq_some_iff.mp hv
    exact (listing_listed _).congr fun ns => by simp [Visits, hv]

theorem files_eq_nil (h : ∀ place, d.lookup? root = some place → d.get? place ≠ some .directory) :
    d.files options accepts root = [] := by
  have hn : first? d options root = none := by
    rw [Option.eq_none_iff_forall_ne_some]
    intro v hv
    obtain ⟨place, hl, hd, _⟩ := first?_eq_some_iff.mp hv
    exact h place hl hd
  rw [files_eq, hn]
  rfl

theorem exists_ways (d : Disk) (options : SearchOptions) (accepts : Text → Bool) (root : Path) :
    ∃ ways : List (List Name),
      d.files options accepts root = ways.map root.extend ∧ ways.Pairwise (· < ·) ∧
      ∀ ns ∈ ways, root.below (root.extend ns) = ns ∧ ∀ n ∈ ns, isName n = true := by
  by_cases h : ∃ place, d.lookup? root = some place ∧ d.get? place = some .directory
  · obtain ⟨place, hl, hd⟩ := h
    obtain ⟨ways, hp, hs, hm⟩ := listing_files options accepts hl hd
    refine ⟨ways, hp, hs, fun ns hns => ?_⟩
    have hn := ((hm ns).mp hns).1.isName
    exact ⟨Path.below_extend (bytes_ne_nil_of_lookup? hl) hn, hn⟩
  · refine ⟨[], files_eq_nil fun place hl hd => h ⟨place, hl, hd⟩, .nil, by simp⟩

theorem exists_read?_of_mem_files {p : Path} (h : p ∈ d.files options accepts root) :
    ∃ content, d.read? p = some content := by
  by_cases hr : ∃ place, d.lookup? root = some place ∧ d.get? place = some .directory
  · obtain ⟨place, hl, hd⟩ := hr
    obtain ⟨ns, rfl, hf, _⟩ := (listing_files options accepts hl hd).mem_iff.mp h
    exact hf.exists_read? hl hd
  · rw [files_eq_nil fun place hl hd => hr ⟨place, hl, hd⟩] at h
    cases h

/-- The paths of a walk ascend strictly by their names below the root. Without links they are
those of the accepted files that the root holds, as deep as the options allow. There are none
if the root is not a directory. -/
theorem files_ascending_and_exact (d : Disk) (options : SearchOptions) (accepts : Text → Bool)
    (root : Path) :
    (d.files options accepts root).Pairwise (fun p q => root.below p < root.below q) ∧
    (∀ p ∈ d.files options accepts root,
      p = root.extend (root.below p) ∧ ∀ n ∈ root.below p, isName n = true) ∧
    (d.files options accepts root).Nodup ∧
    (∀ place, d.lookup? root = some place → d.get? place = some .directory →
      options.followLinks = false → ∀ p, p ∈ d.files options accepts root ↔
        ∃ ns, p = root.extend ns ∧ d.HoldsFile place ns ∧
          (∀ m ∈ options.maxDepth, ns.length ≤ m) ∧ LastAccepted accepts ns) ∧
    ((∀ place, d.lookup? root = some place → d.get? place ≠ some .directory) →
      d.files options accepts root = []) := by
  obtain ⟨ways, hp, hs, hw⟩ := exists_ways d options accepts root
  have hlt : (d.files options accepts root).Pairwise
      (fun p q => root.below p < root.below q) := by
    rw [hp]
    refine List.pairwise_map.mpr (hs.imp_of_mem fun ha hb h => ?_)
    rwa [(hw _ ha).1, (hw _ hb).1]
  refine ⟨hlt, ?_, ?_, ?_, files_eq_nil⟩
  · intro p hm
    rw [hp] at hm
    obtain ⟨ns, hns, rfl⟩ := List.mem_map.mp hm
    obtain ⟨hb, hn⟩ := hw ns hns
    rw [hb]
    exact ⟨rfl, hn⟩
  · refine hlt.imp fun h he => ?_
    subst he
    exact Std.lt_irrefl h
  · intro place hl hd hf p
    rw [(listing_files options accepts hl hd).mem_iff]
    simp only [finds_iff_holdsFile hf, and_assoc]

end Disk

end RailsLookup
