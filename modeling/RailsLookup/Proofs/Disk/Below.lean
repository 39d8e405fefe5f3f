import RailsLookup.Disk.Walk

/-! # Paths below a path

Names are added to a path one by one and can be read off again. A path that leads to a
directory leads, with a name added, to the entry of that name.
-/

namespace RailsLookup

theorem Disk.isName_iff {n : Name} :
    isName n = true ↔ n ≠ [] ∧ n ≠ Path.dot ∧ n ≠ Path.dotDot ∧ Path.slash ∉ n := by
  simp [isName, and_assoc]

namespace Path

open Disk

variable {p root : Path} {n : Name} {ns : List Name}

theorem step?_of_isName (hn : isName n = true) : step? n = some (.name n) := by
  obtain ⟨hempty, hdot, hup, _⟩ := isName_iff.mp hn
  simp [step?, hempty, hdot, hup]

def extend (p : Path) (ns : List Name) : Path := ns.foldl (fun q n => q.join ⟨n⟩) p

def names (p : Path) : List Name := p.pieces.filter (!·.isEmpty)

/-- The names that a path has beyond those of `root`. -/
def below (root p : Path) : List Name := p.names.drop root.names.length

@[simp] theorem extend_nil (p : Path) : p.extend [] = p := rfl

@[simp] theorem extend_cons (p : Path) (n : Name) (ns : List Name) :
    p.extend (n :: ns) = (p.join ⟨n⟩).extend ns := rfl

theorem isAbsolute_name_append (hn : isName n = true) (more : Bytes) :
    (⟨n ++ more⟩ : Path).isAbsolute = false := by
  obtain ⟨hne, _, _, hs⟩ := isName_iff.mp hn
  obtain ⟨b, rest, rfl⟩ := List.exists_cons_of_ne_nil hne
  have hb : b ≠ slash := fun h => hs (h ▸ List.mem_cons_self)
  simpa [isAbsolute] using hb

theorem join_name (hp : p.bytes ≠ []) (hn : isName n = true) :
    p.join ⟨n⟩ =
      if p.bytes.getLast? = some slash then ⟨p.bytes ++ n⟩ else ⟨p.bytes ++ slash :: n⟩ := by
  have ha := isAbsolute_name_append hn []
  rw [List.append_nil] at ha
  simp [join, ha, hp]

theorem bytes_join_ne_nil (hp : p.bytes ≠ []) (hn : isName n = true) :
    (p.join ⟨n⟩).bytes ≠ [] := by
  rw [join_name hp hn]
  split <;> simp [hp]

theorem isAbsolute_join (hp : p.bytes ≠ []) (hn : isName n = true) :
    (p.join ⟨n⟩).isAbsolute = p.isAbsolute := by
  obtain ⟨b, rest, hb⟩ := List.exists_cons_of_ne_nil hp
  rw [join_name hp hn]
  split <;> simp [isAbsolute, hb]

/-- A name comes after the pieces of a path, and takes the place of the empty piece after a last
slash. -/
theorem pieces_join (hp : p.bytes ≠ []) (hn : isName n = true) :
    ∃ front, front ≠ [] ∧ (p.pieces = front ∨ p.pieces = front ++ [[]]) ∧
      (p.join ⟨n⟩).pieces = front ++ [n] := by
  obtain ⟨_, _, _, hs⟩ := isName_iff.mp hn
  have hsn : n.splitOn slash = [n] := List.splitOn_eq_singleton hs
  rw [join_name hp hn]
  split
  · next hl =>
    obtain ⟨front, hf⟩ := List.getLast?_eq_some_iff.mp hl
    refine ⟨front.splitOn slash, List.splitOn_ne_nil _ _, .inr ?_, ?_⟩
    · rw [pieces, hf, List.splitOn_append_cons_self, List.splitOn_nil]
    · rw [pieces, hf, List.append_assoc, List.singleton_append, List.splitOn_append_cons_self, hsn]
  · refine ⟨p.pieces, List.splitOn_ne_nil _ _, .inl rfl, ?_⟩
    rw [pieces, List.splitOn_append_cons_self, hsn, pieces]

theorem names_join (hp : p.bytes ≠ []) (hn : isName n = true) :
    (p.join ⟨n⟩).names = p.names ++ [n] := by
  obtain ⟨front, -, hf, hj⟩ := pieces_join hp hn
  have hne := (isName_iff.mp hn).1
  unfold names
  rcases hf with hf | hf <;> simp [hj, hf, hne]

theorem names_extend (hp : p.bytes ≠ []) (hn : ∀ n ∈ ns, isName n = true) :
    (p.extend ns).names = p.names ++ ns := by
  induction ns generalizing p with
  | nil => simp
  | cons n ns ih =>
    obtain ⟨hn, hns⟩ := List.forall_mem_cons.mp hn
    rw [extend_cons, ih (bytes_join_ne_nil hp hn) hns, names_join hp hn, List.append_assoc,
      List.singleton_append]

theorem below_extend (hp : root.bytes ≠ []) (hn : ∀ n ∈ ns, isName n = true) :
    root.below (root.extend ns) = ns := by
  rw [below, names_extend hp hn, List.drop_left]

theorem components_join (hp : p.bytes ≠ []) (hn : isName n = true) :
    (p.join ⟨n⟩).components = p.components ++ [.name n] := by
  obtain ⟨front, hne, hf, hpieces⟩ := pieces_join hp hn
  obtain ⟨piece, front, rfl⟩ := List.exists_cons_of_ne_nil hne
  have hsteps : p.pieces.filterMap step? = (piece :: front).filterMap step? := by
    rcases hf with hf | hf
    · rw [hf]
    · rw [hf, List.filterMap_append]
      simp [step?]
  have hhead : p.pieces.head? = some piece := by
    rcases hf with hf | hf <;> simp [hf]
  dsimp only [components]
  rw [hpieces, List.filterMap_append, List.filterMap_cons_some (step?_of_isName hn),
    List.filterMap_nil, hsteps, isAbsolute_join hp hn, hhead, List.cons_append, List.head?_cons]
  split
  · rfl
  · split <;> rfl

theorem components_extend (hp : p.bytes ≠ []) (hn : ∀ n ∈ ns, isName n = true) :
    (p.extend ns).components = p.components ++ ns.map .name := by
  induction ns generalizing p with
  | nil => simp
  | cons n ns ih =>
    obtain ⟨hn, hns⟩ := List.forall_mem_cons.mp hn
    rw [extend_cons, ih (bytes_join_ne_nil hp hn) hns, components_join hp hn, List.append_assoc,
      List.map_cons, List.singleton_append]

theorem dropLast_components_extend (hp : p.bytes ≠ []) (hn : ∀ n ∈ ns, isName n = true)
    (hne : ns ≠ []) :
    (p.extend ns).components.dropLast = (p.extend ns.dropLast).components := by
  have hdrop : ∀ n ∈ ns.dropLast, isName n = true := fun n h =>
    hn n ((List.dropLast_sublist ns).subset h)
  rw [components_extend hp hn, components_extend hp hdrop, List.map_dropLast,
    List.dropLast_append_of_ne_nil (by simpa using hne)]

theorem fileName?_extend (hp : p.bytes ≠ []) (hn : ∀ n ∈ ns, isName n = true) (hne : ns ≠ []) :
    (p.extend ns).fileName? = ns.getLast? := by
  rw [fileName?, components_extend hp hn, List.getLast?_append, List.getLast?_map,
    List.getLast?_eq_some_getLast hne]
  rfl

theorem bytes_join {q : Path} (h : q.isAbsolute = false) :
    (p.join q).bytes = (p.join (.ofText [])).bytes ++ q.bytes := by
  have hnil : (ofText []).isAbsolute = false := rfl
  simp only [join, h, hnil, Bool.false_eq_true, if_false]
  split <;> simp [ofText, Text.utf8]

/-- To add a name and then a relative path is to add both with a slash between them. -/
theorem join_join_name {q : Path} (hn : isName n = true) (hq : q.isAbsolute = false) (p : Path) :
    (p.join ⟨n⟩).join q = p.join ⟨n ++ slash :: q.bytes⟩ := by
  obtain ⟨hne, _, _, hs⟩ := isName_iff.mp hn
  have hrel := isAbsolute_name_append hn []
  rw [List.append_nil] at hrel
  have hbytes := bytes_join (p := p) hrel
  have hlast : (p.join ⟨n⟩).bytes.getLast? ≠ some slash := by
    rw [hbytes, List.getLast?_append, List.getLast?_eq_some_getLast hne]
    intro h
    exact hs (Option.some.inj h ▸ List.getLast_mem hne)
  have hempty : (p.join ⟨n⟩).bytes ≠ [] := by simp [hbytes, hne]
  calc (p.join ⟨n⟩).join q
    _ = ⟨(p.join ⟨n⟩).bytes ++ slash :: q.bytes⟩ := by
      rw [join, if_neg (by simp [hq]), if_neg (by simp [hempty, hlast])]
    _ = ⟨(p.join (.ofText [])).bytes ++ (n ++ slash :: q.bytes)⟩ := by
      rw [hbytes, List.append_assoc]
    _ = p.join ⟨n ++ slash :: q.bytes⟩ :=
      congrArg Path.mk (bytes_join (isAbsolute_name_append hn _)).symm

theorem join_intercalate (hne : ns ≠ []) (hn : ∀ n ∈ ns, isName n = true) (p : Path) :
    p.join ⟨[slash].intercalate ns⟩ = p.extend ns := by
  induction ns generalizing p with
  | nil => exact absurd rfl hne
  | cons n ns ih =>
    obtain ⟨hfirst, hrest⟩ := List.forall_mem_cons.mp hn
    cases ns with
    | nil => simp
    | cons m ns =>
      have hrel : (⟨[slash].intercalate (m :: ns)⟩ : Path).isAbsolute = false := by
        have hm := isAbsolute_name_append (List.forall_mem_cons.mp hrest).1
        cases ns with
        | nil => simpa using hm []
        | cons k ns => simpa using hm (slash :: [slash].intercalate (k :: ns))
      rw [extend_cons, ← ih (by simp) hrest, join_join_name hfirst hrel]
      simp

theorem bytes_join_nil (p : Path) :
    (p.join (.ofText [])).bytes = [] ∧ p.bytes = [] ∨
      ∃ b, (p.join (.ofText [])).bytes = b ++ [slash] ∧ (p.bytes = b ∨ p.bytes = b ++ [slash]) := by
  have hnil : (ofText []).isAbsolute = false := rfl
  rw [join, if_neg (by simp [hnil])]
  split
  · next h =>
    rw [Bool.or_eq_true, List.isEmpty_iff, beq_iff_eq, List.getLast?_eq_some_iff] at h
    obtain h | ⟨b, h⟩ := h
    · exact .inl ⟨by simp [h, ofText, Text.utf8], h⟩
    · exact .inr ⟨b, by simp [h, ofText, Text.utf8], .inr h⟩
  · exact .inr ⟨p.bytes, rfl, .inl rfl⟩

theorem names_join_relative {q : Path} (h : q.isAbsolute = false) :
    (p.join q).names = p.names ++ q.names := by
  unfold names pieces
  rw [bytes_join h]
  obtain ⟨he, hp⟩ | ⟨b, he, hp⟩ := p.bytes_join_nil
  · simp [he, hp]
  · rw [he, List.append_assoc, List.singleton_append, List.splitOn_append_cons_self,
      List.filter_append]
    rcases hp with rfl | hp
    · rfl
    · rw [hp, List.splitOn_append_cons_self]
      simp

end Path

/-- The place that names lead to from the root. -/
def Place.ofStrings (names : List String) : Place :=
  (names.map fun n => Text.utf8 n.toList).reverse

namespace Disk

variable {d : Disk} {links : Nat} {place goal : Place} {front back : List Name} {n : Name}

/-- Pieces that lead to a directory can be left out; some of the links have been used up then. -/
theorem exists_follow_append (h : d.follow links place front = some goal)
    (hd : d.get? goal = some .directory) (back : List Name) :
    ∃ links', d.follow links place (front ++ back) = d.follow links' goal back := by
  fun_induction d.follow links place front with
  | case1 links place =>
    obtain rfl := Option.some.inj h
    exact ⟨links, rfl⟩
  | case2 links place piece rest hs ih =>
    rw [List.cons_append, follow, if_pos hs]
    exact ih h
  | case3 links place piece rest hs hu ih =>
    rw [List.cons_append, follow, if_neg hs, if_pos hu]
    exact ih h
  | case5 links place piece rest hs hu he ih =>
    rw [List.cons_append, follow, if_neg hs, if_neg hu, he]
    exact ih h
  | case6 links place piece rest hs hu content he hr =>
    obtain rfl := Option.some.inj h
    rw [hd] at he
    cases he
  | case9 place piece rest hs hu target he links ih =>
    rw [List.cons_append, follow, if_neg hs, if_neg hu, he]
    simp only [dite_eq_ite, List.append_assoc] at ih
    exact ih h
  | case4 | case7 | case8 => cases h

theorem follow_of_follow_append_empty (h : d.follow links place (front ++ [[]]) = some goal) :
    d.follow links place front = some goal := by
  fun_induction d.follow links place front with
  | case1 links place => simpa [follow] using h
  | case2 links place piece rest hs ih =>
    rw [List.cons_append, follow, if_pos hs] at h
    exact ih h
  | case3 links place piece rest hs hu ih =>
    rw [List.cons_append, follow, if_neg hs, if_pos hu] at h
    exact ih h
  | case4 links place piece rest hs hu he =>
    rw [List.cons_append, follow, if_neg hs, if_neg hu, he] at h
    cases h
  | case5 links place piece rest hs hu he ih =>
    rw [List.cons_append, follow, if_neg hs, if_neg hu, he] at h
    exact ih h
  | case6 links place piece rest hs hu content he hr =>
    rw [List.cons_append, follow, if_neg hs, if_neg hu, he] at h
    simp at h
  | case7 links place piece rest hs hu content he hr =>
    rw [List.cons_append, follow, if_neg hs, if_neg hu, he] at h
    simp at h
  | case8 place piece rest hs hu target he =>
    rw [List.cons_append, follow, if_neg hs, if_neg hu, he] at h
    cases h
  | case9 place piece rest hs hu target he links ih =>
    rw [List.cons_append, follow, if_neg hs, if_neg hu, he] at h
    simp only [dite_eq_ite, List.append_assoc] at ih
    exact ih h

theorem follow_name (hn : isName n = true) {e : Entry} (he : d.get? (n :: place) = some e)
    (hl : ∀ target, e ≠ .link target) : d.follow links place [n] = some (n :: place) := by
  obtain ⟨hne, hdot, hup, _⟩ := isName_iff.mp hn
  rw [follow, if_neg (by simp [hne, hdot]), if_neg (by simp [hup]), he]
  cases e with
  | file content => rfl
  | directory => rw [follow]
  | link target => exact (hl target rfl).elim

theorem read?_eq_some_iff {p : Path} {content : Bytes} :
    d.read? p = some content ↔
      ∃ place, d.lookup? p = some place ∧ d.get? place = some (.file content) := by
  rw [← Option.bind_eq_some_iff, read?]
  split <;> simp_all

theorem bytes_ne_nil_of_lookup? {p : Path} (h : d.lookup? p = some place) : p.bytes ≠ [] := by
  intro hp
  simp [lookup?, hp] at h

theorem lookup?_join {p : Path} (h : d.lookup? p = some place)
    (hd : d.get? place = some .directory) (hn : isName n = true) {e : Entry}
    (he : d.get? (n :: place) = some e) (hl : ∀ target, e ≠ .link target) :
    d.lookup? (p.join ⟨n⟩) = some (n :: place) := by
  have hp := bytes_ne_nil_of_lookup? h
  have hj := Path.bytes_join_ne_nil hp hn
  rw [lookup?, if_neg (by simpa using hp)] at h
  rw [lookup?, if_neg (by simpa using hj), Path.isAbsolute_join hp hn]
  obtain ⟨front, -, hf, hpieces⟩ := Path.pieces_join hp hn
  have hfront : d.follow linkLimit (if p.isAbsolute then [] else d.working) front = some place := by
    rcases hf with rfl | hf
    · exact h
    · exact follow_of_follow_append_empty (hf ▸ h)
  obtain ⟨links, hlinks⟩ := exists_follow_append hfront hd [n]
  rw [hpieces, hlinks, follow_name hn he hl]

end Disk

end RailsLookup
