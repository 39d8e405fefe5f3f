import Mathlib
import RailsLookup.Proofs.Text.Case
import RailsLookup.Proofs.Text.Pieces
import RailsLookup.Proofs.Url.Percent
import RailsLookup.Url.Reader

/-! # Segments of paths

A dot segment is one that writes the bytes of a dot, however it is spelled. Encoding makes none,
so resolved segments are read back one by one, each as it is encoded.
-/

namespace RailsLookup.Url.Reader

variable {s t : Text} {ss done : List Text} {bytes : Bytes}

theorem toLower_eq_e_iff {c : Char} : c.toLower = 'e' ↔ c = 'e' ∨ c = 'E' := by
  constructor
  · intro h
    by_cases hc : c.isUpper
    · rw [Char.toLower_eq_of_isUpper hc] at h
      have hn : c.toNat + 32 = 101 := by
        have := congrArg Char.toNat h
        rw [Char.toNat_ofNat] at this
        split at this
        · exact this
        · cases this
      exact .inr (Char.ext (UInt32.toNat.inj (show c.toNat = 69 by omega)))
    · exact .inl ((Char.toLower_eq_of_not_isUpper hc).symm.trans h)
  · rintro (rfl | rfl) <;> rfl

theorem isDot_iff_map :
    isDot s = true ↔ s.map Char.toLower = ['.'] ∨ s.map Char.toLower = ['%', '2', 'e'] := by
  rw [isDot, List.contains_iff_mem, List.mem_cons, List.mem_singleton]
  exact or_congr String.ofList_inj String.ofList_inj

theorem isDot_iff : isDot s = true ↔ s = ['.'] ∨ s = ['%', '2', 'e'] ∨ s = ['%', '2', 'E'] := by
  have hdot {c : Char} : c.toLower = '.' ↔ c = '.' := Case.toLower_eq_iff (by decide)
  have hpercent {c : Char} : c.toLower = '%' ↔ c = '%' := Case.toLower_eq_iff (by decide)
  have htwo {c : Char} : c.toLower = '2' ↔ c = '2' := Case.toLower_eq_iff (by decide)
  rw [isDot_iff_map]
  simp only [List.map_eq_cons_iff, List.map_eq_nil_iff, hdot, hpercent, htwo, toLower_eq_e_iff]
  aesop

theorem isDotDot_iff :
    isDotDot s = true ↔ ∃ d e, isDot d = true ∧ isDot e = true ∧ s = d ++ e := by
  have hmap : isDotDot s = true ↔ s.map Char.toLower = ['.'] ++ ['.'] ∨
      s.map Char.toLower = ['.'] ++ ['%', '2', 'e'] ∨
      s.map Char.toLower = ['%', '2', 'e'] ++ ['.'] ∨
      s.map Char.toLower = ['%', '2', 'e'] ++ ['%', '2', 'e'] := by
    rw [isDotDot, List.contains_iff_mem]
    simp only [List.mem_cons, List.not_mem_nil, or_false]
    exact or_congr String.ofList_inj (or_congr String.ofList_inj
      (or_congr String.ofList_inj String.ofList_inj))
  rw [hmap]
  constructor
  · rintro (h | h | h | h) <;> obtain ⟨d, e, rfl, hd, he⟩ := List.map_eq_append_iff.mp h
    · exact ⟨d, e, isDot_iff_map.mpr (.inl hd), isDot_iff_map.mpr (.inl he), rfl⟩
    · exact ⟨d, e, isDot_iff_map.mpr (.inl hd), isDot_iff_map.mpr (.inr he), rfl⟩
    · exact ⟨d, e, isDot_iff_map.mpr (.inr hd), isDot_iff_map.mpr (.inl he), rfl⟩
    · exact ⟨d, e, isDot_iff_map.mpr (.inr hd), isDot_iff_map.mpr (.inr he), rfl⟩
  · rintro ⟨d, e, hd, he, rfl⟩
    rw [List.map_append]
    rcases isDot_iff_map.mp hd with hd | hd <;> rcases isDot_iff_map.mp he with he | he <;>
      simp [hd, he]

theorem isDot_of_number? {a b : Char} {n : Nat} (h : Digits.number? 16 [a, b] = some n)
    (hn : UInt8.ofNat n = 0x2E) : isDot ['%', a, b] = true := by
  obtain ⟨i, hi, j, hj, ha, hb, rfl⟩ := Percent.number?_pair.mp h
  have hij : i * 16 + j = 0x2E := by
    have := congrArg UInt8.toNat hn
    rw [UInt8.toNat_ofNat'] at this
    change (i * 16 + j) % 256 = 46 at this
    omega
  obtain ⟨rfl, rfl⟩ : i = 2 ∧ j = 14 := by omega
  have ha : a.toNat = '2'.toNat := by
    rcases Digits.toNat_of_value? ha with ⟨_, ha⟩ | ⟨hlt, _⟩
    · exact ha
    · omega
  have hb : b.toNat = 'e'.toNat ∨ b.toNat = 'E'.toNat := by
    rcases Digits.toNat_of_value? hb with ⟨hlt, _⟩ | ⟨_, hb⟩
    · omega
    · exact hb
  simp only [Char.toNat_inj] at ha hb
  rcases hb with rfl | rfl <;> subst ha <;> decide

/-- The first byte that a text writes is a dot just if a spelling of a dot stands in front. -/
theorem decode_eq_dot_cons_iff :
    Percent.decode s = 0x2E :: bytes ↔
      ∃ d rest, isDot d = true ∧ s = d ++ rest ∧ Percent.decode rest = bytes := by
  constructor
  · intro h
    fun_cases Percent.decode s with
    | case1 => cases h
    | case2 a b rest n hn =>
      rw [Percent.decode, hn] at h
      obtain ⟨hd, hrest⟩ := List.cons.inj h
      exact ⟨['%', a, b], rest, isDot_of_number? hn hd, rfl, hrest⟩
    | case3 a b rest hn =>
      rw [Percent.decode, hn] at h
      exact absurd (List.cons.inj h).1 (by decide)
    | case4 c rest hne =>
      by_cases hc : c = '%'
      · subst hc
        rw [Percent.decode_percent_of_none fun a b rest' he => (hne a b rest' rfl he).elim] at h
        exact absurd (List.cons.inj h).1 (by decide)
      · rw [Percent.decode_cons_of_ne hc] at h
        obtain ⟨b, bs, hb⟩ := List.exists_cons_of_ne_nil (String.utf8EncodeChar_ne_nil (c := c))
        rw [hb, List.cons_append] at h
        obtain ⟨rfl, hrest⟩ := List.cons.inj h
        have hdot : '.' ∈ [c] :=
          Text.mem_of_mem_utf8 (b := 0x2E) (by decide) (by simp [hb])
        obtain rfl := List.mem_singleton.mp hdot
        obtain rfl : bs = [] := (List.cons.inj hb).2.symm
        exact ⟨['.'], rest, by decide, rfl, hrest⟩
  · rintro ⟨d, rest, hd, rfl, rfl⟩
    rcases isDot_iff.mp hd with rfl | rfl | rfl
    · exact Percent.decode_cons_of_ne (by decide) rest
    · rfl
    · rfl

theorem isDot_iff_decode : isDot s = true ↔ Percent.decode s = [0x2E] := by
  rw [decode_eq_dot_cons_iff]
  constructor
  · exact fun h => ⟨s, [], h, (List.append_nil s).symm, rfl⟩
  · rintro ⟨d, rest, hd, rfl, hrest⟩
    rwa [Percent.decode_eq_nil_iff.mp hrest, List.append_nil]

theorem isDotDot_iff_decode : isDotDot s = true ↔ Percent.decode s = [0x2E, 0x2E] := by
  rw [isDotDot_iff, decode_eq_dot_cons_iff]
  constructor
  · rintro ⟨d, e, hd, he, rfl⟩
    exact ⟨d, e, hd, rfl, isDot_iff_decode.mp he⟩
  · rintro ⟨d, e, hd, rfl, he⟩
    exact ⟨d, e, hd, isDot_iff_decode.mpr he, rfl⟩

/-- A segment as it is kept in a URL. -/
def written (s : Text) : Text := Percent.encode Percent.inPath s.utf8

theorem mem_written {c : Char} (h : c ∈ written s) :
    Percent.Stands Percent.inPath c ∧ (c ∈ Percent.marks ∨ c ∈ s) := by
  rcases Percent.mem_encode_utf8 h with hm | ⟨hc, hs⟩
  · exact ⟨Text.forall_of_all (by decide) c hm, .inl hm⟩
  · exact ⟨hc, .inr hs⟩

/-- A segment writes the same bytes as it is given and as it is kept. -/
theorem decode_written (s : Text) : Percent.decode (written s) = Percent.decode s := by
  refine Percent.decode_encode_utf8 (fun c hc => ?_) s
  rcases hc with rfl | hc
  · exact ⟨by decide, by decide⟩
  · obtain ⟨n, hn⟩ := Option.isSome_iff_exists.mp hc
    have hdigit := Digits.toNat_of_value? hn
    have hin : ∀ d ∈ Percent.inPath, ¬(48 ≤ d.toNat ∧ d.toNat ≤ 57) ∧
        ¬(65 ≤ d.toNat ∧ d.toNat ≤ 70) ∧ ¬(97 ≤ d.toNat ∧ d.toNat ≤ 102) :=
      Text.forall_of_all (by decide)
    exact ⟨by omega, fun hm => by have := hin c hm; omega⟩

theorem isDot_written : isDot (written s) = isDot s := by
  rw [Bool.eq_iff_iff, isDot_iff_decode, isDot_iff_decode, decode_written]

theorem isDotDot_written : isDotDot (written s) = isDotDot s := by
  rw [Bool.eq_iff_iff, isDotDot_iff_decode, isDotDot_iff_decode, decode_written]

/-- Nothing is left to be resolved in the segment. -/
def Settled (s : Text) : Prop := '/' ∉ s ∧ isDot s = false ∧ isDotDot s = false

theorem settled_nil : Settled [] := ⟨List.not_mem_nil, by decide, by decide⟩

theorem Settled.written (h : Settled s) : Settled (written s) := by
  refine ⟨fun hm => ?_, ?_, ?_⟩
  · rcases (mem_written hm).2 with hm | hm
    · exact absurd hm (by decide)
    · exact h.1 hm
  · rw [isDot_written, h.2.1]
  · rw [isDotDot_written, h.2.2]

/-- The segment is read as it is written. -/
structure Kept (s : Text) : Prop where
  settled : Settled s
  written : Reader.written s = s

theorem kept_nil : Kept [] := ⟨settled_nil, rfl⟩

theorem Settled.kept_written (h : Settled s) : Kept (Reader.written s) :=
  ⟨h.written, Percent.encode_eq_self fun _ hc => (mem_written hc).1⟩

theorem up_subset (done : List Text) : up done ⊆ done := by
  unfold up
  split
  · exact List.Subset.refl _
  · split
    · exact List.Subset.refl _
    · exact List.subset_cons_self _ _

/-- What holds of the empty segment and of all that are not dots holds of what is left. -/
theorem forall_mem_resolveDots {P : Text → Prop} (hnil : P [])
    (hss : ∀ x ∈ ss, isDot x = false → isDotDot x = false → P (written x))
    (hdone : ∀ s ∈ done, P s) : ∀ s ∈ resolveDots done ss, P s := by
  have hup {done : List Text} (h : ∀ s ∈ done, P s) : ∀ s ∈ up done, P s :=
    fun s hs => h s (up_subset done hs)
  fun_induction resolveDots done ss with
  | case1 done => simpa using hdone
  | case2 done x rest hx hr =>
    intro s hs
    rw [List.mem_reverse, List.mem_cons] at hs
    rcases hs with rfl | hs
    · exact hnil
    · exact hup hdone s hs
  | case3 done x rest hx hr ih =>
    exact ih (fun y hy => hss y (List.mem_cons_of_mem _ hy)) (hup hdone)
  | case4 done x rest hdd hd hr =>
    intro s hs
    rw [List.mem_reverse, List.mem_cons] at hs
    rcases hs with rfl | hs
    · exact hnil
    · exact hdone s hs
  | case5 done x rest hdd hd hr ih =>
    exact ih (fun y hy => hss y (List.mem_cons_of_mem _ hy)) hdone
  | case6 done x rest hdd hd ih =>
    have hx : P (written x) :=
      hss x List.mem_cons_self (Bool.eq_false_iff.mpr hd) (Bool.eq_false_iff.mpr hdd)
    exact ih (fun y hy => hss y (List.mem_cons_of_mem _ hy)) (List.forall_mem_cons.mpr ⟨hx, hdone⟩)

theorem resolveDots_ne_nil (h : ss ≠ [] ∨ done ≠ []) : resolveDots done ss ≠ [] := by
  fun_induction resolveDots done ss with
  | case1 done => simpa using h
  | case2 done x rest hx hr => simp
  | case3 done x rest hx hr ih => exact ih (.inl (by simpa using hr))
  | case4 done x rest hdd hd hr => simp
  | case5 done x rest hdd hd hr ih => exact ih (.inl (by simpa using hr))
  | case6 done x rest hdd hd ih => exact ih (.inr (List.cons_ne_nil _ _))

theorem resolveDots_of_kept (h : ∀ s ∈ ss, Kept s) (done : List Text) :
    resolveDots done ss = done.reverse ++ ss := by
  induction ss generalizing done with
  | nil => simp [resolveDots]
  | cons s ss ih =>
    rw [List.forall_mem_cons] at h
    obtain ⟨⟨⟨_, hd, hdd⟩, hw⟩, h⟩ := h
    rw [resolveDots, hdd, hd]
    simp only [Bool.false_eq_true, if_false]
    rw [← written, hw, ih h, List.reverse_cons, List.append_assoc, List.singleton_append]

/-- The segments of a path are settled and kept as they are written in it. -/
theorem exists_of_mem_resolveDots (t : Text) :
    ∀ s ∈ resolveDots [] (t.splitOn '/'), ∃ x, x ⊆ t ∧ Settled x ∧ s = written x := by
  refine forall_mem_resolveDots ⟨[], List.nil_subset t, settled_nil, rfl⟩ ?_ (by simp)
  intro x hx hd hdd
  obtain ⟨hsub, hslash⟩ := Text.mem_splitOn hx
  exact ⟨x, hsub, ⟨hslash, hd, hdd⟩, rfl⟩

theorem mem_resolveDots (h : s ∈ resolveDots [] (t.splitOn '/')) :
    Kept s ∧ ('\\' ∈ s → '\\' ∈ t) := by
  obtain ⟨x, hsub, hx, rfl⟩ := exists_of_mem_resolveDots t s h
  have hmarks : '\\' ∉ Percent.marks := by decide
  exact ⟨hx.kept_written, fun hc => hsub ((mem_written hc).2.resolve_left hmarks)⟩

theorem mem_segments (h : s ∈ segments t) : Kept s ∧ ('\\' ∈ s → '\\' ∈ t) := by
  unfold segments at h
  split at h
  · obtain ⟨hk, hb⟩ := mem_resolveDots h
    exact ⟨hk, fun hc => List.mem_cons_of_mem _ (hb hc)⟩
  · exact mem_resolveDots h

theorem segments_ne_nil (t : Text) : segments t ≠ [] :=
  resolveDots_ne_nil (.inl (List.splitOn_ne_nil _ _))

theorem toText_segments (hss : ss ≠ []) :
    UrlPath.toText (.segments ss) = '/' :: ['/'].intercalate ss :=
  flatMap_cons_eq '/' hss

theorem splitOn_intercalate_of_kept (hss : ss ≠ []) (h : ∀ s ∈ ss, Kept s) :
    (['/'].intercalate ss).splitOn '/' = ss :=
  List.splitOn_intercalate _ (fun s hs => (h s hs).settled.1) hss

theorem segments_toText (hss : ss ≠ []) (h : ∀ s ∈ ss, Kept s) :
    segments (UrlPath.toText (.segments ss)) = ss := by
  rw [toText_segments hss, segments, splitOn_intercalate_of_kept hss h, resolveDots_of_kept h]
  rfl

theorem segments_dot_toText (hss : ss ≠ []) (h : ∀ s ∈ ss, Kept s) :
    segments ("/.".toList ++ UrlPath.toText (.segments ss)) = ss := by
  have hdot : "/.".toList ++ UrlPath.toText (.segments ss) =
      UrlPath.toText (.segments (['.'] :: ss)) := rfl
  have hsplit : (['/'].intercalate (['.'] :: ss)).splitOn '/' = ['.'] :: ss := by
    refine List.splitOn_intercalate _ (List.forall_mem_cons.mpr ⟨by decide, ?_⟩) (by simp)
    exact fun s hs => (h s hs).settled.1
  have hne : ss.isEmpty = false := by simpa using hss
  rw [hdot, toText_segments (by simp), segments, hsplit, resolveDots]
  simp only [hne, show isDotDot ['.'] = false by decide, show isDot ['.'] = true by decide,
    Bool.false_eq_true, if_false, if_true]
  rw [resolveDots_of_kept h]
  rfl

theorem dropEmpty_dropEmpty (ss : List Text) : dropEmpty (dropEmpty ss) = dropEmpty ss := by
  have hhead := List.head?_dropWhile_not List.isEmpty ss
  unfold dropEmpty
  cases hd : ss.dropWhile List.isEmpty with
  | nil => rfl
  | cons s rest =>
    rw [hd] at hhead
    simp only [List.head?_cons] at hhead
    simp [hhead]

theorem dropEmpty_nil_cons (ss : List Text) : dropEmpty ([] :: ss) = dropEmpty ss := rfl

theorem mem_dropEmpty (h : s ∈ dropEmpty ss) : s = [] ∨ s ∈ ss := by
  unfold dropEmpty at h
  split at h
  · exact .inl (List.mem_singleton.mp h)
  · exact .inr ((List.dropWhile_suffix _).subset h)

theorem dropEmpty_ne_nil (ss : List Text) : dropEmpty ss ≠ [] := by
  unfold dropEmpty
  split
  · simp
  · next h => exact h

theorem isDrive_iff :
    isDrive s = true ↔ ∃ a b, s = [a, b] ∧ a.isAlpha = true ∧ (b = ':' ∨ b = '|') := by
  unfold isDrive
  split
  · simp
  · next h => simpa using fun a b hs => (h a b hs).elim

theorem kept_drive {a : Char} (ha : a.isAlpha = true) : Kept [a, ':'] := by
  have hstands : Percent.Stands Percent.inPath a := by
    have hin : ∀ c ∈ Percent.inPath, c.isAlpha = false := Text.forall_of_all (by decide)
    refine ⟨?_, fun hm => by simp [hin a hm] at ha⟩
    simp only [Char.isAlpha, Char.isUpper, Char.isLower, Bool.or_eq_true, Bool.and_eq_true,
      decide_eq_true_eq, ge_iff_le, UInt32.le_iff_toNat_le] at ha
    change 65 ≤ a.toNat ∧ a.toNat ≤ 90 ∨ 97 ≤ a.toNat ∧ a.toNat ≤ 122 at ha
    omega
  refine ⟨⟨?_, ?_, ?_⟩, Percent.encode_eq_self ?_⟩
  · rw [List.mem_cons, not_or]
    refine ⟨?_, by decide⟩
    rintro rfl
    cases ha
  · simp [Bool.eq_false_iff, isDot_iff]
  · rw [Bool.eq_false_iff, Ne, isDotDot_iff]
    rintro ⟨d, e, hd, he, h⟩
    rcases isDot_iff.mp hd with rfl | rfl | rfl <;> rcases isDot_iff.mp he with rfl | rfl | rfl <;>
      simp at h
  · exact List.forall_mem_cons.mpr ⟨hstands, Text.forall_of_all (by decide)⟩

theorem settleDrive_eq_self (h : ss.head?.any isDrive = false) : settleDrive ss = ss := by
  unfold settleDrive
  split
  · next a b ss =>
    have hd : isDrive [a, b] = false := h
    rw [hd]
    rfl
  · rfl

theorem mem_settleDrive (h : s ∈ settleDrive ss) :
    s ∈ ss ∨ ∃ a : Char, a.isAlpha = true ∧ s = [a, ':'] := by
  unfold settleDrive at h
  split at h
  · next a b ss =>
    rcases List.mem_cons.mp h with rfl | h
    · split
      · next hd =>
        obtain ⟨_, _, hab, ha, _⟩ := isDrive_iff.mp hd
        obtain rfl := (List.cons.inj hab).1
        exact .inr ⟨a, ha, rfl⟩
      · exact .inl List.mem_cons_self
    · exact .inl (List.mem_cons_of_mem _ h)
  · exact .inl h

theorem mem_fileSegments (h : s ∈ fileSegments t) : Kept s ∧ ('\\' ∈ s → '\\' ∈ t) := by
  rcases mem_dropEmpty h with rfl | h
  · exact ⟨kept_nil, by simp⟩
  rcases mem_settleDrive h with h | ⟨a, ha, rfl⟩
  · exact mem_resolveDots h
  · refine ⟨kept_drive ha, fun hm => ?_⟩
    obtain rfl : '\\' = a := by simpa using hm
    cases ha

/-- Segments are read back after a slash, and also without it if they do not begin with a drive. -/
theorem fileSegments_toText (hss : ss ≠ []) (h : ∀ s ∈ ss, Kept s) (hd : dropEmpty ss = ss) :
    fileSegments (UrlPath.toText (.segments ss)) = ss := by
  have hsplit : (UrlPath.toText (.segments ss)).splitOn '/' = [] :: ss := by
    rw [toText_segments hss, Text.splitOn_cons_self, splitOn_intercalate_of_kept hss h]
  rw [fileSegments, hsplit, resolveDots_of_kept (List.forall_mem_cons.mpr ⟨kept_nil, h⟩)]
  exact (dropEmpty_nil_cons ss).trans hd

theorem fileSegments_intercalate (hss : ss ≠ []) (h : ∀ s ∈ ss, Kept s) (hd : dropEmpty ss = ss)
    (hf : ss.head?.any isDrive = false) : fileSegments (['/'].intercalate ss) = ss := by
  rw [fileSegments, splitOn_intercalate_of_kept hss h, resolveDots_of_kept h]
  exact (congrArg dropEmpty (settleDrive_eq_self hf)).trans hd

end RailsLookup.Url.Reader
