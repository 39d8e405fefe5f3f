import Mathlib
import RailsLookup.Proofs.Disk.Below
import RailsLookup.Proofs.Url.Spelling
import RailsLookup.Protocol.DocumentRange

/-! # Paths that come back from their URLs

The URL of a file has a segment for each name of its path. What stands for itself in a segment is
kept when the URL is read, and the rest is decoded. So the path comes back, with a slash added if it
ends as a drive does, and no two paths have the same URL.
-/

namespace RailsLookup

open Disk Url.Reader

namespace Path

variable {p p' : Path} {ns : List Name}

/-- A slash and then names with slashes between them. -/
def IsStraight (p : Path) : Prop :=
  ∃ ns : List Name, (∀ n ∈ ns, isName n = true) ∧ p.bytes = slash :: [slash].intercalate ns

theorem IsStraight.isAbsolute (h : p.IsStraight) : p.isAbsolute = true := by
  obtain ⟨ns, _, hp⟩ := h
  simp [Path.isAbsolute, hp]

def EndsInDrive (p : Path) : Prop :=
  ∃ front letter mark, p.bytes = front ++ [letter, mark] ∧
    (Char.ofNat letter.toNat).isAlpha = true ∧ (mark = 0x3A ∨ mark = 0x7C)

theorem endsInDrive_iff (h : p.isAbsolute = true) :
    Url.endsInDrive p.bytes = true ↔ p.EndsInDrive := by
  constructor
  · intro hd
    unfold Url.endsInDrive at hd
    split at hd
    · next mark letter x front hr =>
      rw [Bool.and_eq_true, Bool.or_eq_true, beq_iff_eq, beq_iff_eq] at hd
      refine ⟨(x :: front).reverse, letter, mark, ?_, hd⟩
      rw [← List.reverse_reverse p.bytes, hr]
      simp
    · cases hd
  · rintro ⟨front, letter, mark, hp, hd⟩
    -- The first byte is a slash, so something stands before the letter.
    have hfront : front ≠ [] := by
      rintro rfl
      rw [isAbsolute, hp, beq_iff_eq] at h
      obtain rfl : letter = slash := Option.some.inj h
      exact absurd hd.1 (by decide)
    obtain ⟨front, x, rfl⟩ := (List.eq_nil_or_concat front).resolve_left hfront
    simpa [Url.endsInDrive, hp] using hd

theorem components_append_slash (h : p.isAbsolute = true) :
    (⟨p.bytes ++ [slash]⟩ : Path).components = p.components := by
  have hpieces : (⟨p.bytes ++ [slash]⟩ : Path).pieces = p.pieces ++ [[]] := by
    rw [pieces, List.splitOn_append_cons_self, List.splitOn_nil, pieces]
  have habs : (⟨p.bytes ++ [slash]⟩ : Path).isAbsolute = true := by
    rw [isAbsolute, beq_iff_eq] at h ⊢
    rw [List.head?_append, h, Option.some_or]
  simp [components, habs, h, hpieces, step?]

/-- The path, with a slash after a drive at its end. -/
def closed (p : Path) : Path := ⟨if Url.endsInDrive p.bytes then p.bytes ++ [slash] else p.bytes⟩

theorem closed_of_endsInDrive (h : p.isAbsolute = true) (hd : p.EndsInDrive) :
    p.closed = ⟨p.bytes ++ [slash]⟩ := by
  rw [closed, if_pos ((endsInDrive_iff h).mpr hd)]

theorem closed_of_not_endsInDrive (h : p.isAbsolute = true) (hd : ¬p.EndsInDrive) :
    p.closed = p := by
  rw [closed, if_neg fun he => hd ((endsInDrive_iff h).mp he)]

theorem components_closed (h : p.isAbsolute = true) : p.closed.components = p.components := by
  by_cases hd : p.EndsInDrive
  · rw [closed_of_endsInDrive h hd, components_append_slash h]
  · rw [closed_of_not_endsInDrive h hd]

theorem components_of_straight (hn : ∀ n ∈ ns, isName n = true)
    (hp : p.bytes = slash :: [slash].intercalate ns) : p.components = .root :: ns.map .name := by
  have hsplit : p.pieces = [] :: ([slash].intercalate ns).splitOn slash := by
    rw [pieces, hp, ← List.nil_append (slash :: _), List.splitOn_append_cons_self, List.splitOn_nil]
    rfl
  have hsteps : ns.filterMap step? = ns.map .name := by
    rw [← List.filterMap_eq_map]
    exact List.filterMap_congr fun n h => step?_of_isName (hn n h)
  have hpieces : p.pieces.filterMap step? = ns.map .name := by
    rw [hsplit, List.filterMap_cons_none rfl]
    cases ns with
    | nil => rfl
    | cons n ns =>
      rw [List.splitOn_intercalate _ (fun n h => (isName_iff.mp (hn n h)).2.2.2) (by simp), hsteps]
  rw [components, if_pos (IsStraight.isAbsolute ⟨ns, hn, hp⟩), hpieces]

theorem IsStraight.eq_of_components_eq (h : p.IsStraight) (h' : p'.IsStraight)
    (hc : p.components = p'.components) : p = p' := by
  obtain ⟨ns, hn, hp⟩ := h
  obtain ⟨ns', hn', hp'⟩ := h'
  rw [components_of_straight hn hp, components_of_straight hn' hp', List.cons.injEq] at hc
  obtain rfl : ns = ns' := List.map_injective_iff.mpr (fun _ _ => Component.name.inj) hc.2
  exact congrArg Path.mk (hp.trans hp'.symm)

end Path

namespace Percent

variable {n : Name} {c : Char}

theorem decode_encode_inSegment (n : Name) : decode (encode inSegment n) = n := by
  have hplain : ∀ b ∈ n, isPlain inSegment b = true → b ≠ 0x25 := by
    rintro b _ hb rfl
    exact absurd hb (by decide)
  have h := decode_encode_append hplain []
  rwa [List.append_nil, show decode [] = [] from rfl, List.append_nil] at h

theorem mem_encode_inSegment (h : c ∈ encode inSegment n) :
    Stands inPath c ∧ c ∉ "/\\".toList := by
  have hmarks : ∀ c ∈ marks, Stands inPath c ∧ c ∉ "/\\".toList := Text.forall_of_all (by decide)
  have hpath : ∀ c ∈ inPath, c ∈ inSegment := Text.forall_of_all (by decide)
  have hrest : ∀ c ∈ "/\\".toList, c ∈ inSegment := Text.forall_of_all (by decide)
  rcases mem_encode h with hm | ⟨b, _, hb, rfl⟩
  · exact hmarks c hm
  · obtain ⟨hlo, hr⟩ := stands_of_isPlain hb
    exact ⟨⟨hlo, fun hm => hr (hpath _ hm)⟩, fun hm => hr (hrest _ hm)⟩

end Percent

namespace Url

open Percent

variable {s : Text} {ss : List Text} {n : Name} {ns : List Name} {p : Path}

theorem kept_encode (hn : isName n = true) : Kept (encode inSegment n) := by
  obtain ⟨_, hdot, hup, _⟩ := isName_iff.mp hn
  refine ⟨⟨fun hm => (mem_encode_inSegment hm).2 (by decide), ?_, ?_⟩,
    encode_eq_self fun c hc => (mem_encode_inSegment hc).1⟩
  · rw [Bool.eq_false_iff, Ne, isDot_iff_decode, decode_encode_inSegment]
    exact hdot
  · rw [Bool.eq_false_iff, Ne, isDotDot_iff_decode, decode_encode_inSegment]
    exact hup

def ofSegments (ss : List Text) : Url :=
  { scheme := "file".toList, authority? := some {}, path := .segments ss }

theorem spelled_ofSegments (hne : ss ≠ []) (hs : ∀ s ∈ ss, Kept s ∧ '\\' ∉ s)
    (hd : dropEmpty ss = ss) : Spelled (ofSegments ss) := by
  have hback : '\\' ∉ bodyText (some {}) (.segments ss) := by
    refine not_mem_bodyText (by decide) ?_ fun s h => (hs s h).2
    rintro a ⟨⟩
    decide
  have hbody : hierarchy? "file".toList (bodyText (some {}) (.segments ss)) =
      some (some {}, .segments ss) := by
    rw [hierarchy?_file, Text.replaceChar_eq_self hback]
    change (file? ("//".toList ++ UrlPath.toText (.segments ss))).map _ = _
    rw [file?_slashes hne (fun s h => (hs s h).1) hd]
    rfl
  have hscheme : isScheme "file".toList = true := by decide
  refine ⟨hscheme, rfl, ⟨_, hbody⟩, ?_, ?_⟩ <;> rintro _ ⟨⟩

theorem ofUrlText?_ofSegments (hne : ss ≠ []) (hs : ∀ s ∈ ss, Kept s ∧ '\\' ∉ s)
    (hd : dropEmpty ss = ss) :
    Path.ofUrlText? (ofSegments ss).toText = (UrlPath.segments ss).toPath? := by
  rw [(spelled_ofSegments hne hs hd).ofUrlText?_of_segments rfl, toPath?_eq]
  rfl

theorem toPath?_encode (hne : ns ≠ []) (hp : p.bytes = Path.slash :: [Path.slash].intercalate ns) :
    (UrlPath.segments (ns.map (encode inSegment))).toPath? = some p.closed := by
  have hbytes :
      (ns.map (encode inSegment)).flatMap (fun s => Path.slash :: decode s) = p.bytes := by
    rw [List.flatMap_map, hp, ← flatMap_cons_eq _ hne]
    simp only [decode_encode_inSegment]
  obtain ⟨n, ns, rfl⟩ := List.exists_cons_of_ne_nil hne
  rw [Path.closed, ← hbytes]
  rfl

theorem ofPath?_of_straight (hn : ∀ n ∈ ns, isName n = true)
    (hp : p.bytes = Path.slash :: [Path.slash].intercalate ns) :
    ofPath? p = some (ofSegments (if ns.isEmpty then [[]] else ns.map (encode inSegment))) := by
  rw [ofPath?, if_pos (Path.IsStraight.isAbsolute ⟨ns, hn, hp⟩), Path.components_of_straight hn hp]
  simp [ofSegments, componentBytes, Function.comp_def]

theorem exists_ofPath? (h : p.IsStraight) :
    ∃ u, ofPath? p = some u ∧ Path.ofUrlText? u.toText = some p.closed := by
  obtain ⟨ns, hn, hp⟩ := h
  refine ⟨_, ofPath?_of_straight hn hp, ?_⟩
  cases ns with
  | nil =>
    rw [List.isEmpty_nil, if_pos rfl, ofUrlText?_ofSegments (by simp) (by simp [kept_nil]) rfl,
      Path.closed, hp]
    rfl
  | cons n ns =>
    have hkept : ∀ s ∈ (n :: ns).map (encode inSegment), Kept s ∧ '\\' ∉ s := by
      intro s hs
      obtain ⟨m, hm, rfl⟩ := List.mem_map.mp hs
      exact ⟨kept_encode (hn m hm), fun hm => (mem_encode_inSegment hm).2 (by decide)⟩
    have hfirst : encode inSegment n ≠ [] := fun he =>
      (isName_iff.mp (hn n List.mem_cons_self)).1 (encode_eq_nil_iff.mp he)
    have hdrop : dropEmpty ((n :: ns).map (encode inSegment)) =
        (n :: ns).map (encode inSegment) := by
      simp [dropEmpty, hfirst]
    rw [if_neg (by simp), ofUrlText?_ofSegments (by simp) hkept hdrop, toPath?_encode (by simp) hp]

end Url

namespace Location

/-- The range of a straight path has a URL that is read as a path of the same components: the path
itself, unless it ends in a drive. So different paths have different URLs. -/
theorem toDocumentRange?_comes_back (l : Location) (h : l.path.IsStraight) :
    ∃ r q, l.toDocumentRange? = some r ∧ r.start = l.position ∧ r.stop = l.position ∧
      Path.ofUrlText? r.url.toText = some q ∧ q.components = l.path.components ∧
      (¬l.path.EndsInDrive → q = l.path) ∧
      (l.path.EndsInDrive → q = ⟨l.path.bytes ++ [Path.slash]⟩) ∧
      ∀ (l' : Location) (r' : DocumentRange), l'.path.IsStraight → l'.toDocumentRange? = some r' →
        r'.url.toText = r.url.toText → l'.path = l.path := by
  have habs := h.isAbsolute
  obtain ⟨u, hu, hread⟩ := Url.exists_ofPath? h
  refine ⟨⟨u, l.position, l.position⟩, l.path.closed, by rw [toDocumentRange?, hu]; rfl, rfl, rfl,
    hread, Path.components_closed habs, Path.closed_of_not_endsInDrive habs,
    Path.closed_of_endsInDrive habs, ?_⟩
  intro l' r' h' hr' htext
  obtain ⟨u', hu', hread'⟩ := Url.exists_ofPath? h'
  rw [toDocumentRange?, hu'] at hr'
  obtain rfl := Option.some.inj hr'
  -- One text is read as one path, and slashes at the end do not change the components.
  have hclosed : l'.path.closed = l.path.closed := by
    rw [htext, hread] at hread'
    exact (Option.some.inj hread').symm
  refine h'.eq_of_components_eq h ?_
  rw [← Path.components_closed h'.isAbsolute, hclosed, Path.components_closed habs]

theorem toDocumentRange?_comes_back_sale :
    let l : Location := ⟨.ofString "/srv/50%25 off/a#b?/Änderung:1", ⟨3, 7⟩⟩
    l.path.IsStraight ∧ ¬l.path.EndsInDrive ∧
      ∃ r, l.toDocumentRange? = some r ∧ Path.ofUrlText? r.url.toText = some l.path := by
  intro l
  have hstraight : l.path.IsStraight :=
    ⟨["srv", "50%25 off", "a#b?", "Änderung:1"].map fun n => Text.utf8 n.toList, by decide,
      by decide⟩
  have hdrive : ¬l.path.EndsInDrive := by
    rw [← Path.endsInDrive_iff hstraight.isAbsolute]
    decide
  obtain ⟨r, q, hr, _, _, hread, _, hsame, _⟩ := toDocumentRange?_comes_back l hstraight
  exact ⟨hstraight, hdrive, r, hr, hsame hdrive ▸ hread⟩

/-- A path comes back with a slash if its last name ends as a drive does, even if no name is a
drive. -/
theorem toDocumentRange?_gains_slash :
    let l : Location := ⟨.ofString "/srv/notes:", ⟨0, 0⟩⟩
    l.path.IsStraight ∧ (∀ n ∈ l.path.names, isDrive (Utf8.decode n) = false) ∧
      ∃ r, l.toDocumentRange? = some r ∧
        Path.ofUrlText? r.url.toText = some (.ofString "/srv/notes:/") ∧
        Path.ofUrlText? r.url.toText ≠ some l.path := by
  intro l
  have hstraight : l.path.IsStraight :=
    ⟨["srv", "notes:"].map fun n => Text.utf8 n.toList, by decide, by decide⟩
  have hnames : l.path.names = ["srv", "notes:"].map fun n => Text.utf8 n.toList := by decide
  refine ⟨hstraight, ?_, _, rfl, by decide +kernel, by decide +kernel⟩
  rw [hnames]
  decide +kernel

end Location

end RailsLookup
