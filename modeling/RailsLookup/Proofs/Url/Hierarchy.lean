import Mathlib
import RailsLookup.Proofs.Url.Authority
import RailsLookup.Proofs.Url.Segments
import RailsLookup.Url.FilePath

/-! # Hierarchies that are read again

What follows the scheme of a URL is an authority and a path. Their text is read as an authority
and a path that lead to the same file, or to none.
-/

namespace RailsLookup

def UrlPath.toPath? : UrlPath → Option Path
  | .segments (s :: ss) =>
    let bytes := (s :: ss).flatMap fun s => Path.slash :: Percent.decode s
    some ⟨if Url.endsInDrive bytes then bytes ++ [Path.slash] else bytes⟩
  | _ => none

namespace Url

/-- The file that an authority and a path lead to. -/
def located? (authority? : Option Authority) (path : UrlPath) : Option Path :=
  ((some ((authority?.map (·.host)).getD [])).filter Host.isLocal).bind fun _ => path.toPath?

theorem toPath?_eq (u : Url) : u.toPath? = located? u.authority? u.path := by
  unfold toPath? located? Host.isLocal
  rw [Option.filter_some]
  generalize (u.authority?.map (·.host)).getD [] = host
  rcases u.path with t | _ | ⟨s, ss⟩ <;> dsimp only [UrlPath.toPath?] <;> split <;> rfl

def bodyText (authority? : Option Authority) (path : UrlPath) : Text :=
  (match authority? with
    | some a => "//".toList ++ a.toText
    | none => if "//".toList.isPrefixOf path.toText then "/.".toList else []) ++ path.toText

theorem mem_bodyText {authority? : Option Authority} {ss : List Text} {c : Char}
    (h : c ∈ bodyText authority? (.segments ss)) :
    c ∈ ['/', '.'] ∨ (∃ a, authority? = some a ∧ c ∈ a.toText) ∨ ∃ s ∈ ss, c ∈ s := by
  have hslash : '/' ∈ ['/', '.'] := List.mem_cons_self
  rcases List.mem_append.mp h with h | h
  · cases authority? with
    | none =>
      dsimp only at h
      split at h
      · exact .inl h
      · cases h
    | some a =>
      rcases List.mem_append.mp h with h | h
      · rw [show c = '/' by simpa using h]
        exact .inl hslash
      · exact .inr (.inl ⟨a, rfl, h⟩)
  · obtain ⟨s, hs, h⟩ := List.mem_flatMap.mp h
    rcases List.mem_cons.mp h with rfl | h
    · exact .inl hslash
    · exact .inr (.inr ⟨s, hs, h⟩)

theorem not_mem_bodyText {authority? : Option Authority} {ss : List Text} {c : Char}
    (hc : c ∉ ['/', '.']) (ha : ∀ a, authority? = some a → c ∉ a.toText)
    (hss : ∀ s ∈ ss, c ∉ s) : c ∉ bodyText authority? (.segments ss) := by
  intro hm
  rcases mem_bodyText hm with hm | ⟨a, haa, hm⟩ | ⟨s, hs, hm⟩
  · exact hc hm
  · exact ha a haa hm
  · exact hss s hs hm

/-- The text has no blank and no mark of the parts that follow a path. -/
def Clean (t : Text) : Prop := ∀ c ∈ t, 0x20 < c.toNat ∧ c ∉ "#?".toList

theorem clean_bodyText {authority? : Option Authority} {ss : List Text}
    (ha : ∀ a, authority? = some a → Clean a.toText) (hss : ∀ s ∈ ss, Clean s) :
    Clean (bodyText authority? (.segments ss)) := by
  intro c hc
  have hmarks : ∀ c ∈ ['/', '.'], 0x20 < c.toNat ∧ c ∉ "#?".toList :=
    Text.forall_of_all (by decide)
  rcases mem_bodyText hc with hc | ⟨a, haa, hc⟩ | ⟨s, hs, hc⟩
  · exact hmarks c hc
  · exact ha a haa c hc
  · exact hss s hs c hc

namespace Reader

variable {t : Text} {ss : List Text} {a : Authority}

theorem Kept.clean {s : Text} (h : Kept s) : Clean s := by
  have hreserved : ∀ c ∈ "#?".toList, c ∈ Percent.inPath := Text.forall_of_all (by decide)
  intro c hc
  rw [← h.written] at hc
  obtain ⟨hs, _⟩ := mem_written hc
  exact ⟨hs.lt_toNat (by decide), fun hm => hs.2 (hreserved c hm)⟩

theorem file?_slashes (hne : ss ≠ []) (hs : ∀ s ∈ ss, Kept s) (hd : dropEmpty ss = ss) :
    file? ("//".toList ++ UrlPath.toText (.segments ss)) = some ({}, ss) := by
  have hread := fileSegments_toText hne hs hd
  rw [toText_segments hne] at hread ⊢
  simp [file?, isDrive, hread]

theorem file?_host {x : Text} (hx : x ≠ []) (hslash : '/' ∉ x) (hdrive : isDrive x = false)
    (hne : ss ≠ []) (hs : ∀ s ∈ ss, Kept s) (hd : dropEmpty ss = ss)
    (hfirst : ss.head?.any isDrive = false) :
    file? ("//".toList ++ (x ++ UrlPath.toText (.segments ss))) =
      (Host.special? x).map fun host =>
        ({ host := if host = "localhost".toList then [] else host }, ss) := by
  have hread := fileSegments_toText hne hs hd
  have hrest := fileSegments_intercalate hne hs hd hfirst
  rw [toText_segments hne] at hread ⊢
  have hempty : x.isEmpty = false := by simpa using hx
  rw [show "//".toList = ['/', '/'] from rfl, List.cons_append, List.singleton_append, file?,
    Text.takeWhile_ne_append hslash, Text.dropWhile_ne_append hslash, hdrive, hempty]
  simp only [Bool.false_eq_true, if_false]
  congr 1
  funext host
  rw [onHost, List.drop_one, List.tail_cons, hread, hrest]
  dsimp only
  rw [hfirst]
  split <;> rfl

theorem isDrive_of_special? {s x : Text} (h : Host.special? s = some x) : isDrive x = false := by
  rw [Bool.eq_false_iff]
  intro hd
  unfold isDrive at hd
  split at hd
  · next a b =>
    simp only [Bool.and_eq_true, Bool.or_eq_true, beq_iff_eq] at hd
    obtain ⟨ha, hb⟩ := hd
    rcases Host.special?_eq_some h with h | ⟨_, h⟩
    · obtain rfl : a = '[' := Option.some.inj (Host.bracketed?_eq_some h).1
      exact absurd ha (by decide)
    · have hbad := (h b (by simp)).1
      rcases hb with rfl | rfl <;> exact absurd hbad (by decide)
  · cases hd

theorem file?_eq_some (h : file? t = some (a, ss)) :
    (∃ p, p ⊆ t ∧ ss = fileSegments p) ∧
      (a = {} ∨ ∃ s x, Host.special? s = some x ∧ Host.isLocal x = false ∧ a = { host := x } ∧
        ss.head?.any isDrive = false) := by
  have hcons {c : Char} {p q : Text} (hp : p ⊆ q) : p ⊆ c :: q := fun _ hd =>
    List.mem_cons_of_mem _ (hp hd)
  unfold file? at h
  split at h
  · next rest =>
    have hpath : rest.dropWhile (· != '/') ⊆ '/' :: '/' :: rest :=
      hcons (hcons (List.dropWhile_suffix _).subset)
    dsimp only at h
    split_ifs at h with hdrive hempty
    · obtain ⟨rfl, rfl⟩ := Prod.mk.inj (Option.some.inj h)
      exact ⟨⟨rest, hcons (hcons (List.Subset.refl _)), rfl⟩, .inl rfl⟩
    · obtain ⟨rfl, rfl⟩ := Prod.mk.inj (Option.some.inj h)
      exact ⟨⟨_, hpath, rfl⟩, .inl rfl⟩
    · obtain ⟨x, hx, h⟩ := Option.map_eq_some_iff.mp h
      unfold onHost at h
      split at h
      · obtain ⟨rfl, rfl⟩ := Prod.mk.inj h
        exact ⟨⟨_, hpath, rfl⟩, .inl rfl⟩
      · next hl =>
        obtain ⟨rfl, rfl⟩ := Prod.mk.inj h
        refine ⟨⟨_, List.Subset.trans (List.drop_suffix 1 _).subset hpath, rfl⟩, ?_⟩
        split
        · exact .inl rfl
        · next hfirst =>
          exact .inr ⟨_, x, hx, Host.isLocal_eq_false_iff.mpr ⟨Host.special?_ne_nil hx, hl⟩, rfl,
            Bool.eq_false_iff.mpr hfirst⟩
  · next rest _ =>
    obtain ⟨rfl, rfl⟩ := Prod.mk.inj (Option.some.inj h)
    exact ⟨⟨rest, hcons (List.Subset.refl _), rfl⟩, .inl rfl⟩
  · obtain ⟨rfl, rfl⟩ := Prod.mk.inj (Option.some.inj h)
    exact ⟨⟨t, List.Subset.refl t, rfl⟩, .inl rfl⟩

theorem located?_eq_none {authority : Authority} (h : Host.isLocal authority.host = false)
    (path : UrlPath) : located? (some authority) path = none := by
  simp [located?, Option.filter_some, h]

/-- The authority and the path of a `file` URL lead to the same file if they are read again. -/
theorem located?_file? (h : file? t = some (a, ss)) :
    ((file? (bodyText (some a) (.segments ss))).bind fun p => located? (some p.1) (.segments p.2)) =
      located? (some a) (.segments ss) := by
  obtain ⟨⟨p, _, rfl⟩, ha⟩ := file?_eq_some h
  have hne : fileSegments p ≠ [] := dropEmpty_ne_nil _
  have hd : dropEmpty (fileSegments p) = fileSegments p := dropEmpty_dropEmpty _
  have hs : ∀ s ∈ fileSegments p, Kept s := fun s hs => (mem_fileSegments hs).1
  rcases ha with rfl | ⟨s, x, hx, hl, rfl, hfirst⟩
  · have htext : bodyText (some {}) (.segments (fileSegments p)) =
        "//".toList ++ UrlPath.toText (.segments (fileSegments p)) := rfl
    rw [htext, file?_slashes hne hs hd, Option.bind_some]
  · have htext : bodyText (some { host := x }) (.segments (fileSegments p)) =
        "//".toList ++ (x ++ UrlPath.toText (.segments (fileSegments p))) := by
      simp [bodyText, Authority.toText]
    have hread : Host.read? true s = some x := hx
    have hslash : '/' ∉ x := fun hm => ((Host.mem_of_read? hread).2 '/' hm).2 (by decide)
    rw [located?_eq_none hl, htext,
      file?_host (Host.special?_ne_nil hx) hslash (isDrive_of_special? hx) hne hs hd hfirst]
    cases hy : Host.special? x with
    | none => rfl
    | some y =>
      have hagain := Host.filter_read? hread
      rw [Option.filter_some, hl] at hagain
      have hyl : Host.isLocal y = false :=
        Bool.eq_false_iff.mpr (Option.filter_eq_none_iff.mp hagain y hy)
      rw [Option.map_some, Option.bind_some, if_neg (Host.isLocal_eq_false_iff.mp hyl).2]
      exact located?_eq_none hyl _

theorem located?_reads {special : Option (Option Nat)} (h : Reads special a) (path : UrlPath) :
    ((authority? special a.toText).bind fun a' => located? (some a') path) =
      located? (some a) path := by
  have hhost := h.filter_host
  unfold located?
  cases ha : authority? special a.toText with
  | none =>
    rw [ha, Option.map_none, Option.filter_none] at hhost
    simp only [Option.map_some, Option.getD_some, ← hhost]
    rfl
  | some a' =>
    rw [ha, Option.map_some] at hhost
    simp only [Option.bind_some, Option.map_some, Option.getD_some, hhost]

theorem takeWhile_toText {x : Text} (hx : '/' ∉ x) (ss : List Text) :
    (x ++ UrlPath.toText (.segments ss)).takeWhile (· != '/') = x ∧
      (x ++ UrlPath.toText (.segments ss)).dropWhile (· != '/') =
        UrlPath.toText (.segments ss) := by
  cases ss with
  | nil =>
    have hbne := Text.bne_of_not_mem hx
    have hnil : x ++ UrlPath.toText (.segments []) = x := List.append_nil x
    rw [hnil]
    exact ⟨List.takeWhile_eq_self_iff.mpr hbne, List.dropWhile_eq_nil_iff.mpr hbne⟩
  | cons s ss => exact ⟨Text.takeWhile_ne_append hx _, Text.dropWhile_ne_append hx _⟩

theorem slashes_cases (t : Text) :
    (∃ rest, t = '/' :: '/' :: rest) ∨ (∃ rest, t = '/' :: rest ∧ rest.head? ≠ some '/') ∨
      t.head? ≠ some '/' := by
  by_cases ht : t.head? = some '/'
  · obtain ⟨rest, rfl⟩ := List.head?_eq_some_iff.mp ht
    by_cases hrest : rest.head? = some '/'
    · obtain ⟨rest, rfl⟩ := List.head?_eq_some_iff.mp hrest
      exact .inl ⟨rest, rfl⟩
    · exact .inr (.inl ⟨rest, rfl, hrest⟩)
  · exact .inr (.inr ht)

variable {scheme : Text} {authority? : Option Authority}

/-- The text of an authority and a path is clean and leads where they do. -/
structure ReadsBack (scheme : Text) (authority? : Option Authority) (ss : List Text) : Prop where
  clean : Clean (bodyText authority? (.segments ss))
  located : ((hierarchy? scheme (bodyText authority? (.segments ss))).bind fun p =>
    located? p.1 p.2) = located? authority? (.segments ss)

theorem Reads.clean {special : Option (Option Nat)} (h : Reads special a) : Clean a.toText := by
  have hsub : ∀ c ∈ "#?".toList, c ∈ "#/?\\".toList := Text.forall_of_all (by decide)
  exact fun c hc => ⟨(h.mem_toText hc).1, fun hm => (h.mem_toText hc).2 (hsub c hm)⟩

theorem Reads.not_mem_toText {special : Option (Option Nat)} (h : Reads special a) :
    '/' ∉ a.toText ∧ '\\' ∉ a.toText :=
  ⟨fun hm => (h.mem_toText hm).2 (by decide), fun hm => (h.mem_toText hm).2 (by decide)⟩

theorem hierarchy?_file (t : Text) : hierarchy? "file".toList t =
    (file? (Text.replaceChar '\\' '/' t)).map fun p => (some p.1, .segments p.2) := rfl

theorem mem_of_file? (h : file? t = some (a, ss)) :
    ∀ c ∈ a.toText, 0x20 < c.toNat ∧ c ∉ Host.enders := by
  rcases (file?_eq_some h).2 with rfl | ⟨s, x, hx, _, rfl, _⟩
  · simp [Authority.toText]
  · have hread : Host.read? true s = some x := hx
    simpa [Authority.toText] using (Host.mem_of_read? hread).2

theorem readsBack_file (h : hierarchy? "file".toList t = some (authority?, .segments ss)) :
    ReadsBack "file".toList authority? ss := by
  rw [hierarchy?_file] at h
  obtain ⟨⟨a, ss'⟩, hf, h⟩ := Option.map_eq_some_iff.mp h
  obtain ⟨rfl, hss⟩ := Prod.mk.inj h
  obtain rfl := UrlPath.segments.inj hss
  have hhost := mem_of_file? hf
  have henders : ∀ c ∈ "#?".toList, c ∈ Host.enders := Text.forall_of_all (by decide)
  have hss : ∀ s ∈ ss', Clean s ∧ '\\' ∉ s := by
    obtain ⟨p, hp, rfl⟩ := (file?_eq_some hf).1
    intro s hs
    obtain ⟨hk, hback⟩ := mem_fileSegments hs
    exact ⟨hk.clean, fun hm => Text.not_mem_replaceChar (by decide) t (hp (hback hm))⟩
  constructor
  · refine clean_bodyText ?_ fun s hs => (hss s hs).1
    rintro a ⟨⟩ c hc
    exact ⟨(hhost c hc).1, fun hm => (hhost c hc).2 (henders c hm)⟩
  · have hback : '\\' ∉ bodyText (some a) (.segments ss') := by
      refine not_mem_bodyText (by decide) ?_ fun s hs => (hss s hs).2
      rintro a ⟨⟩ hm
      exact (hhost _ hm).2 (by decide)
    rw [hierarchy?_file, Text.replaceChar_eq_self hback, Option.bind_map]
    exact located?_file? hf

section Special

variable {socket : Option Nat}

theorem hierarchy?_special (hl : specialSchemes.lookup (String.ofList scheme) = some socket)
    (hf : scheme ≠ "file".toList) (t : Text) :
    hierarchy? scheme t =
      let t := (Text.replaceChar '\\' '/' t).dropWhile (· == '/')
      (Reader.authority? (some socket) (t.takeWhile (· != '/'))).map fun a =>
        (some a, .segments (segments (t.dropWhile (· != '/')))) := by
  unfold hierarchy?
  rw [hl]
  dsimp only
  rw [if_neg hf]
  cases Reader.authority? _ _ <;> rfl

theorem Reads.dropWhile_bodyText (h : Reads (some socket) a) (ss : List Text) :
    (bodyText (some a) (.segments ss)).dropWhile (· == '/') =
      a.toText ++ UrlPath.toText (.segments ss) := by
  have hne : a.toText ≠ [] := by
    obtain ⟨s, hs⟩ := h.host
    intro hnil
    rw [a.toText_eq, List.append_eq_nil_iff, List.append_eq_nil_iff] at hnil
    exact Host.special?_ne_nil hs hnil.2.1
  obtain ⟨c, x, hx⟩ := List.exists_cons_of_ne_nil hne
  have hc : c ≠ '/' := fun he => h.not_mem_toText.1 (by simp [hx, he])
  simp [bodyText, hx, hc]

theorem readsBack_special (hl : specialSchemes.lookup (String.ofList scheme) = some socket)
    (hf : scheme ≠ "file".toList) (h : hierarchy? scheme t = some (authority?, .segments ss)) :
    ReadsBack scheme authority? ss := by
  rw [hierarchy?_special hl hf] at h
  obtain ⟨a, ha, h⟩ := Option.map_eq_some_iff.mp h
  obtain ⟨rfl, hss⟩ := Prod.mk.inj h
  obtain rfl := UrlPath.segments.inj hss
  have hr := reads_of_authority? ha
  generalize hp : ((Text.replaceChar '\\' '/' t).dropWhile (· == '/')).dropWhile (· != '/') = p
  have hpback : '\\' ∉ p := by
    intro hm
    rw [← hp] at hm
    exact Text.not_mem_replaceChar (by decide) t
      ((List.dropWhile_suffix _).subset ((List.dropWhile_suffix _).subset hm))
  constructor
  · refine clean_bodyText ?_ fun s hs => (mem_segments hs).1.clean
    rintro a ⟨⟩
    exact hr.clean
  · have hback : '\\' ∉ bodyText (some a) (.segments (segments p)) := by
      refine not_mem_bodyText (by decide) ?_ fun s hs hm => hpback ((mem_segments hs).2 hm)
      rintro a ⟨⟩
      exact hr.not_mem_toText.2
    obtain ⟨htake, hrest⟩ := takeWhile_toText hr.not_mem_toText.1 (segments p)
    rw [hierarchy?_special hl hf, Text.replaceChar_eq_self hback]
    dsimp only
    rw [hr.dropWhile_bodyText, htake, hrest, Option.bind_map,
      segments_toText (segments_ne_nil p) fun s hs => (mem_segments hs).1]
    exact located?_reads hr _

end Special

section Other

variable (hl : specialSchemes.lookup (String.ofList scheme) = none)

include hl

theorem hierarchy?_slashes (t : Text) : hierarchy? scheme ('/' :: '/' :: t) =
    (Reader.authority? none (t.takeWhile (· != '/'))).map fun a =>
      (some a, .segments (if (t.dropWhile (· != '/')).isEmpty then []
        else segments (t.dropWhile (· != '/')))) := by
  unfold hierarchy?
  rw [hl, Option.map_eq_bind]
  rfl

theorem hierarchy?_slash (ht : t.head? ≠ some '/') :
    hierarchy? scheme ('/' :: t) = some (none, .segments (segments ('/' :: t))) := by
  unfold hierarchy?
  rw [hl]
  rcases t with _ | ⟨c, t⟩
  · rfl
  · have hc : c ≠ '/' := fun he => ht (by rw [he]; rfl)
    simp [hc]

theorem hierarchy?_plain (ht : t.head? ≠ some '/') :
    hierarchy? scheme t = some (none, .plain (Percent.encode [] t.utf8)) := by
  unfold hierarchy?
  rw [hl]
  rcases t with _ | ⟨c, t⟩
  · rfl
  · have hc : c ≠ '/' := fun he => ht (by rw [he]; rfl)
    simp [hc]

theorem readsBack_slashes
    (h : hierarchy? scheme ('/' :: '/' :: t) = some (authority?, .segments ss)) :
    ReadsBack scheme authority? ss := by
  rw [hierarchy?_slashes hl] at h
  obtain ⟨a, ha, h⟩ := Option.map_eq_some_iff.mp h
  obtain ⟨rfl, hss⟩ := Prod.mk.inj h
  have hr := reads_of_authority? ha
  have hss : ∀ s ∈ ss, s ∈ segments (t.dropWhile (· != '/')) := by
    rw [← UrlPath.segments.inj hss]
    split
    · simp
    · exact fun s hs => hs
  have hread : (if (UrlPath.toText (.segments ss)).isEmpty then []
      else segments (UrlPath.toText (.segments ss))) = ss := by
    cases ss with
    | nil => rfl
    | cons s ss => exact segments_toText (by simp) fun s hs => (mem_segments (hss s hs)).1
  obtain ⟨htake, hrest⟩ := takeWhile_toText hr.not_mem_toText.1 ss
  constructor
  · refine clean_bodyText ?_ fun s hs => (mem_segments (hss s hs)).1.clean
    rintro a ⟨⟩
    exact hr.clean
  · have htext : bodyText (some a) (.segments ss) =
        '/' :: '/' :: (a.toText ++ UrlPath.toText (.segments ss)) := rfl
    rw [htext, hierarchy?_slashes hl, htake, hrest, hread, Option.bind_map]
    exact located?_reads hr _

theorem readsBack_slash (ht : t.head? ≠ some '/')
    (h : hierarchy? scheme ('/' :: t) = some (authority?, .segments ss)) :
    ReadsBack scheme authority? ss := by
  rw [hierarchy?_slash hl ht] at h
  obtain ⟨rfl, hss⟩ := Prod.mk.inj (Option.some.inj h)
  obtain rfl := UrlPath.segments.inj hss
  generalize '/' :: t = p
  have hne := segments_ne_nil p
  have hs : ∀ s ∈ segments p, Kept s := fun s hs => (mem_segments hs).1
  constructor
  · exact clean_bodyText (by simp) fun s hs => (mem_segments hs).1.clean
  · unfold bodyText
    dsimp only
    split
    · have hdot := segments_dot_toText hne hs
      rw [show "/.".toList = ['/', '.'] from rfl, List.cons_append] at hdot ⊢
      rw [hierarchy?_slash hl (by simp), hdot]
      rfl
    · next hp =>
      have hread := segments_toText hne hs
      rw [toText_segments hne] at hp hread ⊢
      have hhead : (['/'].intercalate (segments p)).head? ≠ some '/' := by
        intro hh
        obtain ⟨q, hq⟩ := List.head?_eq_some_iff.mp hh
        exact hp (by simp [hq])
      rw [List.nil_append, hierarchy?_slash hl hhead, hread]
      rfl

end Other

theorem readsBack_of_hierarchy? (h : hierarchy? scheme t = some (authority?, .segments ss)) :
    ReadsBack scheme authority? ss := by
  cases hl : specialSchemes.lookup (String.ofList scheme) with
  | none =>
    rcases slashes_cases t with ⟨rest, rfl⟩ | ⟨rest, rfl, hrest⟩ | ht
    · exact readsBack_slashes hl h
    · exact readsBack_slash hl hrest h
    · rw [hierarchy?_plain hl ht] at h
      cases h
  | some socket =>
    by_cases hf : scheme = "file".toList
    · subst hf
      exact readsBack_file h
    · exact readsBack_special hl hf h

end Reader

end Url

end RailsLookup
