import Mathlib
import RailsLookup.Proofs.Url.Hierarchy

/-! # The spellings of a URL

The text of a URL that was read has its marks where the parts meet and nowhere else. So it is
one more spelling, with the same path as the one that was read.
-/

namespace RailsLookup.Url

namespace Reader

variable {s t scheme rest : Text} {c : Char}

theorem dropWhile_eq_self {p : Char → Bool} (h : ∀ c, t.head? = some c → p c = false) :
    t.dropWhile p = t := by
  cases t with
  | nil => rfl
  | cons c t => rw [List.dropWhile_cons, h c rfl]; rfl

def isKept (c : Char) : Bool := !(c == '\t' || c == '\n' || c == '\r')

theorem isKept_of_le (h : 0x20 ≤ c.toNat) : isKept c = true := by
  simp only [isKept, Bool.not_eq_true', Bool.or_eq_false_iff, beq_eq_false_iff_ne]
  refine ⟨⟨?_, ?_⟩, ?_⟩ <;> rintro rfl <;> exact absurd h (by decide)

theorem exists_cleaned_append (hs : ∀ c ∈ s, 0x20 < c.toNat) (hne : s ≠ []) (t : Text) :
    ∃ p, p <+: t ∧ cleaned (s ++ t) = s ++ p.filter isKept := by
  have hedge : ∀ c ∈ s, decide (c.toNat ≤ 0x20) = false := fun c hc =>
    decide_eq_false (Nat.not_le_of_lt (hs c hc))
  have hfront : (s ++ t).dropWhile (fun c => decide (c.toNat ≤ 0x20)) = s ++ t := by
    refine dropWhile_eq_self fun c hc => ?_
    rw [List.head?_append_of_ne_nil _ hne] at hc
    exact hedge c (List.mem_of_mem_head? hc)
  have hback : s.reverse.dropWhile (fun c => decide (c.toNat ≤ 0x20)) = s.reverse :=
    dropWhile_eq_self fun c hc => hedge c (List.mem_reverse.mp (List.mem_of_mem_head? hc))
  have hfilter : s.filter isKept = s :=
    List.filter_eq_self.mpr fun c hc => isKept_of_le (Nat.le_of_lt (hs c hc))
  refine ⟨(t.reverse.dropWhile (fun c => decide (c.toNat ≤ 0x20))).reverse, ?_, ?_⟩
  · rw [← List.reverse_suffix, List.reverse_reverse]
    exact List.dropWhile_suffix _
  · change (((s ++ t).dropWhile _).reverse.dropWhile _).reverse.filter isKept = _
    rw [hfront, List.reverse_append, List.dropWhile_append, hback]
    split
    · next he =>
      rw [List.isEmpty_iff.mp he, List.reverse_reverse, hfilter]
      simp
    · rw [List.reverse_append, List.reverse_reverse, List.filter_append, hfilter]

theorem cleaned_eq_self (h : ∀ c ∈ t, 0x20 < c.toNat) : cleaned t = t := by
  cases t with
  | nil => rfl
  | cons c t =>
    obtain ⟨p, hp, he⟩ := exists_cleaned_append h (by simp) []
    rw [List.prefix_nil.mp hp] at he
    simpa using he

theorem prefix_cut (c : Char) (t : Text) : (cut c t).1 <+: t := by
  unfold cut
  split
  · exact List.prefix_rfl
  · exact List.takeWhile_prefix _

theorem mem_scheme (h : isScheme scheme = true) (hc : c ∈ scheme) : 0x20 < c.toNat ∧ c ≠ ':' := by
  rw [isScheme, Bool.and_eq_true, List.all_eq_true] at h
  have hc := h.2 c hc
  constructor
  · simp only [Char.isAlphanum, Char.isAlpha, Char.isUpper, Char.isLower, Char.isDigit,
      Bool.or_eq_true, Bool.and_eq_true, decide_eq_true_eq, beq_iff_eq, ge_iff_le,
      UInt32.le_iff_toNat_le] at hc
    have hn : c.toNat = c.val.toNat := rfl
    rcases hc with (((((hc | hc) | hc) | rfl) | rfl) | rfl)
    · have : 65 ≤ c.val.toNat := hc.1
      omega
    · have : 97 ≤ c.val.toNat := hc.1
      omega
    · have : 48 ≤ c.val.toNat := hc.1
      omega
    all_goals decide
  · rintro rfl
    exact absurd hc (by decide)

theorem isScheme_map_toLower (h : isScheme scheme = true) :
    isScheme (scheme.map Char.toLower) = true := by
  rw [isScheme, Bool.and_eq_true, List.all_eq_true] at h ⊢
  constructor
  · simpa [List.head?_map, Option.any_map, Function.comp_def] using h.1
  · intro c hc
    obtain ⟨d, hd, rfl⟩ := List.mem_map.mp hc
    by_cases hu : d.isUpper
    · simp [Char.isAlphanum, Char.isAlpha, hu]
    · rw [Char.toLower_eq_of_not_isUpper hu]
      exact h.2 d hd

theorem ofUrlText?_eq (hs : isScheme scheme = true) (hlow : scheme.map Char.toLower = scheme)
    (ht : cleaned t = scheme ++ ':' :: rest) :
    Path.ofUrlText? t =
      (hierarchy? scheme (cut '?' (cut '#' rest).1).1).bind fun p => located? p.1 p.2 := by
  have hcolon : ':' ∉ scheme := fun hm => (mem_scheme hs hm).2 rfl
  unfold Path.ofUrlText? parse?
  rw [ht, cut_append hcolon]
  simp only [hs, hlow, Option.bind_eq_bind, Option.bind_assoc, Option.bind_some, Option.pure_def,
    guard_true, toPath?_eq]

/-- No text in front of which no slash stood is given one by encoding. -/
theorem head?_encode (ht : t.head? ≠ some '/') :
    (Percent.encode [] t.utf8).head? = some c → c ≠ '/' ∧ 0x20 ≤ c.toNat := by
  intro hc
  constructor
  · rintro rfl
    obtain ⟨e, he⟩ := List.head?_eq_some_iff.mp hc
    obtain ⟨rest, rfl, _⟩ := Percent.eq_cons_of_encode_utf8 he (by decide)
    exact ht rfl
  · have hmarks : ∀ c ∈ Percent.marks, 0x20 ≤ c.toNat := Text.forall_of_all (by decide)
    rcases Percent.mem_encode_utf8 (List.mem_of_mem_head? hc) with hm | ⟨hs, _⟩
    · exact hmarks c hm
    · exact hs.1.1

theorem plain_of_hierarchy? {authority? : Option Authority} {x : Text}
    (h : hierarchy? scheme t = some (authority?, .plain x)) :
    specialSchemes.lookup (String.ofList scheme) = none ∧ authority? = none ∧
      ∀ c, x.head? = some c → c ≠ '/' ∧ 0x20 ≤ c.toNat := by
  cases hl : specialSchemes.lookup (String.ofList scheme) with
  | some socket =>
    by_cases hf : scheme = "file".toList
    · subst hf
      rw [hierarchy?_file] at h
      obtain ⟨_, _, h⟩ := Option.map_eq_some_iff.mp h
      cases h
    · rw [hierarchy?_special hl hf] at h
      obtain ⟨_, _, h⟩ := Option.map_eq_some_iff.mp h
      cases h
  | none =>
    rcases slashes_cases t with ⟨rest, rfl⟩ | ⟨rest, rfl, hrest⟩ | ht
    · rw [hierarchy?_slashes hl] at h
      obtain ⟨_, _, h⟩ := Option.map_eq_some_iff.mp h
      cases h
    · rw [hierarchy?_slash hl hrest] at h
      cases h
    · rw [hierarchy?_plain hl ht] at h
      obtain ⟨rfl, hx⟩ := Prod.mk.inj (Option.some.inj h)
      obtain rfl := UrlPath.plain.inj hx
      exact ⟨rfl, rfl, fun c => head?_encode ht⟩

/-- What follows a scheme begins with a slash only if it did before blanks were taken away. -/
theorem head?_cleaned {y p w : Text} (hy : ∀ c, y.head? = some c → c ≠ '/' ∧ 0x20 ≤ c.toNat)
    (hp : p <+: y) (hw : w <+: p.filter isKept) : w.head? ≠ some '/' := by
  intro hhead
  cases p with
  | nil =>
    obtain rfl := List.prefix_nil.mp hw
    cases hhead
  | cons c p =>
    obtain ⟨rest, rfl⟩ := hp
    obtain ⟨hc, hlo⟩ := hy c rfl
    rw [List.filter_cons_of_pos (isKept_of_le hlo)] at hw
    obtain ⟨w, rfl⟩ := List.head?_eq_some_iff.mp hhead
    exact hc (List.cons_prefix_cons.mp hw).1.symm

end Reader

open Reader

theorem toText_eq (u : Url) :
    u.toText = u.scheme ++ ':' :: (bodyText u.authority? u.path ++
      ((u.query?.map ('?' :: ·)).getD [] ++ (u.fragment?.map ('#' :: ·)).getD [])) := by
  obtain ⟨scheme, authority?, path, query?, fragment?⟩ := u
  cases authority? <;> cases query? <;> cases fragment? <;> simp [toText, bodyText]

/-- What is known of a URL that was read. -/
structure Spelled (u : Url) : Prop where
  scheme : isScheme u.scheme = true
  small : u.scheme.map Char.toLower = u.scheme
  body : ∃ t, hierarchy? u.scheme t = some (u.authority?, u.path)
  query : ∀ q, u.query? = some q → ∀ c ∈ q, 0x20 < c.toNat ∧ c ≠ '#'
  fragment : ∀ f, u.fragment? = some f → ∀ c ∈ f, 0x20 < c.toNat

theorem spelled_of_parse? {t : Text} {u : Url} (h : parse? t = some u) : Spelled u := by
  simp only [parse?, Option.bind_eq_bind, Option.bind_eq_some_iff, Option.pure_def,
    Option.some.injEq] at h
  obtain ⟨rest, hrest, _, hg, ⟨authority?, path⟩, hh, rfl⟩ := h
  have hscheme : isScheme (cut ':' (cleaned t)).1 = true := by
    by_contra hn
    simp [guard, hn] at hg
  refine ⟨isScheme_map_toLower hscheme, by simp [Function.comp_def], ⟨_, hh⟩, ?_, ?_⟩
  · rintro q hq c hc
    obtain ⟨x, _, rfl⟩ := Option.map_eq_some_iff.mp hq
    generalize Option.isSome _ = isSpecial at hc
    have hin : ∀ c ∈ [' ', '#'], c ∈ Percent.inQuery isSpecial := by
      cases isSpecial <;> exact Text.forall_of_all (by decide)
    refine ⟨Percent.lt_toNat_of_mem_encode (hin _ (by simp)) hc, ?_⟩
    rintro rfl
    exact Percent.not_mem_encode (hin _ (by simp)) (by decide) hc
  · rintro f hf c hc
    obtain ⟨x, _, rfl⟩ := Option.map_eq_some_iff.mp hf
    exact Percent.lt_toNat_of_mem_encode (by decide) hc

theorem cut_fst {c : Char} {s : Text} (h : c ∉ s) (t? : Option Text) :
    (cut c (s ++ (t?.map (c :: ·)).getD [])).1 = s := by
  cases t? with
  | none => rw [Option.map_none, Option.getD_none, List.append_nil, cut_of_not_mem h]
  | some t => rw [Option.map_some, Option.getD_some, cut_append h]

theorem head?_plain {x : Text} {q? f? : Option Text} {c : Char}
    (hx : ∀ c, x.head? = some c → c ≠ '/' ∧ 0x20 ≤ c.toNat)
    (hc : (x ++ ((q?.map ('?' :: ·)).getD [] ++ (f?.map ('#' :: ·)).getD [])).head? = some c) :
    c ≠ '/' ∧ 0x20 ≤ c.toNat := by
  rcases x with _ | ⟨d, x⟩
  · rcases q? with _ | q
    · rcases f? with _ | f
      · cases hc
      · obtain rfl : '#' = c := Option.some.inj hc
        decide
    · obtain rfl : '?' = c := Option.some.inj hc
      decide
  · exact hx c hc

namespace Spelled

variable {u : Url} (h : Spelled u)

include h

theorem mem_query {c : Char} (hc : c ∈ (u.query?.map ('?' :: ·)).getD []) :
    0x20 < c.toNat ∧ c ≠ '#' := by
  cases hq : u.query? with
  | none => simp [hq] at hc
  | some q =>
    rw [hq] at hc
    rcases List.mem_cons.mp hc with rfl | hc
    · decide
    · exact h.query q hq c hc

theorem mem_fragment {c : Char} (hc : c ∈ (u.fragment?.map ('#' :: ·)).getD []) :
    0x20 < c.toNat := by
  cases hf : u.fragment? with
  | none => simp [hf] at hc
  | some f =>
    rw [hf] at hc
    rcases List.mem_cons.mp hc with rfl | hc
    · decide
    · exact h.fragment f hf c hc

theorem ofUrlText?_of_segments {ss : List Text} (hp : u.path = .segments ss) :
    Path.ofUrlText? u.toText = u.toPath? := by
  obtain ⟨t, ht⟩ := h.body
  rw [hp] at ht
  have hr := readsBack_of_hierarchy? ht
  have htext := toText_eq u
  rw [hp] at htext
  have hclean : ∀ c ∈ u.toText, 0x20 < c.toNat := by
    intro c hc
    rw [htext] at hc
    simp only [List.mem_append, List.mem_cons] at hc
    rcases hc with hc | rfl | hc | hc | hc
    · exact (mem_scheme h.scheme hc).1
    · decide
    · exact (hr.clean c hc).1
    · exact (h.mem_query hc).1
    · exact h.mem_fragment hc
  have hhash : '#' ∉ bodyText u.authority? (.segments ss) ++ (u.query?.map ('?' :: ·)).getD [] := by
    intro hm
    rcases List.mem_append.mp hm with hm | hm
    · exact (hr.clean _ hm).2 (by decide)
    · exact (h.mem_query hm).2 rfl
  have hquery : '?' ∉ bodyText u.authority? (.segments ss) :=
    fun hm => (hr.clean _ hm).2 (by decide)
  rw [ofUrlText?_eq h.scheme h.small ((cleaned_eq_self hclean).trans htext), ← List.append_assoc,
    cut_fst hhash, cut_fst hquery, hr.located, toPath?_eq, hp]

theorem ofUrlText?_of_plain {x : Text} (hp : u.path = .plain x) :
    Path.ofUrlText? u.toText = u.toPath? := by
  obtain ⟨t, ht⟩ := h.body
  rw [hp] at ht
  obtain ⟨hl, ha, hx⟩ := plain_of_hierarchy? ht
  have hbody : bodyText none (.plain x) = x := by
    refine (congrArg (· ++ x) (if_neg fun hs => ?_)).trans (List.nil_append x)
    obtain ⟨rest, rfl⟩ := List.isPrefixOf_iff_prefix.mp hs
    exact (hx '/' rfl).1 rfl
  have htext := toText_eq u
  rw [hp, ha, hbody] at htext
  have hy : ∀ c, (x ++ ((u.query?.map ('?' :: ·)).getD [] ++
      (u.fragment?.map ('#' :: ·)).getD [])).head? = some c → c ≠ '/' ∧ 0x20 ≤ c.toNat :=
    fun c => head?_plain hx
  generalize x ++ _ = y at htext hy
  have hscheme : ∀ c ∈ u.scheme ++ [':'], 0x20 < c.toNat := by
    intro c hc
    rcases List.mem_append.mp hc with hc | hc
    · exact (mem_scheme h.scheme hc).1
    · rw [List.mem_singleton.mp hc]
      decide
  obtain ⟨p, hpre, hclean⟩ := exists_cleaned_append hscheme (by simp) y
  rw [List.append_assoc, List.singleton_append, ← htext, List.append_assoc,
    List.singleton_append] at hclean
  have hprefix := (prefix_cut '?' _).trans (prefix_cut '#' (p.filter isKept))
  rw [ofUrlText?_eq h.scheme h.small hclean, hierarchy?_plain hl (head?_cleaned hy hpre hprefix),
    toPath?_eq, hp, ha]
  rfl

end Spelled

/-- The text of a URL that was read is a spelling of the same path. -/
theorem ofUrlText?_toText {t : Text} {u : Url} (h : parse? t = some u) :
    Path.ofUrlText? u.toText = Path.ofUrlText? t := by
  have hs := spelled_of_parse? h
  rw [Path.ofUrlText?.eq_def t, h, Option.bind_some]
  cases hp : u.path with
  | plain x => exact hs.ofUrlText?_of_plain hp
  | segments ss => exact hs.ofUrlText?_of_segments hp

end RailsLookup.Url
