import Mathlib
import RailsLookup.Proofs.Text.Reading

/-! # Which match is preferred

The ends of a greedy pattern come in the order of what it reads, the longest first. A run of
characters is greedy. So is what is put together from greedy patterns as long as only the longest
match of each can be gone on from. What is captured is then the longest that can be.
-/

namespace RailsLookup

namespace Spot

variable {spot first mid e e' : Spot} {s s' : Text}

def Beyond (e e' : Spot) : Prop := e.rest.length < e'.rest.length

theorem pairwise_along (p : Char → Bool) (b : Option Char) (t : Text) :
    (along p b t).Pairwise fun e e' => e'.Beyond e := by
  induction t generalizing b with
  | nil => simp [along]
  | cons c t ih =>
    rw [along, List.pairwise_cons]
    split
    · refine ⟨fun e he => ?_, ih (some c)⟩
      exact Nat.lt_succ_of_le (suffix_of_mem_along he).length_le
    · exact ⟨by simp, .nil⟩

theorem Reads.exists_of_beyond (h : spot.Reads s e) (h' : spot.Reads s' e') (hb : e.Beyond e') :
    ∃ c more, s = s' ++ c :: more ∧ e'.rest = c :: (more ++ e.rest) := by
  have hrest : s ++ e.rest = s' ++ e'.rest := h.1.symm.trans h'.1
  have hlength := congrArg List.length hrest
  simp only [List.length_append] at hlength
  have hlt : s'.length < s.length := by
    unfold Beyond at hb
    omega
  obtain ⟨more, rfl⟩ : s' <+: s :=
    List.prefix_of_prefix_length_le ⟨_, hrest.symm⟩ (List.prefix_append _ _) hlt.le
  rw [List.append_assoc] at hrest
  have he := List.append_cancel_left hrest
  cases more with
  | nil => simp at hlt
  | cons c more => exact ⟨c, more, rfl, he.symm⟩

theorem Reads.length_le (h : spot.Reads s e) (h' : spot.Reads s' e')
    (hle : e.rest.length ≤ e'.rest.length) : s'.length ≤ s.length := by
  have hlength := congrArg List.length (h.1.symm.trans h'.1)
  simp only [List.length_append] at hlength
  omega

end Spot

namespace Pattern

open Spot

variable {a b body back : Pattern} {L : Language Char} {spot e e' : Spot}
  {front w w' rest rest' : Text}

/-- The ends of the pattern come in order, the farthest first. -/
def Greedy (a : Pattern) : Prop := ∀ spot, (a.ends spot).Pairwise Beyond

/-- From an end of `a` that is not the farthest, `b` reads nothing. -/
def StopsShort (a b : Pattern) : Prop :=
  ∀ spot, ∀ e ∈ a.ends spot, ∀ e' ∈ a.ends spot, e.Beyond e' → b.ends e' ⊆ [e']

theorem Spells.beyond (ha : a.Spells L) (hL : [] ∉ L) (he : e ∈ a.ends spot) : e.Beyond spot := by
  obtain ⟨s, hs, hr⟩ := (ha spot e).mp he
  have hne : s ≠ [] := fun h => hL (h ▸ hs)
  have hpos := List.length_pos_iff.mpr hne
  rw [Beyond, hr.1, List.length_append]
  omega

theorem greedy_most (p : Char → Bool) : (most p).Greedy := fun spot =>
  List.pairwise_reverse.mpr (pairwise_along p spot.before spot.rest)

theorem eq_of_mem_ends_lit {s : Text} (he : e ∈ (lit s).ends spot) (he' : e' ∈ (lit s).ends spot) :
    e = e' := by
  simp only [ends, Option.mem_toList] at he he'
  exact Option.some.inj (he.symm.trans he')

theorem greedy_lit (s : Text) : (lit s).Greedy := by
  intro spot
  rw [ends]
  cases skip? s spot <;> simp

theorem stopsShort_lit (s : Text) (b : Pattern) : StopsShort (lit s) b := by
  intro spot e he e' he' hlt
  rw [eq_of_mem_ends_lit he he'] at hlt
  exact absurd hlt (Nat.lt_irrefl _)

theorem Greedy.append (ha : a.Greedy) (hb : b.Greedy) (hs : StopsShort a b) :
    (a ++ b).Greedy := by
  intro spot
  refine List.pairwise_flatMap.mpr ⟨fun e _ => hb e, (ha spot).imp_of_mem ?_⟩
  intro e e' he he' hlt x hx y hy
  obtain rfl := List.mem_singleton.mp (hs spot e he e' he' hlt hy)
  exact Nat.lt_of_le_of_lt (suffix_of_mem_ends hx).length_le hlt

theorem repeated_of_ends_eq_nil (h : a.ends spot = []) (n : Nat) (later : List Spot) :
    repeated a.ends n spot later = spot :: later := by
  cases n with
  | zero => rfl
  | succ n => rw [repeated, h, List.foldr_nil]

theorem ends_star_of_ends_eq_nil (h : a.ends spot = []) : (star a).ends spot = [spot] :=
  repeated_of_ends_eq_nil h _ _

theorem foldr_repeated_of_ends_eq_nil {es : List Spot} (h : ∀ e ∈ es, a.ends e = []) (n : Nat)
    (later : List Spot) : es.foldr (repeated a.ends n) later = es ++ later := by
  induction es with
  | nil => rfl
  | cons e es ih =>
    obtain ⟨he, hes⟩ := List.forall_mem_cons.mp h
    rw [List.foldr_cons, ih hes, repeated_of_ends_eq_nil he, List.cons_append]

theorem pairwise_repeated (ha : a.Greedy) (hon : ∀ spot, ∀ e ∈ a.ends spot, e.Beyond spot)
    (hs : StopsShort a a) {later : List Spot} (n : Nat) (hl : (spot :: later).Pairwise Beyond) :
    (repeated a.ends n spot later).Pairwise Beyond := by
  induction n generalizing spot later with
  | zero => exact hl
  | succ n ih =>
    rw [repeated]
    cases hends : a.ends spot with
    | nil => exact hl
    | cons e es =>
      have hall := ha spot
      rw [hends] at hall
      have hfar : ∀ x ∈ e :: es, ∀ y ∈ spot :: later, x.Beyond y := by
        intro x hx
        have hx := hon spot x (hends ▸ hx)
        refine List.forall_mem_cons.mpr ⟨hx, fun y hy => ?_⟩
        exact Nat.lt_trans hx ((List.pairwise_cons.mp hl).1 y hy)
      -- only the farthest end is gone on from, the others stay as they are
      have hnil : ∀ e' ∈ es, a.ends e' = [] := by
        intro e' he'
        have hlt := (List.pairwise_cons.mp hall).1 e' he'
        have hsub := hs spot e (by simp [hends]) e' (by simp [hends, he']) hlt
        rw [List.eq_nil_iff_forall_not_mem]
        intro x hx
        obtain rfl := List.mem_singleton.mp (hsub hx)
        exact absurd (hon x x hx) (Nat.lt_irrefl _)
      rw [List.foldr_cons, foldr_repeated_of_ends_eq_nil hnil]
      exact ih (List.pairwise_append.mpr ⟨hall, hl, hfar⟩)

/-- A greedy pattern that reads something each time is greedy when it is repeated. -/
theorem Greedy.star (ha : a.Greedy) (hon : ∀ spot, ∀ e ∈ a.ends spot, e.Beyond spot)
    (hs : StopsShort a a) : (star a).Greedy := fun spot =>
  pairwise_repeated ha hon hs spot.rest.length (List.pairwise_singleton _ _)

theorem greedy_some (p : Char → Bool) : (one p ++ most p).Greedy := by
  intro spot
  refine List.pairwise_flatMap.mpr ⟨fun e _ => greedy_most p e, ?_⟩
  rw [ends]
  split
  · exact .nil
  · split <;> simp

theorem head_of_beyond {p : Char → Bool} (he : e ∈ (one p ++ most p).ends spot)
    (he' : e' ∈ (one p ++ most p).ends spot) (hlt : e.Beyond e') :
    ∃ c more, p c = true ∧ e'.rest = c :: more := by
  obtain ⟨s, ⟨-, hs⟩, hr⟩ := (spells_some p spot e).mp he
  obtain ⟨s', -, hr'⟩ := (spells_some p spot e').mp he'
  obtain ⟨c, more, rfl, hrest⟩ := hr.exists_of_beyond hr' hlt
  exact ⟨c, _, hs c (by simp), hrest⟩

/-- A greedy pattern captures the longest text that it can. -/
theorem Greedy.length_le_of_between? (hg : body.Greedy) (hb : body.Spells L)
    (h : between? edge body back (.between front (w' ++ rest')) = some w)
    (hc : Capture L back front w' rest') : w'.length ≤ w.length := by
  have hedge : edge.ends (.between front (w' ++ rest')) = [.between front (w' ++ rest')] := by
    rw [ends, if_pos hc.isEdge]
  rw [between?, hedge, List.flatMap_singleton, List.head?_map, Option.map_eq_some_iff] at h
  obtain ⟨e, he, rfl⟩ := h
  obtain ⟨more, hlist⟩ := List.head?_eq_some_iff.mp he
  have hr' := reads_between front w' rest'
  have hmem : .between (front ++ w') rest' ∈ (body.ends _).filter back.startsAt :=
    List.mem_filter.mpr ⟨(hb _ _).mpr ⟨w', hc.mem, hr'⟩, hc.starts⟩
  obtain ⟨s, -, hr⟩ := (hb _ _).mp (List.mem_filter.mp (List.mem_of_mem_head? he)).1
  rw [hr.textUntil_eq]
  refine hr.length_le hr' ?_
  have hsorted := (hg (.between front (w' ++ rest'))).filter back.startsAt
  rw [hlist, List.pairwise_cons] at hsorted
  rw [hlist] at hmem
  rcases List.mem_cons.mp hmem with heq | hmem
  · rw [heq]
  · exact (hsorted.1 _ hmem).le

end Pattern

end RailsLookup
