import RailsLookup.Proofs.Text.Position
import RailsLookup.Text.Search

/-! # How matches begin

A pattern that begins with one of some words is found only where one of them stands, in the text as
a whole and line by line.
-/

namespace RailsLookup

variable {t : Text}

theorem Spot.exists_of_search_eq_some {α : Type} {f : Spot → Option α} {b : Option Char}
    {n : Nat} {a : α} (h : search f b t = some (n, a)) : ∃ b', f ⟨b', t.drop n⟩ = some a := by
  induction t generalizing b n with
  | nil =>
    obtain ⟨a', ha, he⟩ := Option.map_eq_some_iff.mp h
    obtain ⟨-, rfl⟩ := Prod.mk.inj he
    exact ⟨b, by simpa using ha⟩
  | cons c rest ih =>
    rw [search] at h
    split at h
    · next a' ha =>
      obtain ⟨rfl, rfl⟩ := Prod.mk.inj (Option.some.inj h)
      exact ⟨b, ha⟩
    · obtain ⟨⟨m, a'⟩, hs, he⟩ := Option.map_eq_some_iff.mp h
      obtain ⟨rfl, rfl⟩ := Prod.mk.inj he
      exact ih hs

namespace Pattern

variable {p a b : Pattern} {words words' : List Text} {pos : Position}

/-- Every match begins with one of the words. -/
def BeginsWith (p : Pattern) (words : List Text) : Prop :=
  ∀ spot, p.ends spot ≠ [] → ∃ w ∈ words, w <+: spot.rest

theorem beginsWith_lit (s : Text) : (lit s).BeginsWith [s] := by
  intro spot h
  obtain ⟨e, he⟩ := List.exists_mem_of_ne_nil _ h
  simp only [ends, Option.mem_toList] at he
  exact ⟨s, List.mem_singleton.mpr rfl, e.rest, (Spot.rest_eq_of_skip?_eq_some he).symm⟩

theorem BeginsWith.append (h : a.BeginsWith words) (b : Pattern) :
    (a ++ b).BeginsWith words := by
  intro spot hs
  refine h spot fun ha => hs ?_
  change (a.ends spot).flatMap b.ends = []
  rw [ha, List.flatMap_nil]

theorem BeginsWith.edge_append (h : a.BeginsWith words) : (edge ++ a).BeginsWith words := by
  intro spot hs
  refine h spot fun ha => hs ?_
  change (edge.ends spot).flatMap a.ends = []
  rw [ends]
  split <;> simp [ha]

theorem BeginsWith.alt (ha : a.BeginsWith words) (hb : b.BeginsWith words') :
    (alt a b).BeginsWith (words ++ words') := by
  intro spot hs
  by_cases hn : a.ends spot = []
  · obtain ⟨w, hw, hp⟩ := hb spot fun h => hs (by rw [ends, hn, h, List.append_nil])
    exact ⟨w, List.mem_append_right _ hw, hp⟩
  · obtain ⟨w, hw, hp⟩ := ha spot hn
    exact ⟨w, List.mem_append_left _ hw, hp⟩

theorem BeginsWith.prefix_of_find? (hp : p.BeginsWith words) {n : Nat}
    (h : p.find? t = some n) : ∃ w ∈ words, w <+: t.drop n := by
  rw [find?_eq_leftmost?] at h
  obtain ⟨⟨m, u⟩, hs, rfl⟩ := Option.map_eq_some_iff.mp h
  obtain ⟨b, hb⟩ := Spot.exists_of_search_eq_some hs
  refine hp ⟨b, t.drop m⟩ (startsAt_iff.mp ?_)
  split at hb
  · assumption
  · cases hb

theorem findInLines?_go_eq_some_iff {number : Nat} {ls : List Text} :
    findInLines?.go p number ls = some pos ↔
      ∃ k line, pos.line = number + k ∧ ls[k]? = some line ∧ p.find? line = some pos.column ∧
        ∀ l ∈ ls.take k, p.find? l = none := by
  induction ls generalizing number with
  | nil => simp [findInLines?.go]
  | cons l ls ih =>
    rw [findInLines?.go]
    cases hf : p.find? l with
    | some column =>
      simp only [Option.some.injEq]
      constructor
      · rintro rfl
        exact ⟨0, l, rfl, rfl, hf, by simp⟩
      · rintro ⟨k, line, hk, hl, hc, hnone⟩
        cases k with
        | zero =>
          obtain rfl : l = line := Option.some.inj hl
          obtain ⟨pl, pc⟩ := pos
          obtain rfl : pl = number := hk
          rw [Option.some.inj (hf.symm.trans hc)]
        | succ k =>
          have := hnone l (by simp)
          simp [hf] at this
    | none =>
      simp only [ih]
      constructor
      · rintro ⟨k, line, hk, hl, hc, hnone⟩
        exact ⟨k + 1, line, by omega, hl, hc, List.forall_mem_cons.mpr ⟨hf, hnone⟩⟩
      · rintro ⟨k, line, hk, hl, hc, hnone⟩
        cases k with
        | zero =>
          obtain rfl : l = line := Option.some.inj hl
          simp [hf] at hc
        | succ k =>
          exact ⟨k, line, by omega, hl, hc, (List.forall_mem_cons.mp hnone).2⟩

/-- What is searched for line by line is found in the first line that has it. -/
theorem findInLines?_eq_some_iff :
    p.findInLines? t = some pos ↔
      ∃ line, t.lines[pos.line]? = some line ∧ p.find? line = some pos.column ∧
        ∀ l ∈ t.lines.take pos.line, p.find? l = none := by
  rw [findInLines?, findInLines?_go_eq_some_iff]
  simp only [Nat.zero_add]
  constructor
  · rintro ⟨_, line, rfl, h⟩
    exact ⟨line, h⟩
  · rintro ⟨line, h⟩
    exact ⟨_, line, rfl, h⟩

theorem isSome_findInLines? {l : Text} (hm : l ∈ t.lines) (h : (p.find? l).isSome = true) :
    (p.findInLines? t).isSome = true := by
  have hgo (number : Nat) {ls : List Text} (hm : l ∈ ls) :
      (findInLines?.go p number ls).isSome = true := by
    induction ls generalizing number with
    | nil => cases hm
    | cons l' ls ih =>
      rw [findInLines?.go]
      split
      · rfl
      · next hnone =>
        rcases List.mem_cons.mp hm with rfl | hm
        · rw [hnone] at h
          cases h
        · exact ih (number + 1) hm
  exact hgo 0 hm

theorem BeginsWith.standsAt_of_findInLines? (hp : p.BeginsWith words)
    (h : p.findInLines? t = some pos) : ∃ w ∈ words, w.StandsAt t pos := by
  obtain ⟨line, hl, hf, -⟩ := findInLines?_eq_some_iff.mp h
  obtain ⟨w, hw, hpre⟩ := hp.prefix_of_find? hf
  exact ⟨w, hw, line, hl, hpre⟩

end Pattern

end RailsLookup
