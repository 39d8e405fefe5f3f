import Mathlib
import RailsLookup.Proofs.Text.Position
import RailsLookup.Text.Search

/-! # What patterns read

A pattern that looks at no edge reads the texts of a language, whatever stands around them. Its
ends are the spots after these texts, and all of them, as the ends of a sequence are those of
every way to divide the text. A search ends at the least place where a pattern can start.
-/

namespace RailsLookup

open Computability

/-- A run of characters of a class ends where another character comes next. -/
theorem Text.eq_of_run_append {p : Char → Bool} {run run' t t' : Text}
    (hr : ∀ c ∈ run, p c = true) (hr' : ∀ c ∈ run', p c = true) (ht : t.head?.any p = false)
    (ht' : t'.head?.any p = false) (h : run ++ t = run' ++ t') : run = run' ∧ t = t' := by
  have htake {run t : Text} (hr : ∀ c ∈ run, p c = true) (ht : t.head?.any p = false) :
      (run ++ t).takeWhile p = run := by
    rw [List.takeWhile_append_of_pos hr]
    cases t with
    | nil => simp
    | cons c t =>
      have hc : p c = false := by simpa using ht
      rw [List.takeWhile_cons_of_neg (by simp [hc]), List.append_nil]
  have hrun : run = run' := by rw [← htake hr ht, h, htake hr' ht']
  subst hrun
  exact ⟨rfl, List.append_cancel_left h⟩

namespace Spot

variable {spot mid e : Spot} {s t front rest : Text} {b : Option Char} {p : Char → Bool}

/-- The place where two parts of a text meet. -/
def between (front rest : Text) : Spot := ⟨front.getLast?, rest⟩

/-- The later spot is reached by reading `s`. -/
def Reads (spot : Spot) (s : Text) (later : Spot) : Prop :=
  spot.rest = s ++ later.rest ∧ later.before = s.getLast?.or spot.before

theorem reads_nil_iff : spot.Reads [] e ↔ e = spot := by
  obtain ⟨b, t⟩ := spot
  obtain ⟨b', t'⟩ := e
  simp [Reads, and_comm, eq_comm]

theorem reads_cons_iff {c : Char} :
    spot.Reads (c :: s) e ↔ ∃ rest, spot.rest = c :: rest ∧ Reads ⟨some c, rest⟩ s e := by
  have hlast : (c :: s).getLast?.or spot.before = s.getLast?.or (some c) := by
    cases s <;> simp [List.getLast?_cons]
  constructor
  · rintro ⟨hr, hb⟩
    exact ⟨s ++ e.rest, hr, rfl, hb.trans hlast⟩
  · rintro ⟨rest, hr, hs, hb⟩
    refine ⟨?_, hb.trans hlast.symm⟩
    rw [hr, List.cons_append]
    exact congrArg (c :: ·) hs

theorem reads_append_iff :
    spot.Reads (s ++ t) e ↔ ∃ mid, spot.Reads s mid ∧ mid.Reads t e := by
  induction s generalizing spot with
  | nil => simp [reads_nil_iff]
  | cons c s ih =>
    simp only [List.cons_append, reads_cons_iff, ih]
    constructor
    · rintro ⟨rest, hr, mid, hs, ht⟩
      exact ⟨mid, ⟨rest, hr, hs⟩, ht⟩
    · rintro ⟨mid, ⟨rest, hr, hs⟩, ht⟩
      exact ⟨rest, hr, mid, hs, ht⟩

theorem reads_between (front s rest : Text) :
    (between front (s ++ rest)).Reads s (between (front ++ s) rest) :=
  ⟨rfl, by simp [between, List.getLast?_append]⟩

theorem Reads.eq_between (h : (between front t).Reads s e) :
    ∃ rest, t = s ++ rest ∧ e = between (front ++ s) rest := by
  obtain ⟨hr, hb⟩ := h
  refine ⟨e.rest, hr, ?_⟩
  obtain ⟨b, rest⟩ := e
  simpa [between, List.getLast?_append] using hb

theorem isEdge_between_of_head (h : rest.head?.any isWord = true) :
    (between front rest).isEdge = true ↔ front.getLast?.any isWord = false := by
  dsimp only [isEdge, between]
  rw [h]
  simp

theorem isEdge_between_append_of_head (h : s.head?.any isWord = true) (front rest : Text) :
    (between front (s ++ rest)).isEdge = true ↔ front.getLast?.any isWord = false := by
  apply isEdge_between_of_head
  obtain ⟨c, hc, hcw⟩ := (Option.any_eq_true _ _).mp h
  rw [List.head?_append, hc, Option.some_or, Option.any_some, hcw]

theorem isEdge_between_append (hne : s ≠ []) :
    (between (front ++ s) rest).isEdge = true ↔
      s.getLast?.any isWord ≠ rest.head?.any isWord := by
  simp [isEdge, between, List.getLast?_append_of_ne_nil front hne]

theorem Reads.textUntil_eq (h : spot.Reads s e) : spot.textUntil e = s := by
  rw [textUntil, h.1, List.length_append, Nat.add_sub_cancel, List.take_left]

theorem skip?_eq_some_iff : skip? s spot = some e ↔ spot.Reads s e := by
  induction s generalizing spot with
  | nil => simp [skip?, reads_nil_iff, eq_comm]
  | cons c s ih =>
    obtain ⟨b, _ | ⟨d, rest⟩⟩ := spot
    · simp [skip?, reads_cons_iff]
    · by_cases hc : c = d
      · simp [skip?, reads_cons_iff, hc, ih]
      · simp [skip?, reads_cons_iff, hc, Ne.symm hc]

theorem mem_along_iff :
    e ∈ along p b t ↔ ∃ s, (∀ c ∈ s, p c = true) ∧ Reads ⟨b, t⟩ s e := by
  induction t generalizing b with
  | nil =>
    simp only [along, List.mem_singleton]
    constructor
    · rintro rfl
      exact ⟨[], by simp, reads_nil_iff.mpr rfl⟩
    · rintro ⟨s, _, hs⟩
      obtain rfl : s = [] := (List.append_eq_nil_iff.mp hs.1.symm).1
      exact reads_nil_iff.mp hs
  | cons c t ih =>
    rw [along, List.mem_cons]
    constructor
    · rintro (rfl | h)
      · exact ⟨[], by simp, reads_nil_iff.mpr rfl⟩
      · split at h
        · next hc =>
          obtain ⟨s, hs, hr⟩ := ih.mp h
          exact ⟨c :: s, List.forall_mem_cons.mpr ⟨hc, hs⟩, reads_cons_iff.mpr ⟨t, rfl, hr⟩⟩
        · cases h
    · rintro ⟨s, hs, hr⟩
      cases s with
      | nil => exact .inl (reads_nil_iff.mp hr)
      | cons d s =>
        obtain ⟨rest, he, hr⟩ := reads_cons_iff.mp hr
        obtain ⟨rfl, rfl⟩ := List.cons.inj he
        obtain ⟨hc, hs⟩ := List.forall_mem_cons.mp hs
        rw [if_pos hc]
        exact .inr (ih.mpr ⟨s, hs, hr⟩)

/-- Steps that read texts of a language, repeated, read a number of such texts. -/
theorem mem_repeated_iff {step : Spot → List Spot} {L : Language Char}
    (h : ∀ spot e, e ∈ step spot ↔ ∃ s ∈ L, spot.Reads s e) {n : Nat} {later : List Spot} :
    e ∈ repeated step n spot later ↔
      e ∈ later ∨ ∃ ss : List Text, ss.length ≤ n ∧ (∀ s ∈ ss, s ∈ L) ∧
        spot.Reads ss.flatten e := by
  induction n generalizing spot later with
  | zero => simp [repeated, reads_nil_iff, or_comm]
  | succ n ih =>
    have hfold (spots tail : List Spot) : e ∈ spots.foldr (repeated step n) tail ↔
        e ∈ tail ∨ ∃ mid ∈ spots, ∃ ss : List Text, ss.length ≤ n ∧ (∀ s ∈ ss, s ∈ L) ∧
          mid.Reads ss.flatten e := by
      induction spots with
      | nil => simp
      | cons mid spots ihs =>
        rw [List.foldr_cons, ih, ihs, List.exists_mem_cons_iff, or_right_comm, or_assoc]
    rw [repeated, hfold, List.mem_cons, or_comm (a := e = spot), or_assoc]
    refine or_congr_right ?_
    constructor
    · rintro (rfl | ⟨mid, hm, ss, hn, hs, hr⟩)
      · exact ⟨[], by simp, by simp, reads_nil_iff.mpr rfl⟩
      · obtain ⟨s, hL, hr'⟩ := (h spot mid).mp hm
        refine ⟨s :: ss, by simpa using hn, List.forall_mem_cons.mpr ⟨hL, hs⟩, ?_⟩
        exact reads_append_iff.mpr ⟨mid, hr', hr⟩
    · rintro ⟨ss, hn, hs, hr⟩
      cases ss with
      | nil => exact .inl (reads_nil_iff.mp hr)
      | cons s ss =>
        obtain ⟨hL, hs⟩ := List.forall_mem_cons.mp hs
        obtain ⟨mid, hr', hr⟩ := reads_append_iff.mp hr
        exact .inr ⟨mid, (h spot mid).mpr ⟨s, hL, hr'⟩, ss, by simpa using hn, hs, hr⟩

end Spot

namespace Pattern

variable {p a b body back : Pattern} {spot mid e : Spot} {L M : Language Char}
  {s t front rest w : Text}

theorem startsAt_iff_exists : p.startsAt spot = true ↔ ∃ e, e ∈ p.ends spot :=
  startsAt_iff.trans ⟨List.exists_mem_of_ne_nil _, fun ⟨_, h⟩ => List.ne_nil_of_mem h⟩

theorem mem_ends_append : e ∈ (a ++ b).ends spot ↔ ∃ mid ∈ a.ends spot, e ∈ b.ends mid :=
  List.mem_flatMap

theorem mem_ends_edge : e ∈ edge.ends spot ↔ spot.isEdge = true ∧ e = spot := by
  rw [ends]
  split <;> simp_all

theorem mem_ends_finish : e ∈ finish.ends spot ↔ spot.rest = [] ∧ e = spot := by
  rw [ends]
  split <;> simp_all

/-- From every spot the pattern reads the texts of the language and no others. -/
def Spells (p : Pattern) (L : Language Char) : Prop :=
  ∀ spot e, e ∈ p.ends spot ↔ ∃ s ∈ L, spot.Reads s e

theorem Spells.congr (h : p.Spells L) (hL : ∀ s, s ∈ L ↔ s ∈ M) : p.Spells M :=
  fun spot e => (h spot e).trans (exists_congr fun s => and_congr_left' (hL s))

theorem spells_lit (s : Text) : (lit s).Spells {s} := by
  intro spot e
  simp only [ends, Option.mem_toList, Spot.skip?_eq_some_iff]
  exact ⟨fun h => ⟨s, rfl, h⟩, by rintro ⟨_, rfl, h⟩; exact h⟩

theorem spells_one (p : Char → Bool) : (one p).Spells {s | ∃ c, p c = true ∧ s = [c]} := by
  rintro ⟨b, t⟩ e
  constructor
  · intro h
    cases t with
    | nil => cases h
    | cons c rest =>
      rw [ends, List.mem_ite_nil_right, List.mem_singleton] at h
      obtain ⟨hc, rfl⟩ := h
      exact ⟨[c], ⟨c, hc, rfl⟩, Spot.reads_cons_iff.mpr ⟨rest, rfl, Spot.reads_nil_iff.mpr rfl⟩⟩
  · rintro ⟨_, ⟨c, hc, rfl⟩, hr⟩
    obtain ⟨rest, rfl, hnil⟩ := Spot.reads_cons_iff.mp hr
    obtain rfl := Spot.reads_nil_iff.mp hnil
    simp [ends, hc]

theorem spells_most (p : Char → Bool) : (most p).Spells {s | ∀ c ∈ s, p c = true} := by
  intro spot e
  rw [ends, List.mem_reverse, Spot.mem_along_iff]
  rfl

theorem spells_fewest (p : Char → Bool) : (fewest p).Spells {s | ∀ c ∈ s, p c = true} := by
  intro spot e
  rw [ends, Spot.mem_along_iff]
  rfl

theorem Spells.append (ha : a.Spells L) (hb : b.Spells M) : (a ++ b).Spells (L * M) := by
  intro spot e
  rw [mem_ends_append]
  constructor
  · rintro ⟨mid, hm, he⟩
    obtain ⟨s, hs, hr⟩ := (ha spot mid).mp hm
    obtain ⟨t, ht, hr'⟩ := (hb mid e).mp he
    exact ⟨s ++ t, Language.append_mem_mul hs ht, Spot.reads_append_iff.mpr ⟨mid, hr, hr'⟩⟩
  · rintro ⟨_, ⟨s, hs, t, ht, rfl⟩, hr⟩
    obtain ⟨mid, hr, hr'⟩ := Spot.reads_append_iff.mp hr
    exact ⟨mid, (ha spot mid).mpr ⟨s, hs, hr⟩, (hb mid e).mpr ⟨t, ht, hr'⟩⟩

theorem Spells.alt (ha : a.Spells L) (hb : b.Spells M) : (alt a b).Spells (L + M) := by
  intro spot e
  rw [ends, List.mem_append, ha, hb]
  constructor
  · rintro (⟨s, hs, hr⟩ | ⟨s, hs, hr⟩)
    · exact ⟨s, .inl hs, hr⟩
    · exact ⟨s, .inr hs, hr⟩
  · rintro ⟨s, hs | hs, hr⟩
    · exact .inl ⟨s, hs, hr⟩
    · exact .inr ⟨s, hs, hr⟩

theorem Spells.star (ha : a.Spells L) : (star a).Spells L∗ := by
  intro spot e
  rw [ends, Spot.mem_repeated_iff ha]
  constructor
  · rintro (h | ⟨ss, _, hs, hr⟩)
    · cases h
    · exact ⟨ss.flatten, Language.mem_kstar.mpr ⟨ss, rfl, hs⟩, hr⟩
  · rintro ⟨s, hs, hr⟩
    -- texts that are not empty are at most as many as the characters that they are read from
    obtain ⟨ss, rfl, hss⟩ := Language.mem_kstar_iff_exists_nonempty.mp hs
    refine .inr ⟨ss, ?_, fun s h => (hss s h).1, hr⟩
    have hlen : (ss.map List.length).length ≤ (ss.map List.length).sum := by
      refine List.length_le_sum_of_one_le _ fun n hn => ?_
      obtain ⟨s, hs, rfl⟩ := List.mem_map.mp hn
      exact List.length_pos_iff.mpr (hss s hs).2
    rw [hr.1, List.length_append, List.length_flatten]
    rw [List.length_map] at hlen
    omega

theorem spells_some (p : Char → Bool) :
    (one p ++ most p).Spells {s | s ≠ [] ∧ ∀ c ∈ s, p c = true} := by
  refine ((spells_one p).append (spells_most p)).congr fun s => ?_
  constructor
  · rintro ⟨_, ⟨c, hc, rfl⟩, s, hs, rfl⟩
    exact ⟨by simp, List.forall_mem_cons.mpr ⟨hc, hs⟩⟩
  · rintro ⟨hne, hs⟩
    obtain ⟨c, s, rfl⟩ := List.exists_cons_of_ne_nil hne
    obtain ⟨hc, hs⟩ := List.forall_mem_cons.mp hs
    exact ⟨[c], ⟨c, hc, rfl⟩, s, hs, rfl⟩

theorem Spells.optional (ha : a.Spells L) : (optional a).Spells (L + {[]}) :=
  ha.alt (spells_lit [])

def gaps : Language Char := {s | ∀ c ∈ s, isBlank c = true}

def words : Language Char := {s | s ≠ [] ∧ ∀ c ∈ s, isWord c = true}

def quotationMarks : List Char := ['\'', '"']

def quotes : Language Char := {s | ∃ c ∈ quotationMarks, s = [c]}

theorem nil_mem_gaps : [] ∈ gaps := fun _ h => absurd h List.not_mem_nil

theorem singleton_mem_words {c : Char} (h : isWord c = true) : [c] ∈ words :=
  ⟨List.cons_ne_nil c [], List.forall_mem_singleton.mpr h⟩

theorem spells_blanks : blanks.Spells gaps := spells_most isBlank

theorem spells_word : word.Spells words := spells_some isWord

theorem spells_quote : quote.Spells quotes := by
  refine (spells_one _).congr fun s => exists_congr fun c => and_congr_left' ?_
  simp [quotationMarks]

theorem spells_anyOf_lit (ts : List Text) : (anyOf (ts.map lit)).Spells {s | s ∈ ts} := by
  match ts with
  | [] => exact (spells_one _).congr fun s => by simp
  | [t] => exact (spells_lit t).congr fun s => List.mem_singleton.symm
  | t :: t' :: ts =>
    exact ((spells_lit t).alt (spells_anyOf_lit (t' :: ts))).congr fun s => List.mem_cons.symm

theorem Spells.startsAt_append_finish_iff (ha : a.Spells L) (front : Text) :
    (a ++ finish).startsAt (.between front t) = true ↔ t ∈ L := by
  simp only [startsAt_iff_exists, mem_ends_append, mem_ends_finish]
  constructor
  · rintro ⟨_, mid, hm, hrest, rfl⟩
    obtain ⟨s, hs, hr⟩ := (ha _ _).mp hm
    obtain ⟨rest, rfl, rfl⟩ := hr.eq_between
    obtain rfl : rest = [] := hrest
    rwa [List.append_nil]
  · intro ht
    have hr := Spot.reads_between front t []
    rw [List.append_nil] at hr
    exact ⟨_, _, (ha _ _).mpr ⟨t, ht, hr⟩, rfl, rfl⟩

end Pattern

namespace Spot

variable {α : Type} {f : Spot → Option α} {b : Option Char} {t : Text} {n : Nat} {a : α}

/-- A search ends at the least place that gives something. -/
theorem search_eq_some_iff :
    search f b t = some (n, a) ↔
      n ≤ t.length ∧ f (between (b.toList ++ t.take n) (t.drop n)) = some a ∧
        ∀ m < n, f (between (b.toList ++ t.take m) (t.drop m)) = none := by
  have hstart (b : Option Char) (t : Text) :
      between (b.toList ++ t.take 0) (t.drop 0) = ⟨b, t⟩ := by
    cases b <;> rfl
  induction t generalizing b n with
  | nil =>
    rw [search, Option.map_eq_some_iff]
    constructor
    · rintro ⟨a', ha, he⟩
      obtain ⟨rfl, rfl⟩ := Prod.mk.inj he
      exact ⟨le_rfl, (hstart b []).symm ▸ ha, by simp⟩
    · rintro ⟨hn, ha, _⟩
      obtain rfl : n = 0 := by simpa using hn
      exact ⟨a, hstart b [] ▸ ha, rfl⟩
  | cons c t ih =>
    have hlater (m : Nat) : between (b.toList ++ (c :: t).take (m + 1)) ((c :: t).drop (m + 1)) =
        between ((some c).toList ++ t.take m) (t.drop m) := by
      simp [between, List.getLast?_append, List.getLast?_cons]
    rw [search]
    cases hf : f ⟨b, c :: t⟩ with
    | some a' =>
      constructor
      · rintro h
        obtain ⟨rfl, rfl⟩ := Prod.mk.inj (Option.some.inj h)
        exact ⟨Nat.zero_le _, by rw [hstart, hf], by simp⟩
      · rintro ⟨_, ha, hm⟩
        cases n with
        | zero =>
          rw [hstart, hf] at ha
          rw [Option.some.inj ha]
        | succ n =>
          have h0 := hm 0 (Nat.succ_pos n)
          rw [hstart, hf] at h0
          cases h0
    | none =>
      simp only [Option.map_eq_some_iff, Prod.exists, Prod.mk.injEq]
      constructor
      · rintro ⟨n', a', hs, rfl, rfl⟩
        obtain ⟨hn, ha, hm⟩ := ih.mp hs
        refine ⟨by simpa using hn, (hlater n').symm ▸ ha, fun m hlt => ?_⟩
        cases m with
        | zero => rw [hstart, hf]
        | succ m => rw [hlater, hm m (by omega)]
      · rintro ⟨hn, ha, hm⟩
        cases n with
        | zero =>
          rw [hstart, hf] at ha
          cases ha
        | succ n =>
          refine ⟨n, a, ih.mpr ⟨by simpa using hn, hlater n ▸ ha, fun m hlt => ?_⟩, rfl, rfl⟩
          rw [← hlater, hm (m + 1) (by omega)]

theorem isSome_search {front rest : Text} (h : (f (between (b.toList ++ front) rest)).isSome) :
    (search f b (front ++ rest)).isSome := by
  induction front generalizing b with
  | nil =>
    have hb : between (b.toList ++ []) rest = ⟨b, rest⟩ := by cases b <;> rfl
    obtain ⟨a, ha⟩ := Option.isSome_iff_exists.mp (hb ▸ h)
    cases rest <;> simp [search, ha]
  | cons c front ih =>
    have hb : between (b.toList ++ c :: front) rest =
        between ((some c).toList ++ front) rest := by
      simp [between, List.getLast?_append, List.getLast?_cons]
    rw [List.cons_append, search]
    split
    · rfl
    · rw [Option.isSome_map]
      exact ih (hb ▸ h)

end Spot

namespace Pattern

variable {p a b body back : Pattern} {L M : Language Char} {t w front rest : Text} {n : Nat}

theorem find?_eq_some_iff :
    p.find? t = some n ↔
      n ≤ t.length ∧ p.startsAt (.between (t.take n) (t.drop n)) = true ∧
        ∀ m < n, p.startsAt (.between (t.take m) (t.drop m)) = false := by
  have hs := Spot.search_eq_some_iff (f := fun spot => if p.startsAt spot then some () else none)
    (b := none) (t := t) (n := n) (a := ())
  simp only [Option.ite_none_right_eq_some, and_true, ite_eq_right_iff, reduceCtorEq, imp_false,
    Bool.not_eq_true] at hs
  simp only [Option.toList_none, List.nil_append] at hs
  rw [find?_eq_leftmost?, leftmost?, Option.map_eq_some_iff, ← hs]
  constructor
  · rintro ⟨⟨m, _⟩, h, rfl⟩
    exact h
  · intro h
    exact ⟨_, h, rfl⟩

def columns (p : Pattern) (t : Text) : Set Nat :=
  {n | ∃ front rest, t = front ++ rest ∧ front.length = n ∧
    p.startsAt (.between front rest) = true}

theorem isLeast_of_find? (h : p.find? t = some n) : IsLeast (p.columns t) n := by
  obtain ⟨hn, hs, hm⟩ := find?_eq_some_iff.mp h
  refine ⟨⟨t.take n, t.drop n, (List.take_append_drop n t).symm, List.length_take_of_le hn, hs⟩, ?_⟩
  rintro _ ⟨front, rest, rfl, rfl, hf⟩
  by_contra hlt
  have hnot := hm front.length (by omega)
  rw [List.take_left, List.drop_left, hf] at hnot
  cases hnot

theorem isSome_find? (h : n ∈ p.columns t) : (p.find? t).isSome = true := by
  obtain ⟨front, rest, rfl, -, hf⟩ := h
  rw [find?_eq_leftmost?, leftmost?, Option.isSome_map]
  apply Spot.isSome_search
  simp [hf]

theorem find?_eq_some_iff_isLeast : p.find? t = some n ↔ IsLeast (p.columns t) n := by
  refine ⟨isLeast_of_find?, fun h => ?_⟩
  obtain ⟨m, hm⟩ := Option.isSome_iff_exists.mp (isSome_find? h.1)
  rw [hm, (isLeast_of_find? hm).unique h]

theorem find?_eq_none_iff : p.find? t = none ↔ ∀ n, n ∉ p.columns t := by
  constructor
  · intro hnone n hn
    have hsome := isSome_find? hn
    rw [hnone] at hsome
    cases hsome
  · intro hnot
    rw [Option.eq_none_iff_forall_ne_some]
    intro n hn
    exact hnot n (isLeast_of_find? hn).1

theorem occursIn_iff :
    p.occursIn t = true ↔
      ∃ front rest, t = front ++ rest ∧ p.startsAt (.between front rest) = true := by
  rw [occursIn]
  constructor
  · intro h
    obtain ⟨n, hn⟩ := Option.isSome_iff_exists.mp h
    obtain ⟨front, rest, ht, -, hs⟩ := (isLeast_of_find? hn).1
    exact ⟨front, rest, ht, hs⟩
  · rintro ⟨front, rest, ht, hs⟩
    exact isSome_find? ⟨front, rest, ht, rfl, hs⟩

def offsets (p : Pattern) (t : Text) : Set Nat :=
  {o | ∃ front rest, t = front ++ rest ∧ front.byteSize = o ∧
    p.startsAt (.between front rest) = true}

/-- What is searched for is found at the least offset where it stands. -/
theorem isLeast_of_findOffset? {o : Nat} (h : p.findOffset? t = some o) :
    IsLeast (p.offsets t) o := by
  obtain ⟨n, hn, rfl⟩ := Option.map_eq_some_iff.mp h
  obtain ⟨⟨before, after, rfl, rfl, hs⟩, hm⟩ := isLeast_of_find? hn
  rw [List.take_left]
  refine ⟨⟨before, after, rfl, rfl, hs⟩, ?_⟩
  rintro _ ⟨front, rest, ht, rfl, hf⟩
  have hle : before.length ≤ front.length := hm ⟨front, rest, ht, rfl, hf⟩
  have hpre : before <+: before ++ after := List.prefix_append before after
  rw [ht] at hpre
  exact Text.byteSize_mono (List.prefix_of_prefix_length_le hpre (List.prefix_append _ _) hle)

theorem isSome_findOffset? {o : Nat} (h : o ∈ p.offsets t) : (p.findOffset? t).isSome = true := by
  obtain ⟨front, rest, ht, -, hf⟩ := h
  rw [findOffset?, Option.isSome_map]
  exact isSome_find? ⟨front, rest, ht, rfl, hf⟩

/-- The pattern starts at the edge of a word and reads the texts of the language from there. -/
def SpellsFromEdge (p : Pattern) (L : Language Char) : Prop :=
  ∀ spot e, e ∈ p.ends spot ↔ spot.isEdge = true ∧ ∃ s ∈ L, spot.Reads s e

theorem SpellsFromEdge.congr (h : p.SpellsFromEdge L) (hL : ∀ s, s ∈ L ↔ s ∈ M) :
    p.SpellsFromEdge M :=
  fun spot e => (h spot e).trans
    (and_congr_right' (exists_congr fun s => and_congr_left' (hL s)))

theorem Spells.edge_append (h : a.Spells L) : (edge ++ a).SpellsFromEdge L := by
  intro spot e
  rw [mem_ends_append, ← h spot e]
  simp only [mem_ends_edge, and_assoc, exists_eq_left, exists_and_left]

theorem SpellsFromEdge.append (ha : a.SpellsFromEdge L) (hb : b.Spells M) :
    (a ++ b).SpellsFromEdge (L * M) := by
  intro spot e
  rw [mem_ends_append]
  constructor
  · rintro ⟨mid, hm, he⟩
    obtain ⟨hedge, s, hs, hr⟩ := (ha spot mid).mp hm
    obtain ⟨t, ht, hr'⟩ := (hb mid e).mp he
    exact ⟨hedge, s ++ t, Language.append_mem_mul hs ht,
      Spot.reads_append_iff.mpr ⟨mid, hr, hr'⟩⟩
  · rintro ⟨hedge, _, ⟨s, hs, t, ht, rfl⟩, hr⟩
    obtain ⟨mid, hr, hr'⟩ := Spot.reads_append_iff.mp hr
    exact ⟨mid, (ha spot mid).mpr ⟨hedge, s, hs, hr⟩, (hb mid e).mpr ⟨t, ht, hr'⟩⟩

/-- Where a pattern starts that reads from one edge to another. -/
theorem SpellsFromEdge.startsAt_append_edge_iff (h : a.SpellsFromEdge L) :
    (a ++ edge).startsAt (.between front t) = true ↔
      (Spot.between front t).isEdge = true ∧ ∃ s ∈ L, ∃ rest, t = s ++ rest ∧
        (Spot.between (front ++ s) rest).isEdge = true := by
  simp only [startsAt_iff_exists, mem_ends_append, mem_ends_edge]
  constructor
  · rintro ⟨_, mid, hm, hedge, rfl⟩
    obtain ⟨hstart, s, hs, hr⟩ := (h _ _).mp hm
    obtain ⟨rest, ht, rfl⟩ := hr.eq_between
    exact ⟨hstart, s, hs, rest, ht, hedge⟩
  · rintro ⟨hstart, s, hs, rest, rfl, hedge⟩
    exact ⟨_, _, (h _ _).mpr ⟨hstart, s, hs, Spot.reads_between front s rest⟩, hedge, rfl⟩

theorem SpellsFromEdge.startsAt_append_edge_iff_of_head (h : a.SpellsFromEdge L)
    (hL : ∀ s ∈ L, s.head?.any isWord = true) (front t : Text) :
    (a ++ edge).startsAt (.between front t) = true ↔
      front.getLast?.any isWord = false ∧ ∃ s ∈ L, ∃ rest, t = s ++ rest ∧
        s.getLast?.any isWord ≠ rest.head?.any isWord := by
  have hstart {s : Text} (hs : s ∈ L) := Spot.isEdge_between_append_of_head (hL s hs) front
  have hend {s : Text} (hs : s ∈ L) (rest : Text) :
      (Spot.between (front ++ s) rest).isEdge = true ↔
        s.getLast?.any isWord ≠ rest.head?.any isWord := by
    apply Spot.isEdge_between_append
    rintro rfl
    cases hL [] hs
  rw [h.startsAt_append_edge_iff]
  constructor
  · rintro ⟨hfirst, s, hs, rest, rfl, hlast⟩
    exact ⟨(hstart hs rest).mp hfirst, s, hs, rest, rfl, (hend hs rest).mp hlast⟩
  · rintro ⟨hfirst, s, hs, rest, rfl, hlast⟩
    exact ⟨(hstart hs rest).mpr hfirst, s, hs, rest, rfl, (hend hs rest).mpr hlast⟩

theorem SpellsFromEdge.occursIn_append_edge_iff (h : a.SpellsFromEdge L)
    (hL : ∀ s ∈ L, s.head?.any isWord = true) :
    (a ++ edge).occursIn t = true ↔
      ∃ front s rest, t = front ++ (s ++ rest) ∧ front.getLast?.any isWord = false ∧ s ∈ L ∧
        s.getLast?.any isWord ≠ rest.head?.any isWord := by
  simp only [occursIn_iff, h.startsAt_append_edge_iff_of_head hL]
  constructor
  · rintro ⟨front, _, rfl, hfree, s, hs, rest, rfl, hend⟩
    exact ⟨front, s, rest, rfl, hfree, hs, hend⟩
  · rintro ⟨front, s, rest, rfl, hfree, hs, hend⟩
    exact ⟨front, _, rfl, hfree, s, hs, rest, rfl, hend⟩

theorem SpellsFromEdge.occursIn_iff_of_head (h : a.SpellsFromEdge L)
    (hL : ∀ s ∈ L, s.head?.any isWord = true) :
    a.occursIn t = true ↔
      ∃ front s rest, t = front ++ (s ++ rest) ∧ front.getLast?.any isWord = false ∧ s ∈ L := by
  have hstart {s : Text} (hs : s ∈ L) := Spot.isEdge_between_append_of_head (hL s hs)
  simp only [occursIn_iff, startsAt_iff_exists, h _ _]
  constructor
  · rintro ⟨front, _, rfl, _, hedge, s, hs, hr⟩
    obtain ⟨rest, rfl, -⟩ := hr.eq_between
    exact ⟨front, s, rest, rfl, (hstart hs front rest).mp hedge, hs⟩
  · rintro ⟨front, s, rest, rfl, hfree, hs⟩
    exact ⟨front, _, rfl, _, (hstart hs front rest).mpr hfree, s, hs,
      Spot.reads_between front s rest⟩

/-- `w` stands between `front` and `rest`, from the edge of a word on, and `back` can start
after it. -/
structure Capture (L : Language Char) (back : Pattern) (front w rest : Text) : Prop where
  mem : w ∈ L
  isEdge : (Spot.between front (w ++ rest)).isEdge = true
  starts : back.startsAt (.between (front ++ w) rest) = true

theorem mem_between_iff {spot : Spot} (hb : body.Spells L) :
    w ∈ (edge.ends spot).flatMap (fun first =>
      ((body.ends first).filter back.startsAt).map first.textUntil) ↔
      spot.isEdge = true ∧ w ∈ L ∧ ∃ e, spot.Reads w e ∧ back.startsAt e = true := by
  simp only [List.mem_flatMap, List.mem_map, List.mem_filter, mem_ends_edge, hb _ _]
  constructor
  · rintro ⟨_, ⟨hedge, rfl⟩, e, ⟨⟨s, hs, hr⟩, he⟩, rfl⟩
    rw [hr.textUntil_eq]
    exact ⟨hedge, hs, e, hr, he⟩
  · rintro ⟨hedge, hw, e, hr, he⟩
    exact ⟨spot, ⟨hedge, rfl⟩, e, ⟨⟨w, hw, hr⟩, he⟩, hr.textUntil_eq⟩

theorem capture_of_between? (hb : body.Spells L)
    (h : between? edge body back (.between front t) = some w) :
    ∃ rest, t = w ++ rest ∧ Capture L back front w rest := by
  obtain ⟨hedge, hw, e, hr, he⟩ := (mem_between_iff hb).mp (List.mem_of_mem_head? h)
  obtain ⟨rest, rfl, rfl⟩ := hr.eq_between
  exact ⟨rest, rfl, hw, hedge, he⟩

theorem Capture.isSome_between? (h : Capture L back front w rest) (hb : body.Spells L) :
    (between? edge body back (.between front (w ++ rest))).isSome = true := by
  have hr := Spot.reads_between front w rest
  have hm := (mem_between_iff hb).mpr ⟨h.isEdge, h.mem, _, hr, h.starts⟩
  rw [between?, List.isSome_head?]
  simpa using List.ne_nil_of_mem hm

/-- What is captured is read at the leftmost spot where anything is. -/
theorem capture?_eq_some_iff {first : Pattern} :
    capture? first body back t = some w ↔
      ∃ front rest, t = front ++ rest ∧ between? first body back (.between front rest) = some w ∧
        ∀ front' rest', t = front' ++ rest' → front'.length < front.length →
          between? first body back (.between front' rest') = none := by
  simp only [capture?, Option.map_eq_some_iff, Prod.exists, exists_eq_right,
    Spot.search_eq_some_iff, Option.toList_none, List.nil_append]
  constructor
  · rintro ⟨n, hn, hw, hm⟩
    refine ⟨t.take n, t.drop n, (List.take_append_drop n t).symm, hw, ?_⟩
    rintro front' rest' rfl hlt
    have hnone := hm front'.length (by rwa [List.length_take_of_le hn] at hlt)
    rwa [List.take_left, List.drop_left] at hnone
  · rintro ⟨front, rest, rfl, hw, hm⟩
    refine ⟨front.length, by simp, by rwa [List.take_left, List.drop_left], fun m hlt => ?_⟩
    refine hm _ _ (List.take_append_drop m _).symm ?_
    rw [List.length_take_of_le (by rw [List.length_append]; omega)]
    exact hlt

theorem capture?_eq_some (hb : body.Spells L) (h : capture? edge body back t = some w) :
    ∃ front rest, t = front ++ (w ++ rest) ∧ Capture L back front w rest ∧
      ∀ front' w' rest', t = front' ++ (w' ++ rest') → Capture L back front' w' rest' →
        front.length ≤ front'.length := by
  obtain ⟨front, after, rfl, hw, hm⟩ := capture?_eq_some_iff.mp h
  obtain ⟨rest, rfl, hc⟩ := capture_of_between? hb hw
  refine ⟨front, rest, rfl, hc, ?_⟩
  intro front' w' rest' ht hc'
  by_contra hlt
  have hsome := hc'.isSome_between? hb
  rw [hm front' _ ht (by omega)] at hsome
  cases hsome

theorem Capture.isSome_capture? (h : Capture L back front w rest) (hb : body.Spells L) :
    (capture? edge body back (front ++ (w ++ rest))).isSome = true := by
  rw [capture?, Option.isSome_map]
  exact Spot.isSome_search (h.isSome_between? hb)

end Pattern

end RailsLookup
