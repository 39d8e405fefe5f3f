import RailsLookup.Text.Pattern

/-! # Searches

A search takes the leftmost spot at which a pattern can start. A text that lacks a part which
every match has is passed over at once.
-/

namespace RailsLookup

/-- The first spot from which `f` gives something, as the number of characters before it, with
what it gives. -/
def Spot.search {α : Type} (f : Spot → Option α) : Option Char → Text → Option (Nat × α)
  | b, [] => (f ⟨b, []⟩).map (0, ·)
  | b, c :: rest =>
    match f ⟨b, c :: rest⟩ with
    | some a => some (0, a)
    | none => (search f (some c) rest).map fun (n, a) => (n + 1, a)

theorem Spot.exists_of_search_isSome {α : Type} {f : Spot → Option α} {b : Option Char}
    {t : Text} (h : (search f b t).isSome) : ∃ spot, (f spot).isSome ∧ spot.rest <:+ t := by
  induction t generalizing b with
  | nil => exact ⟨⟨b, []⟩, by simpa [search] using h, List.suffix_rfl⟩
  | cons c rest ih =>
    simp only [search] at h
    split at h
    · next a ha => exact ⟨⟨b, c :: rest⟩, by simp [ha], List.suffix_rfl⟩
    · obtain ⟨spot, hf, hr⟩ := ih (by simpa using h)
      exact ⟨spot, hf, hr.trans (List.suffix_cons c rest)⟩

namespace Pattern

def leftmost? (p : Pattern) (t : Text) : Option Nat :=
  (Spot.search (fun spot => if p.startsAt spot then some () else none) none t).map (·.1)

/-- The number of characters before the leftmost match; `none` at once if something required is
missing. -/
def find? (p : Pattern) (t : Text) : Option Nat :=
  if p.required.all (Text.occurs · t) then p.leftmost? t else none

theorem find?_eq_leftmost? (p : Pattern) (t : Text) : p.find? t = p.leftmost? t := by
  rw [find?]
  split
  · rfl
  · next hr =>
    cases hl : p.leftmost? t with
    | none => rfl
    | some n =>
      have hs : (p.leftmost? t).isSome := by simp [hl]
      rw [leftmost?, Option.isSome_map] at hs
      obtain ⟨spot, hf, hsub⟩ := Spot.exists_of_search_isSome hs
      have hst : p.startsAt spot := by simpa [Option.isSome_ite] using hf
      obtain ⟨e, he⟩ := List.exists_mem_of_ne_nil _ (startsAt_iff.1 hst)
      refine absurd (List.all_eq_true.2 fun s hm => Text.occurs_iff_infix.2 ?_) hr
      exact (infix_of_mem_required he hm).trans hsub.isInfix

def occursIn (p : Pattern) (t : Text) : Bool := (p.find? t).isSome

def opens (p : Pattern) (t : Text) : Bool := p.startsAt (.ofText t)

def findOffset? (p : Pattern) (t : Text) : Option Nat :=
  (p.find? t).map fun n => Text.byteSize (t.take n)

/-- The position of the leftmost match in the first line that has one. -/
def findInLines? (p : Pattern) (t : Text) : Option Position :=
  go 0 t.lines
where
  go (number : Nat) : List Text → Option Position
    | [] => none
    | l :: ls =>
      match p.find? l with
      | some column => some ⟨number, column⟩
      | none => go (number + 1) ls

def between? (front body back : Pattern) (spot : Spot) : Option Text :=
  ((front.ends spot).flatMap fun first =>
    ((body.ends first).filter back.startsAt).map first.textUntil).head?

def capture? (front body back : Pattern) (t : Text) : Option Text :=
  (Spot.search (between? front body back) none t).map (·.2)

end Pattern

end RailsLookup
