import RailsLookup.Text.Spot

/-! # Patterns

A pattern starts at a spot of a text and lists the spots where it may end, the preferred
ones first. Runs are tried longest first, or shortest first if they are reluctant.
-/

namespace RailsLookup

inductive Pattern where
  | lit (s : Text)
  | one (p : Char → Bool)
  /-- Any number of characters of a class, the most first. -/
  | most (p : Char → Bool)
  /-- Any number of characters of a class, the fewest first. -/
  | fewest (p : Char → Bool)
  | edge
  | finish
  | seq (a b : Pattern)
  | alt (a b : Pattern)
  | star (a : Pattern)

namespace Pattern

instance : Append Pattern := ⟨seq⟩

/-- The spots where the pattern can end, the preferred first. -/
def ends : Pattern → Spot → List Spot
  | lit s, spot => (Spot.skip? s spot).toList
  | one p, spot =>
    match spot.rest with
    | [] => []
    | c :: rest => if p c then [⟨some c, rest⟩] else []
  | most p, spot => (Spot.along p spot.before spot.rest).reverse
  | fewest p, spot => Spot.along p spot.before spot.rest
  | edge, spot => if spot.isEdge then [spot] else []
  | finish, spot => if spot.rest.isEmpty then [spot] else []
  | seq a b, spot => (a.ends spot).flatMap b.ends
  | alt a b, spot => a.ends spot ++ b.ends spot
  | star a, spot => Spot.repeated a.ends spot.rest.length spot []

theorem suffix_of_mem_ends {p : Pattern} {spot e : Spot} (h : e ∈ p.ends spot) :
    e.rest <:+ spot.rest := by
  induction p generalizing spot e with
  | lit s =>
    simp only [ends, Option.mem_toList] at h
    exact ⟨s, (Spot.rest_eq_of_skip?_eq_some h).symm⟩
  | one p =>
    simp only [ends] at h
    split at h
    · simp at h
    · next c rest hr =>
      split at h
      · obtain rfl := List.mem_singleton.1 h
        exact hr ▸ List.suffix_cons c rest
      · simp at h
  | most p => exact Spot.suffix_of_mem_along (List.mem_reverse.1 h)
  | fewest p => exact Spot.suffix_of_mem_along h
  | edge =>
    simp only [ends] at h
    split at h <;> simp_all
  | finish =>
    simp only [ends] at h
    split at h <;> simp_all
  | seq a b iha ihb =>
    obtain ⟨mid, hm, he⟩ := List.mem_flatMap.1 h
    exact (ihb he).trans (iha hm)
  | alt a b iha ihb => exact (List.mem_append.1 h).elim iha ihb
  | star a ih =>
    simpa using Spot.suffix_of_mem_repeated (fun _ _ => ih) h

/-- Texts that every match contains. -/
def required : Pattern → List Text
  | lit s => [s]
  | seq a b => a.required ++ b.required
  | _ => []

theorem infix_of_mem_required {p : Pattern} {spot e : Spot} (h : e ∈ p.ends spot) {s : Text}
    (hs : s ∈ p.required) : s <:+: spot.rest := by
  induction p generalizing spot e with
  | lit t =>
    obtain rfl := List.mem_singleton.1 hs
    simp only [ends, Option.mem_toList] at h
    exact ⟨[], e.rest, by simp [Spot.rest_eq_of_skip?_eq_some h]⟩
  | seq a b iha ihb =>
    obtain ⟨mid, hm, he⟩ := List.mem_flatMap.1 h
    obtain hs | hs := List.mem_append.1 hs
    · exact iha hm hs
    · exact (ihb he hs).trans (suffix_of_mem_ends hm).isInfix
  | _ => simp [required] at hs

/-- Whether the pattern can end at a spot that satisfies `k`. This asks only until one is found. -/
def meets : Pattern → (Spot → Bool) → Spot → Bool
  | lit s, k, spot => (Spot.skip? s spot).any k
  | one p, k, spot =>
    match spot.rest with
    | [] => false
    | c :: rest => p c && k ⟨some c, rest⟩
  | most p, k, spot | fewest p, k, spot => Spot.anyAlong p k spot.before spot.rest
  | edge, k, spot => spot.isEdge && k spot
  | finish, k, spot => spot.rest.isEmpty && k spot
  | seq a b, k, spot => a.meets (b.meets k) spot
  | alt a b, k, spot => a.meets k spot || b.meets k spot
  | star a, k, spot => Spot.anyRepeated a.meets k spot.rest.length spot

theorem meets_eq_any_ends (p : Pattern) (k : Spot → Bool) (spot : Spot) :
    p.meets k spot = (p.ends spot).any k := by
  induction p generalizing k spot with
  | lit s => cases h : Spot.skip? s spot <;> simp [meets, ends, h]
  | one p =>
    simp only [meets, ends]
    split
    · rfl
    · next c rest _ => cases p c <;> simp
  | most p => simp [meets, ends, Spot.anyAlong_eq]
  | fewest p => simp [meets, ends, Spot.anyAlong_eq]
  | edge => cases h : spot.isEdge <;> simp [meets, ends, h]
  | finish => cases h : spot.rest.isEmpty <;> simp [meets, ends, h]
  | seq a b iha ihb =>
    have hb : b.meets k = fun s => (b.ends s).any k := funext (ihb k)
    simp [meets, ends, iha, hb, List.any_flatMap]
  | alt a b iha ihb => simp [meets, ends, iha, ihb]
  | star a ih =>
    rw [meets, ends, ← Spot.anyRepeated_eq ih]
    simp

def startsAt (p : Pattern) (spot : Spot) : Bool := p.meets (fun _ => true) spot

theorem startsAt_iff {p : Pattern} {spot : Spot} : p.startsAt spot ↔ p.ends spot ≠ [] := by
  rw [startsAt, meets_eq_any_ends]
  cases p.ends spot <;> simp

def optional (a : Pattern) : Pattern := alt a (lit [])

def anyOf : List Pattern → Pattern
  | [] => one fun _ => false
  | [a] => a
  | a :: b :: rest => alt a (anyOf (b :: rest))

def word : Pattern := one isWord ++ most isWord

def blanks : Pattern := most isBlank

def gap : Pattern := one isBlank ++ most isBlank

def quote : Pattern := one fun c => c == '\'' || c == '"'

end Pattern

end RailsLookup
