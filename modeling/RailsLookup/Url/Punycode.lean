import RailsLookup.Text.Basic

/-! # Names of hosts in ASCII

A label of a domain that has characters beyond ASCII is written in ASCII: first its ASCII
characters, then in order of value where the others go. The numbers that say so have digits whose
bases adapt to the numbers before them.
-/

namespace RailsLookup.Punycode

def digits : Text := "abcdefghijklmnopqrstuvwxyz0123456789".toList

def digit (n : Nat) : Char := digits.getD n 'a'

/-- The least digit with which a number goes on after the place `k`. -/
def threshold (bias k : Nat) : Nat := min 26 (max 1 (k - bias))

def number (bias k q : Nat) : Text :=
  let t := threshold bias k
  if q < t then [digit q]
  else digit (t + (q - t) % (36 - t)) :: number bias (k + 36) ((q - t) / (36 - t))
termination_by q
decreasing_by
  have ht : 0 < threshold bias k := by simp only [threshold]; omega
  exact Nat.lt_of_le_of_lt (Nat.div_le_self _ _) (by omega)

def settle (k delta : Nat) : Nat :=
  if 455 < delta then settle (k + 36) (delta / 35) else k + 36 * delta / (delta + 38)
termination_by delta

/-- The bias after a number has been written, for the count of characters so far. -/
def adapt (isFirst : Bool) (delta count : Nat) : Nat :=
  let delta := if isFirst then delta / 700 else delta / 2
  settle 0 (delta + delta / count)

structure Progress where
  output : Text := []
  /-- The places passed since the last number was written. -/
  delta : Nat := 0
  bias : Nat := 72
  count : Nat
  next : Nat := 0x80

namespace Progress

/-- Passes a character of the label on the way to those of value `n`. -/
def pass (basic n : Nat) (p : Progress) (c : Char) : Progress :=
  if c.toNat < n then { p with delta := p.delta + 1 }
  else if c.toNat = n then
    { p with
      output := p.output ++ number p.bias 36 p.delta
      delta := 0
      bias := adapt (p.count == basic) p.delta (p.count + 1)
      count := p.count + 1 }
  else p

def place (t : Text) (basic : Nat) (p : Progress) (n : Nat) : Progress :=
  let start := { p with delta := p.delta + (n - p.next) * (p.count + 1) }
  let p := t.foldl (pass basic n) start
  { p with delta := p.delta + 1, next := n + 1 }

end Progress

def isBasic (c : Char) : Bool := c.toNat < 0x80

def encode (t : Text) : Text :=
  let basic := t.filter isBasic
  let others := ((t.filter (!isBasic ·)).map Char.toNat).mergeSort.eraseDups
  let p := others.foldl (Progress.place t basic.length) { count := basic.length }
  basic ++ (if basic.isEmpty then [] else ['-']) ++ p.output

def label (t : Text) : Text := if t.all isBasic then t else "xn--".toList ++ encode t

def domain (t : Text) : Text := ['.'].intercalate ((t.splitOn '.').map label)

end RailsLookup.Punycode
