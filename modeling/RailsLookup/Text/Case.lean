import RailsLookup.Text.Basic
import RailsLookup.Text.Ranges
import RailsLookup.Text.CaseRun
import RailsLookup.Text.Cased

/-! # Upper and lower case

Full case mappings: one character may become several, and a capital sigma becomes a final
sigma at the end of a word.
-/

namespace RailsLookup

namespace Case

def mapped (runs : List CaseRun) (many : List (Nat × List Nat)) (c : Char) : Text :=
  match many.lookup c.toNat with
  | some points => points.map Char.ofNat
  | none =>
    match CaseRun.image? runs c.toNat with
    | some n => [Char.ofNat n]
    | none => [c]

def upperChar (c : Char) : Text := mapped CaseRun.upper CaseRun.upperMany c

def lowerChar (c : Char) : Text := mapped CaseRun.lower CaseRun.lowerMany c

/-- Whether the first character that is not case-ignorable is cased. -/
def meetsCased : Text → Bool
  | [] => false
  | c :: rest =>
    if Ranges.contains Ranges.caseIgnorable c.toNat then meetsCased rest
    else Ranges.contains Ranges.cased c.toNat

/-- Lower case of a text whose preceding characters, the nearest first, are given. -/
def lowerAfter : Text → Text → Text
  | _, [] => []
  | seen, c :: rest =>
    let image :=
      if c = 'Σ' then [if meetsCased seen && !meetsCased rest then 'ς' else 'σ']
      else lowerChar c
    image ++ lowerAfter (c :: seen) rest

end Case

namespace Text

def lower (t : Text) : Text := Case.lowerAfter [] t

def capitalize : Text → Text
  | [] => []
  | c :: rest => Case.upperChar c ++ rest

end Text

end RailsLookup
