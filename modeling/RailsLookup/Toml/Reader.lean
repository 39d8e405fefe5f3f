import RailsLookup.Toml.Scalar
import RailsLookup.Toml.Draft

/-! # Reading TOML

A document is a sequence of lines that assign values and open tables. Every step of the
reader consumes a character, so a bound by the length of the text is never reached. Values
nest at most 80 deep.
-/

namespace RailsLookup.Toml

namespace Reader

def skipBlanks (t : Text) : Text := t.dropWhile isSpaceOrTab

def lineEnd? (t : Text) : Option Text :=
  let t :=
    match skipBlanks t with
    | '#' :: rest => rest.dropWhile isPrintable
    | rest => rest
  if t.isEmpty then some [] else newline? t

def skipSpace (inComment : Bool) : Text → Text
  | [] => []
  | '\r' :: '\n' :: rest => skipSpace false rest
  | c :: rest =>
    if c == '\n' then skipSpace false rest
    else if inComment && isPrintable c then skipSpace true rest
    else if !inComment && c == '#' then skipSpace true rest
    else if !inComment && isSpaceOrTab c then skipSpace false rest
    else c :: rest

def isBare (c : Char) : Bool := c.isAlphanum || c == '_' || c == '-'

def simpleKey? (t : Text) : Option (Text × Text) :=
  match t with
  | '"' :: rest => basicString [] rest
  | '\'' :: rest => literalString [] rest
  | _ =>
    let key := t.takeWhile isBare
    if key.isEmpty then none else some (key, t.dropWhile isBare)

def key? : Nat → Text → Option (List Text × Text)
  | 0, _ => none
  | bound + 1, t => do
    let (first, rest) ← simpleKey? (skipBlanks t)
    match skipBlanks rest with
    | '.' :: rest => (key? bound rest).map fun (more, rest) => (first :: more, rest)
    | rest => return ([first], rest)

def inWord (c : Char) : Bool :=
  !(isSpaceOrTab c || c == '\r' || c == '\n' || c == ',' || c == ']' || c == '\x7d' || c == '#')

/-- A value that is written as a word, or as a date and a time with a blank between them. -/
def word? (t : Text) : Option (Toml × Text) :=
  let w := t.takeWhile inWord
  let rest := t.dropWhile inWord
  match rest with
  | ' ' :: c :: more =>
    if c.isDigit && date? w == some [] then
      let rest := c :: more
      (scalar? (w ++ ' ' :: rest.takeWhile inWord)).map (·, rest.dropWhile inWord)
    else (scalar? w).map (·, rest)
  | _ => (scalar? w).map (·, rest)

/-- The first line end after opening quotation marks does not count. -/
def dropNewline (t : Text) : Text := (newline? t).getD t

mutual

def value? : Nat → Nat → Text → Option (Toml × Text)
  | 0, _, _ => none
  | bound + 1, depth, t =>
    match t with
    | '"' :: '"' :: '"' :: rest =>
      (longBasicString false [] (dropNewline rest)).map fun (s, rest) => (string s, rest)
    | '"' :: rest => (basicString [] rest).map fun (s, rest) => (string s, rest)
    | '\'' :: '\'' :: '\'' :: rest =>
      (longLiteralString [] (dropNewline rest)).map fun (s, rest) => (string s, rest)
    | '\'' :: rest => (literalString [] rest).map fun (s, rest) => (string s, rest)
    | '[' :: rest =>
      match depth with
      | 0 => none
      | depth + 1 => (items? bound depth [] rest).map fun (vs, rest) => (array vs, rest)
    | '\x7b' :: rest =>
      match depth with
      | 0 => none
      | depth + 1 =>
        (entries? bound depth [] rest).map fun (es, rest) => (table (Draft.finishEntries es), rest)
    | _ => word? t

def items? : Nat → Nat → List Toml → Text → Option (List Toml × Text)
  | 0, _, _, _ => none
  | bound + 1, depth, done, t =>
    match skipSpace false t with
    | ']' :: rest => some (done.reverse, rest)
    | t =>
      match value? bound depth t with
      | none => none
      | some (v, rest) =>
        match skipSpace false rest with
        | ',' :: rest => items? bound depth (v :: done) rest
        | ']' :: rest => some ((v :: done).reverse, rest)
        | _ => none

def entries? : Nat → Nat → Draft.Entries → Text → Option (Draft.Entries × Text)
  | 0, _, _, _ => none
  | bound + 1, depth, done, t =>
    match skipSpace false t with
    | '\x7d' :: rest => some (done, rest)
    | t =>
      match key? (t.length + 1) t with
      | some (key, '=' :: rest) =>
        match value? bound depth (skipBlanks rest) with
        | none => none
        | some (v, rest) =>
          match Draft.assign done v key with
          | none => none
          | some done =>
            match skipSpace false rest with
            | ',' :: rest => entries? bound depth done rest
            | '\x7d' :: rest => some (done, rest)
            | _ => none
      | _ => none

end

def header? (t : Text) : Option (Bool × List Text × Text) :=
  match t with
  | '[' :: '[' :: rest =>
    match key? (rest.length + 1) rest with
    | some (key, ']' :: ']' :: rest) => some (true, key, rest)
    | _ => none
  | '[' :: rest =>
    match key? (rest.length + 1) rest with
    | some (key, ']' :: rest) => some (false, key, rest)
    | _ => none
  | _ => none

/-- Read the lines of a document below the table `current`. -/
def lines? : Nat → Draft.Entries → List Text → Text → Option Draft.Entries
  | 0, _, _, _ => none
  | bound + 1, done, current, t =>
    if t.isEmpty then some done
    else
      match lineEnd? t with
      | some rest => lines? bound done current rest
      | none =>
        let t := skipBlanks t
        if t.head? = some '[' then do
          let (isElement, key, rest) ← header? t
          let done ← if isElement then Draft.openElement done key else Draft.openTable done key
          lines? bound done key (← lineEnd? rest)
        else
          match key? (t.length + 1) t with
          | some (key, '=' :: rest) => do
            let (v, rest) ← value? (rest.length + 1) 80 (skipBlanks rest)
            let done ← Draft.assignIn done v key current
            lines? bound done current (← lineEnd? rest)
          | _ => none

end Reader

def parse? (t : Text) : Option Toml :=
  let t :=
    match t with
    | '\uFEFF' :: rest => rest
    | _ => t
  (Reader.lines? (t.length + 1) [] [] t).map fun es => table (Draft.finishEntries es)

end RailsLookup.Toml
