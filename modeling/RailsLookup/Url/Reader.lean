import RailsLookup.Url.Basic

/-! # Reading URLs

Blanks around a URL and tabs and line ends anywhere in it do not count. In a special URL a
backslash is a slash. Dot segments are resolved, and what may not stand in a part is
percent-encoded.
-/

namespace RailsLookup.Url

namespace Reader

/-- The special schemes, with the socket numbers that they have by default; `file` has none. -/
def specialSchemes : List (String × Option Nat) :=
  [("http", some 80), ("https", some 443), ("ws", some 80), ("wss", some 443), ("ftp", some 21),
   ("file", none)]

def cleaned (t : Text) : Text :=
  let isEdge (c : Char) : Bool := c.toNat ≤ 0x20
  let trimmed := ((t.dropWhile isEdge).reverse.dropWhile isEdge).reverse
  trimmed.filter fun c => !(c == '\t' || c == '\n' || c == '\r')

def cut (c : Char) (t : Text) : Text × Option Text :=
  match t.dropWhile (· != c) with
  | [] => (t, none)
  | _ :: rest => (t.takeWhile (· != c), some rest)

def isScheme (t : Text) : Bool :=
  t.head?.any Char.isAlpha && t.all fun c => c.isAlphanum || c == '+' || c == '-' || c == '.'

def isDot (segment : Text) : Bool :=
  [".", "%2e"].contains (String.ofList (segment.map Char.toLower))

def isDotDot (segment : Text) : Bool :=
  ["..", ".%2e", "%2e.", "%2e%2e"].contains (String.ofList (segment.map Char.toLower))

def isDrive : Text → Bool
  | [a, b] => a.isAlpha && (b == ':' || b == '|')
  | _ => false

/-- The segments, the last one first, without the last one. A drive stays. -/
def up : List Text → List Text
  | [] => []
  | s :: rest => if isDrive s then s :: rest else rest

/-- Resolve the dots in segments that follow those of `done`, the last of which comes first. -/
def resolveDots (done : List Text) : List Text → List Text
  | [] => done.reverse
  | s :: rest =>
    if isDotDot s then
      if rest.isEmpty then ([] :: up done).reverse else resolveDots (up done) rest
    else if isDot s then
      if rest.isEmpty then ([] :: done).reverse else resolveDots done rest
    else resolveDots (Percent.encode Percent.inPath s.utf8 :: done) rest

def segments (t : Text) : List Text :=
  let t :=
    match t with
    | '/' :: rest => rest
    | _ => t
  resolveDots [] (t.splitOn '/')

def dropEmpty (ss : List Text) : List Text :=
  match ss.dropWhile List.isEmpty with
  | [] => [[]]
  | rest => rest

def socket? (default : Option Nat) (t : Text) : Option (Option Nat) :=
  if t.isEmpty then some none
  else
    ((Digits.number? 10 t).filter (· < 0x10000)).map fun n =>
      if default = some n then none else some n

/-- The host and the text of the socket after it. A colon in brackets belongs to the host. -/
def hostAndSocket (t : Text) : Text × Text :=
  match t with
  | '[' :: _ =>
    let host := t.takeWhile (· != ']')
    let rest := t.dropWhile (· != ']')
    let (more, socket) := cut ':' rest
    (host ++ more, socket.getD [])
  | _ =>
    let (host, socket) := cut ':' t
    (host, socket.getD [])

def login? (t : Text) : Option (Text × Text) × Text :=
  match Text.cutLast ['@'] t with
  | none => (none, t)
  | some (info, rest) =>
    let (user, password) := cut ':' info
    let encode (t : Text) : Text := Percent.encode Percent.inUserInfo t.utf8
    (some (encode user, encode (password.getD [])), rest)

def authority? (special : Option (Option Nat)) (t : Text) : Option Authority := do
  let (login, rest) := login? t
  let (user, password) := login.getD ([], [])
  let (hostText, socketText) := hostAndSocket rest
  let host ← if special.isSome then Host.special? hostText else Host.other? hostText
  guard (!(host.isEmpty && (login.isSome || rest.contains ':')))
  let socket? ← socket? special.join socketText
  return { user, password, host, socket? }

def settleDrive : List Text → List Text
  | [a, b] :: ss => [a, if isDrive [a, b] then ':' else b] :: ss
  | ss => ss

def fileSegments (t : Text) : List Text :=
  dropEmpty (settleDrive (resolveDots [] (t.splitOn '/')))

/-- The authority and path of a `file` URL on a host. A path that begins with a drive has none. -/
def onHost (path host : Text) : Authority × List Text :=
  if host = "localhost".toList then ({}, fileSegments path)
  else
    let ss := fileSegments (path.drop 1)
    ({ host := if ss.head?.any isDrive then [] else host }, ss)

def file? (t : Text) : Option (Authority × List Text) :=
  match t with
  | '/' :: '/' :: rest =>
    let host := rest.takeWhile (· != '/')
    let path := rest.dropWhile (· != '/')
    if isDrive host then some ({}, fileSegments rest)
    -- no drive is looked for after the empty segment in front of the slash
    else if host.isEmpty then some ({}, fileSegments path)
    else (Host.special? host).map (onHost path)
  | '/' :: rest => some ({}, fileSegments rest)
  | _ => some ({}, fileSegments t)

def hierarchy? (scheme : Text) (t : Text) : Option (Option Authority × UrlPath) :=
  match specialSchemes.lookup (String.ofList scheme) with
  | some socket =>
    let t := Text.replaceChar '\\' '/' t
    if scheme = "file".toList then
      (file? t).map fun (authority, ss) => (some authority, .segments ss)
    else do
      let t := t.dropWhile (· == '/')
      let authority ← authority? (some socket) (t.takeWhile (· != '/'))
      return (some authority, .segments (segments (t.dropWhile (· != '/'))))
  | none =>
    match t with
    | '/' :: '/' :: rest => do
      let authority ← authority? none (rest.takeWhile (· != '/'))
      let path := rest.dropWhile (· != '/')
      return (some authority, .segments (if path.isEmpty then [] else segments path))
    | '/' :: _ => some (none, .segments (segments t))
    | _ => some (none, .plain (Percent.encode [] t.utf8))

end Reader

open Reader in
def parse? (t : Text) : Option Url := do
  let (scheme, rest) := cut ':' (cleaned t)
  let rest ← rest
  guard (isScheme scheme)
  let scheme := scheme.map Char.toLower
  let (rest, fragment?) := cut '#' rest
  let (rest, query?) := cut '?' rest
  let (authority?, path) ← hierarchy? scheme rest
  let isSpecial := (specialSchemes.lookup (String.ofList scheme)).isSome
  return {
    scheme, authority?, path
    query? := query?.map fun q => Percent.encode (Percent.inQuery isSpecial) q.utf8
    fragment? := fragment?.map fun f => Percent.encode Percent.inFragment f.utf8 }

end RailsLookup.Url
