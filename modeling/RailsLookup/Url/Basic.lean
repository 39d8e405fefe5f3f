import RailsLookup.Url.Host

/-! # URLs

A URL in its parts, and as text. Two spellings of one URL have the same text.
-/

namespace RailsLookup

structure Authority where
  user : Text := []
  password : Text := []
  host : Text := []
  socket? : Option Nat := none
  deriving DecidableEq, Repr

inductive UrlPath where
  /-- The part after the scheme of a URL such as `mailto:someone`. -/
  | plain (t : Text)
  | segments (ss : List Text)
  deriving DecidableEq, Repr

structure Url where
  scheme : Text
  authority? : Option Authority
  path : UrlPath
  query? : Option Text := none
  fragment? : Option Text := none
  deriving DecidableEq, Repr

namespace Authority

def toText (a : Authority) : Text :=
  let password := if a.password.isEmpty then [] else ':' :: a.password
  let login := if a.user.isEmpty && a.password.isEmpty then [] else a.user ++ password ++ ['@']
  let socket :=
    match a.socket? with
    | some n => ':' :: Digits.decimal n
    | none => []
  login ++ a.host ++ socket

end Authority

namespace UrlPath

def toText : UrlPath → Text
  | plain t => t
  | segments ss => ss.flatMap ('/' :: ·)

end UrlPath

namespace Url

/-- The text of a URL. A path that begins with two slashes is kept apart from an authority. -/
def toText (u : Url) : Text :=
  let path := u.path.toText
  let front :=
    match u.authority? with
    | some a => "//".toList ++ a.toText
    | none => if "//".toList.isPrefixOf path then "/.".toList else []
  let query :=
    match u.query? with
    | some q => '?' :: q
    | none => []
  let fragment :=
    match u.fragment? with
    | some f => '#' :: f
    | none => []
  u.scheme ++ ':' :: front ++ path ++ query ++ fragment

end Url

end RailsLookup
