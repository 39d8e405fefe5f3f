import RailsLookup.Json.Basic
import RailsLookup.Text.Digits

/-! # Writing JSON

The compact form: no blanks, short escapes where there are any, and only quotation marks,
backslashes and controls escaped.
-/

namespace RailsLookup.Json

def hexDigit (n : Nat) : Char := "0123456789abcdef".toList.getD n '0'

def escape (c : Char) : Text :=
  if c = '"' then ['\\', '"']
  else if c = '\\' then ['\\', '\\']
  else if c = '\n' then ['\\', 'n']
  else if c = '\r' then ['\\', 'r']
  else if c = '\t' then ['\\', 't']
  else if c.toNat = 8 then ['\\', 'b']
  else if c.toNat = 12 then ['\\', 'f']
  else if c.toNat < 0x20 then
    ['\\', 'u', '0', '0', hexDigit (c.toNat / 16), hexDigit (c.toNat % 16)]
  else [c]

def quoted (s : Text) : Text := '"' :: s.flatMap escape ++ ['"']

def integer : Int → Text
  | .ofNat n => Digits.decimal n
  | .negSucc n => '-' :: Digits.decimal (n + 1)

def separated (parts : List Text) : Text := [','].intercalate parts

mutual

def render : Json → Text
  | null => "null".toList
  | bool true => "true".toList
  | bool false => "false".toList
  | int n => integer n
  | real spelling => spelling
  | str s => quoted s
  | arr items => '[' :: separated (renderItems items) ++ [']']
  | obj members => '\x7b' :: separated (renderMembers members) ++ ['\x7d']

def renderItems : List Json → List Text
  | [] => []
  | j :: rest => render j :: renderItems rest

def renderMembers : List (Text × Json) → List Text
  | [] => []
  | (k, v) :: rest => (quoted k ++ ':' :: render v) :: renderMembers rest

end

end RailsLookup.Json
