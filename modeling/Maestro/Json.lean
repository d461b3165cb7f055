import Mathlib.Data.Nat.Notation

/-!
# Values of JSON, and their compact text

A number is kept as the text it is written with. Members of an object stand in
the order they are written in.
-/
namespace Maestro

inductive Json
  | null
  | bool (value : Bool)
  | num (text : String)
  | str (value : String)
  | arr (items : List Json)
  | obj (members : List (String × Json))

namespace Json

def hexDigit (n : ℕ) : Char := if n < 10 then Char.ofNat (48 + n) else Char.ofNat (87 + n)

/-- One character of a string, escaped where it has to be. -/
def escape (c : Char) : List Char :=
  if c = '"' then ['\\','"']
  else if c = '\\' then ['\\','\\']
  else if c.toNat = 8 then ['\\','b']
  else if c.toNat = 12 then ['\\','f']
  else if c = '\n' then ['\\','n']
  else if c = '\r' then ['\\','r']
  else if c = '\t' then ['\\','t']
  else if c.toNat < 32 then ['\\','u','0','0',hexDigit (c.toNat / 16),hexDigit (c.toNat % 16)]
  else [c]

def quoted (value : String) : List Char := '"' :: value.toList.flatMap escape ++ ['"']

mutual

/-- The compact text of a value. -/
def text : Json → List Char
  | null => "null".toList
  | bool value => (if value then "true" else "false").toList
  | num text => text.toList
  | str value => quoted value
  | arr items => '[' :: textItems items ++ [']']
  | obj members => '\x7b' :: textMembers members ++ ['\x7d']

def textItems : List Json → List Char
  | [] => []
  | [item] => text item
  | item :: items => text item ++ ',' :: textItems items

def textMembers : List (String × Json) → List Char
  | [] => []
  | [(name,value)] => quoted name ++ ':' :: text value
  | (name,value) :: members => quoted name ++ ':' :: text value ++ ',' :: textMembers members

end

/-- The member of an object with this name. -/
def get : Json → String → Option Json
  | obj members, name => members.lookup name
  | _, _ => none

def asStr : Json → Option String
  | str value => some value
  | _ => none

def nat (n : ℕ) : Json := num (toString n)

end Json

end Maestro
