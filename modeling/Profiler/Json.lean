import Profiler.Decimal.Layout

/-!
# JSON values and their text

`Json.render` writes a value without blanks between its parts, the members of an object in their
order. `Json.quote` escapes what a string cannot hold as it is: quotes, backslashes and control
characters.
-/

namespace Profiler

/-- A JSON value. A number is kept as the characters that it is written with. -/
inductive Json where
  | number (token : List Char)
  | string (text : String)
  | array (items : List Json)
  | object (members : List (String × Json))

namespace Json

/-- The two lower-case hexadecimal digits of a number below 256. -/
def hexPair (n : Nat) : List Char := [Nat.digitChar (n / 16), Nat.digitChar (n % 16)]

/-- A character inside a string. -/
def escape (c : Char) : List Char :=
  match c with
  | '"' => ['\\', '"']
  | '\\' => ['\\', '\\']
  | '\x08' => ['\\', 'b']
  | '\x0c' => ['\\', 'f']
  | '\n' => ['\\', 'n']
  | '\r' => ['\\', 'r']
  | '\t' => ['\\', 't']
  | _ => if c.toNat < 0x20 then ['\\', 'u', '0', '0'] ++ hexPair c.toNat else [c]

/-- A string in quotes. -/
def quote (text : String) : List Char := '"' :: text.toList.flatMap escape ++ ['"']

/-- A whole number. -/
def nat (n : Nat) : Json := number (Decimal.digits n)

mutual

/-- The text of a value. -/
def render : Json → List Char
  | number token => token
  | string text => quote text
  | array items => '[' :: renderItems items ++ [']']
  | object members => '\x7b' :: renderMembers members ++ ['\x7d']

/-- The values of an array, with commas between them. -/
def renderItems : List Json → List Char
  | [] => []
  | [item] => render item
  | item :: next :: rest => render item ++ ',' :: renderItems (next :: rest)

/-- The members of an object, with commas between them. -/
def renderMembers : List (String × Json) → List Char
  | [] => []
  | [(key, value)] => quote key ++ ':' :: render value
  | (key, value) :: next :: rest =>
    quote key ++ ':' :: render value ++ ',' :: renderMembers (next :: rest)

end

end Json

end Profiler
