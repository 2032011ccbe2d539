import Fanout.Json.Value

/-!
# Writing JSON

* `Json.write` writes a value in a `Layout`, which says what stands before an item of a list or an
  object and after a member's name.
* `Json.pretty` puts every item on a line of its own, indented by two blanks a level; an empty list
  is `[]` and an empty object is a pair of braces.
* `Json.compact` writes no blanks.

In strings the quote, the backslash and the characters below U+0020 are escaped, with the short
forms where JSON has them and else four digits in lower case; every other character stands for
itself.
-/

set_option autoImplicit false

namespace Fanout.Json

/-! ## Characters and numbers -/

/-- The digit of a number below sixteen, in lower case. -/
def hexDigit (d : Nat) : Char := if d < 10 then Char.ofNat (48 + d) else Char.ofNat (87 + d)

/-- A natural number in decimal. -/
def decimal (n : Nat) : List Char :=
  if n < 10 then [hexDigit n] else decimal (n / 10) ++ [hexDigit (n % 10)]

def integer : Int → List Char
  | .ofNat n => decimal n
  | .negSucc n => '-' :: decimal (n + 1)

/-- A character as it stands between quotes. -/
def escaped (c : Char) : List Char :=
  if c = '"' then ['\\', '"']
  else if c = '\\' then ['\\', '\\']
  else if c.toNat = 8 then ['\\', 'b']
  else if c.toNat = 9 then ['\\', 't']
  else if c.toNat = 10 then ['\\', 'n']
  else if c.toNat = 12 then ['\\', 'f']
  else if c.toNat = 13 then ['\\', 'r']
  else if c.toNat < 32 then
    ['\\', 'u', '0', '0', hexDigit (c.toNat / 16), hexDigit (c.toNat % 16)]
  else [c]

def quoted (s : String) : List Char := '"' :: s.toList.flatMap escaped ++ ['"']

/-! ## Layouts -/

/-- What is written around the items of lists and objects. -/
structure Layout where
  /-- What stands before an item at some depth, and before a closing bracket at its own depth. -/
  lineBreak : Nat → List Char
  /-- What stands between a member's name and its value. -/
  colon : List Char

/-- One item a line, two blanks a level. -/
def Layout.indented : Layout where
  lineBreak depth := '\n' :: List.replicate (2 * depth) ' '
  colon := [':', ' ']

def Layout.dense : Layout where
  lineBreak _ := []
  colon := [':']

mutual
/-- A value that starts at some depth. -/
def write (l : Layout) (depth : Nat) : Json → List Char
  | .null => ['n', 'u', 'l', 'l']
  | .bool true => ['t', 'r', 'u', 'e']
  | .bool false => ['f', 'a', 'l', 's', 'e']
  | .int n => integer n
  | .real text => text.toList
  | .str s => quoted s
  | .arr [] => ['[', ']']
  | .arr (item :: items) =>
    '[' :: (l.lineBreak (depth + 1) ++ write l (depth + 1) item) ++ writeItems l depth items
  | .obj [] => ['{', '}']
  | .obj ((name, item) :: members) =>
    '{' :: (l.lineBreak (depth + 1) ++ quoted name ++ l.colon ++ write l (depth + 1) item) ++
      writeMembers l depth members

/-- The items after the first, and the closing bracket. -/
def writeItems (l : Layout) (depth : Nat) : List Json → List Char
  | [] => l.lineBreak depth ++ [']']
  | item :: items =>
    ',' :: (l.lineBreak (depth + 1) ++ write l (depth + 1) item) ++ writeItems l depth items

/-- The members after the first, and the closing brace. -/
def writeMembers (l : Layout) (depth : Nat) : List (String × Json) → List Char
  | [] => l.lineBreak depth ++ ['}']
  | (name, item) :: members =>
    ',' :: (l.lineBreak (depth + 1) ++ quoted name ++ l.colon ++ write l (depth + 1) item) ++
      writeMembers l depth members
end

def pretty (j : Json) : String := String.ofList (write .indented 0 j)

def compact (j : Json) : String := String.ofList (write .dense 0 j)

end Fanout.Json
