import Fanout.Json.Value
import Fanout.Text.Reader

/-!
# Reading JSON

`Json.parse?` reads a text that is one JSON value, with blanks around it and between its tokens.  A
number without fraction and exponent is whole, but for a zero with a minus sign; any other number
keeps its text.  An escaped character outside the basic plane is a pair of surrogates; a surrogate
that stands alone is refused.
-/

set_option autoImplicit false

namespace Fanout.Json

open Text (Reader ofHex? ofDigits scalar? consed)

def isBlank (c : Char) : Bool := c == ' ' || c == '\t' || c == '\n' || c == '\r'

def skipBlanks (cs : List Char) : List Char := cs.dropWhile isBlank

/-! ## Strings -/

/-- The character that a backslash and this one stand for. -/
def shortEscape? : Char → Option Char
  | '"' => some '"'
  | '\\' => some '\\'
  | '/' => some '/'
  | 'b' => some (Char.ofNat 8)
  | 't' => some '\t'
  | 'n' => some '\n'
  | 'f' => some (Char.ofNat 12)
  | 'r' => some '\r'
  | _ => none

/-- The characters up to the closing quote. -/
def stringBody : Reader (List Char)
  | [] => none
  | '"' :: rest => some ([], rest)
  | '\\' :: 'u' :: a :: b :: c :: d :: rest =>
    match ofHex? [a, b, c, d] with
    | none => none
    | some high =>
      if 0xD800 ≤ high ∧ high < 0xDC00 then
        match rest with
        | '\\' :: 'u' :: e :: f :: g :: h :: rest =>
          match ofHex? [e, f, g, h] with
          | none => none
          | some low =>
            if 0xDC00 ≤ low ∧ low < 0xE000 then
              consed (Char.ofNat (0x10000 + (high - 0xD800) * 0x400 + (low - 0xDC00)))
                (stringBody rest)
            else none
        | _ => none
      else
        match scalar? high with
        | none => none
        | some c => consed c (stringBody rest)
  | '\\' :: c :: rest =>
    match shortEscape? c with
    | none => none
    | some c => consed c (stringBody rest)
  | c :: rest => if c.toNat < 32 then none else consed c (stringBody rest)

/-! ## Numbers -/

def isDigits (cs : List Char) : Bool := !cs.isEmpty && cs.all Char.isDigit

/-- Whether a text is a natural number, without a zero before other digits. -/
def isNatural : List Char → Bool
  | ['0'] => true
  | c :: cs => c != '0' && isDigits (c :: cs)
  | [] => false

/-- Whether a text is empty or an exponent. -/
def isExponent : List Char → Bool
  | [] => true
  | e :: '+' :: cs => (e == 'e' || e == 'E') && isDigits cs
  | e :: '-' :: cs => (e == 'e' || e == 'E') && isDigits cs
  | e :: cs => (e == 'e' || e == 'E') && isDigits cs

/-- Whether a text may follow the whole part of a number: a fraction, an exponent or both. -/
def isFractionOrExponent : List Char → Bool
  | '.' :: cs => isDigits (cs.takeWhile Char.isDigit) && isExponent (cs.dropWhile Char.isDigit)
  | cs => isExponent cs

def isNumberChar (c : Char) : Bool :=
  c.isDigit || c == '-' || c == '+' || c == '.' || c == 'e' || c == 'E'

/-- The number that a text without sign writes. -/
def unsigned? (cs : List Char) : Option Json :=
  let whole := cs.takeWhile Char.isDigit
  let rest := cs.dropWhile Char.isDigit
  if isNatural whole && isFractionOrExponent rest then
    if rest.isEmpty then some (.nat (ofDigits whole)) else some (.real (String.ofList cs))
  else none

/-- The number that a text writes. -/
def number? : List Char → Option Json
  | '-' :: cs =>
    match unsigned? cs with
    | some (.int n) =>
      -- a negative zero is no whole number
      if n = 0 then some (.real (String.ofList ('-' :: cs))) else some (.int (-n))
    | some (.real text) => some (.real ("-" ++ text))
    | _ => none
  | cs => unsigned? cs

def number : Reader Json := fun cs =>
  (number? (cs.takeWhile isNumberChar)).map fun n => (n, cs.dropWhile isNumberChar)

/-! ## Values -/

mutual
/-- A value, by the given number of steps at most. -/
def value : Nat → Reader Json
  | 0, _ => none
  | steps + 1, cs =>
    match skipBlanks cs with
    | 'n' :: 'u' :: 'l' :: 'l' :: rest => some (.null, rest)
    | 't' :: 'r' :: 'u' :: 'e' :: rest => some (.bool true, rest)
    | 'f' :: 'a' :: 'l' :: 's' :: 'e' :: rest => some (.bool false, rest)
    | '"' :: rest => (stringBody rest).map fun (s, rest) => (.str (String.ofList s), rest)
    | '[' :: rest =>
      match skipBlanks rest with
      | ']' :: rest => some (.arr [], rest)
      | _ => (items steps rest).map fun (js, rest) => (.arr js, rest)
    | '{' :: rest =>
      match skipBlanks rest with
      | '}' :: rest => some (.obj [], rest)
      | _ => (members steps rest).map fun (ms, rest) => (.obj ms, rest)
    | rest => number rest

/-- The items of a list, up to its closing bracket. -/
def items : Nat → Reader (List Json)
  | 0, _ => none
  | steps + 1, cs =>
    match value steps cs with
    | none => none
    | some (j, rest) =>
      match skipBlanks rest with
      | ',' :: rest => (items steps rest).map fun (js, rest) => (j :: js, rest)
      | ']' :: rest => some ([j], rest)
      | _ => none

/-- The members of an object, up to its closing brace. -/
def members : Nat → Reader (List (String × Json))
  | 0, _ => none
  | steps + 1, cs =>
    match skipBlanks cs with
    | '"' :: rest =>
      match stringBody rest with
      | none => none
      | some (name, rest) =>
        match skipBlanks rest with
        | ':' :: rest =>
          match value steps rest with
          | none => none
          | some (j, rest) =>
            let name := String.ofList name
            match skipBlanks rest with
            | ',' :: rest => (members steps rest).map fun (ms, rest) => ((name, j) :: ms, rest)
            | '}' :: rest => some ([(name, j)], rest)
            | _ => none
        | _ => none
    | _ => none
end

/-- The value that a whole text writes. -/
def parse? (text : String) : Option Json :=
  let cs := text.toList
  match value (2 * cs.length + 2) cs with
  | some (j, rest) => if (skipBlanks rest).isEmpty then some j else none
  | none => none

end Fanout.Json
