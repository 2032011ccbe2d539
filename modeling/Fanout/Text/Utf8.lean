/-!
# Text in bytes

`Utf8.encode` writes characters as bytes, and `Utf8.decode` reads any bytes at all as characters.
Bytes that are no UTF-8 are read as U+FFFD: one for each stretch that begins a character without
completing it, up to the byte that does not continue it, and one for each byte that begins none.

The reader goes through the bytes one by one.  Between two characters it waits for nothing; within
one it is `Pending`, and knows how many bytes are to come and between which two the next one has to
be.  That the next byte is bounded more narrowly after some first bytes keeps out surrogates,
numbers beyond the last character, and characters written with more bytes than they need.
-/

set_option autoImplicit false

namespace Fanout.Utf8

def encode (cs : List Char) : List UInt8 := cs.flatMap String.utf8EncodeChar

/-- The character that is read where there is none. -/
def replacement : Char := Char.ofNat 0xFFFD

/-- A character of which some bytes are to come. -/
structure Pending where
  /-- The number that the bytes so far make. -/
  value : Nat
  /-- How many bytes are to come after the next one. -/
  more : Nat
  /-- The least next byte. -/
  least : Nat := 0x80
  /-- The greatest next byte. -/
  greatest : Nat := 0xBF
  deriving DecidableEq, Repr

/-- Reads a byte where a character may begin. -/
def first (b : Nat) : List Char × Option Pending :=
  if b < 0x80 then ([Char.ofNat b], none)
  else if 0xC2 ≤ b ∧ b ≤ 0xDF then ([], some { value := b - 0xC0, more := 0 })
  else if b = 0xE0 then ([], some { value := 0, more := 1, least := 0xA0 })
  else if b = 0xED then ([], some { value := 0xD, more := 1, greatest := 0x9F })
  else if 0xE1 ≤ b ∧ b ≤ 0xEF then ([], some { value := b - 0xE0, more := 1 })
  else if b = 0xF0 then ([], some { value := 0, more := 2, least := 0x90 })
  else if b = 0xF4 then ([], some { value := 4, more := 2, greatest := 0x8F })
  else if 0xF1 ≤ b ∧ b ≤ 0xF3 then ([], some { value := b - 0xF0, more := 2 })
  else ([replacement], none)

/-- Reads a byte that continues a character. -/
def Pending.continued (p : Pending) (b : Nat) : List Char × Option Pending :=
  let value := p.value * 0x40 + (b - 0x80)
  match p.more with
  | 0 => ([Char.ofNat value], none)
  | more + 1 => ([], some { value, more })

/-- Reads a byte: what is complete with it, and what is pending after it. -/
def next : Option Pending → Nat → List Char × Option Pending
  | none, b => first b
  | some p, b =>
    if p.least ≤ b ∧ b ≤ p.greatest then p.continued b
    -- the character stays incomplete, and the byte is looked at afresh
    else (replacement :: (first b).1, (first b).2)

def decodeFrom (pending? : Option Pending) : List UInt8 → List Char
  | [] => if pending?.isSome then [replacement] else []
  | b :: bs => (next pending? b.toNat).1 ++ decodeFrom (next pending? b.toNat).2 bs

/-- Reads bytes as text. -/
def decode (bs : List UInt8) : List Char := decodeFrom none bs

end Fanout.Utf8
