/-!
# Lowering letters

`lowered` brings a text to lower case as far as the result can hold a letter of ASCII.  The letters
`A` to `Z` become `a` to `z`; two characters outside ASCII have a lower case with an ASCII letter in
it, the dotted capital I (U+0130, which becomes `i` and a combining dot) and the Kelvin sign
(U+212A, which becomes `k`).  Every other character outside ASCII lowers to characters outside
ASCII, so it stays as it is here: a comparison with a word of ASCII letters cannot tell.
-/

set_option autoImplicit false

namespace Fanout.Text

/-- The lower case of one character. -/
def loweredChar (c : Char) : List Char :=
  if c.toNat = 0x130 then ['i', Char.ofNat 0x307]
  else if c.toNat = 0x212A then ['k']
  else [c.toLower]

def lowered (s : String) : String := String.ofList (s.toList.flatMap loweredChar)

end Fanout.Text
