/-!
# Compiler handles

A handle tells compiler instances apart.  `Handle.fresh` hands out the ids of a counter one after
the other; ids are 64-bit words.
-/

set_option autoImplicit false

namespace Fanout

/-- The identity of a compiler instance. -/
structure Handle where
  id : UInt64
  deriving DecidableEq, Repr, Inhabited

namespace Handle

def text (h : Handle) : String := "#" ++ toString h.id.toNat

/-- The next handle of a counter, and the counter after it. -/
def fresh (counter : UInt64) : Handle × UInt64 := (⟨counter⟩, counter + 1)

end Handle

end Fanout
