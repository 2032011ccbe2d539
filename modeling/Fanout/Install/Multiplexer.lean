import Fanout.Emission.Sequence

/-!
# Installing a multiplexer

A multiplexer puts a fan-out in place of a compiler's entry point and puts the entry point back.  It
is either uninstalled or installed on one compiler, whose entry point it keeps.

* `Multiplexer.install` is the only way into the installed state and `Multiplexer.uninstall` the
  only way out.  Each is refused, as a whole and without a change, in the wrong state, and
  `uninstall` also where the compiler is another one.
* `Multiplexer.during` runs a body between the two.  A body that fails, and one that is left without
  further ado, has the multiplexer uninstalled by `Multiplexer.leave`, which asks for nothing and
  reports nothing; a body that ends well has it uninstalled by `Multiplexer.finish`, whose error
  counts.
-/

set_option autoImplicit false

namespace Fanout

inductive Multiplexer (ρ σ : Type) where
  | uninstalled
  | installed (handle : Handle) (saved : EntryPoint ρ σ) (registry : Registry)

variable {ρ σ : Type}

namespace Multiplexer

/-- The handle of the compiler that a multiplexer is installed on. -/
def handle? : Multiplexer ρ σ → Option Handle
  | uninstalled => none
  | installed handle _ _ => some handle

def activeRegistry : Multiplexer ρ σ → Option Registry
  | uninstalled => none
  | installed _ _ registry => some registry

def isInstalled (m : Multiplexer ρ σ) : Bool := m.handle?.isSome

/-- Puts a fan-out, at a new address, in place of the entry point of a compiler. -/
def install (m : Multiplexer ρ σ) (c : Compiler ρ σ) (registry : Registry) (sink : Option Sink)
    (address : Nat) : Except BuildError (Multiplexer ρ σ × Compiler ρ σ) :=
  match m with
  | installed handle _ _ => .error (.alreadyInstalled handle)
  | uninstalled =>
    .ok (installed c.handle c.slot registry,
      { c with slot := .fanOut address c.slot registry sink })

/-- Puts the kept entry point back and gives it. -/
def uninstall (m : Multiplexer ρ σ) (c : Compiler ρ σ) :
    Except BuildError (EntryPoint ρ σ × Multiplexer ρ σ × Compiler ρ σ) :=
  match m with
  | uninstalled => .error .notInstalled
  | installed handle saved _ =>
    -- what the slot holds by now is not looked at
    if handle = c.handle then .ok (saved, uninstalled, { c with slot := saved })
    else .error (.otherCompiler handle c.handle)

/-! ## Scoped installation -/

/-- Uninstalls if that is possible. -/
def leave (m : Multiplexer ρ σ) (c : Compiler ρ σ) : Multiplexer ρ σ × Compiler ρ σ :=
  match m.uninstall c with
  | .ok (_, m, c) => (m, c)
  | .error _ => (m, c)

/-- Uninstalls, reporting what came of it; a multiplexer that is still installed is then left. -/
def finish (m : Multiplexer ρ σ) (c : Compiler ρ σ) :
    Except BuildError (EntryPoint ρ σ) × Multiplexer ρ σ × Compiler ρ σ :=
  match m.uninstall c with
  | .ok (saved, m, c) => (.ok saved, m, c)
  | .error e => (.error e, m.leave c)

/-- Runs a body with a fan-out installed. -/
def during {α τ : Type} (m : Multiplexer ρ σ) (c : Compiler ρ σ) (registry : Registry)
    (sink : Option Sink) (address : Nat)
    (body : Compiler ρ σ → τ → Except BuildError α × Compiler ρ σ × τ) (t : τ) :
    Except BuildError α × Multiplexer ρ σ × Compiler ρ σ × τ :=
  match m.install c registry sink address with
  | .error e => (.error e, m, c, t)
  | .ok (m, c) =>
    match body c t with
    | (.error e, c, t) =>
      let (m, c) := m.leave c
      (.error e, m, c, t)
    | (.ok a, c, t) =>
      match m.finish c with
      | (.error e, m, c) => (.error e, m, c, t)
      | (.ok _, m, c) => (.ok a, m, c, t)

end Multiplexer

end Fanout
