import Fanout.Emission.EntryPoint

/-!
# Compilers and their emit sequences

A `Compiler` is seen as a handle and a slot that holds its current entry point.  What it does to
emit a program is an `EmitSequence`: any way of using and changing the compiler and the world.

`unitByUnit` is the sequence that a compiler follows by its contract: one call for each unit in
order, then, where the host's options keep incremental state, one call for the file of that state.
The results are absorbed into one, and the first error ends the sequence.
-/

set_option autoImplicit false

namespace Fanout

/-- A compiler whose entry point can be exchanged. -/
structure Compiler (ρ σ : Type) where
  handle : Handle
  slot : EntryPoint ρ σ

/-- What a compiler does to emit a program. -/
abbrev EmitSequence (ρ σ : Type) :=
  Compiler ρ σ → Host σ → Option CustomPasses → World σ →
    Except BuildError EmitResult × Compiler ρ σ × World σ

variable {ρ σ : Type}

namespace Compiler

/-- Makes one call for each unit, adding to a total. -/
def emitUnits (c : Compiler ρ σ) (resolver : ρ) (host : Host σ) (custom : Option CustomPasses) :
    List Path → EmitResult → World σ → Except BuildError EmitResult × World σ
  | [], total, w => (.ok total, w)
  | unit :: rest, total, w =>
    let pipeline := Pipeline.derive host.options custom false
    match c.slot.emit { resolver, target := some unit, pipeline, flags := {} } host w with
    | (.error e, w) => (.error e, w)
    | (.ok r, w) => c.emitUnits resolver host custom rest (total.absorb r) w

/-- Makes the call for the incremental state, where that is kept, adding to a total. -/
def emitBuildInfo (c : Compiler ρ σ) (resolver : ρ) (host : Host σ)
    (custom : Option CustomPasses) (total : EmitResult) (w : World σ) :
    Except BuildError EmitResult × World σ :=
  if host.options.incremental then
    let pipeline := Pipeline.derive host.options custom false
    match c.slot.emit { resolver, target := none, pipeline, flags := .onlyBuildInfo } host w with
    | (.error e, w) => (.error e, w)
    | (.ok r, w) => (.ok (total.absorb r), w)
  else (.ok total, w)

/-- Emits some units and the incremental state through the current entry point. -/
def emitProgram (c : Compiler ρ σ) (resolver : ρ) (units : List Path) (host : Host σ)
    (custom : Option CustomPasses) (w : World σ) : Except BuildError EmitResult × World σ :=
  match c.emitUnits resolver host custom units {} w with
  | (.error e, w) => (.error e, w)
  | (.ok total, w) => c.emitBuildInfo resolver host custom total w

end Compiler

/-- The sequence of a compiler that keeps its contract and has these units. -/
def unitByUnit (resolver : ρ) (units : List Path) : EmitSequence ρ σ :=
  fun c host custom w =>
    let (result, w) := c.emitProgram resolver units host custom w
    (result, c, w)

end Fanout
