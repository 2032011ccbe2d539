import Fanout.Changed.Sinks
import Fanout.Emission.Result
import Fanout.Pipeline.Basic
import Fanout.Variant.Registry

/-!
# Entry points

An entry point writes the outputs of one source unit, or of a whole program, through a `Host`.
It is a compiler's own `Emitter`, or it fans a call out over the variants of a registry to the entry
point that it wraps:

* A call for declarations alone or for the incremental state alone goes to the wrapped entry point
  once and unchanged: such artifacts exist once in a program.
* Any other call records its target in the sink, then goes to the wrapped entry point once for each
  variant in order.  The call for a variant sees the variant's options, writes through the same
  host, and runs the pipeline of the variant's options with the user's passes of the given one.
  The first call that fails ends the fan-out, and the error names the variant.
* The result is that of the primary variant, since the diagnostics of all stem from one front end;
  it counts as skipped if the result of any variant does.

An entry point has an address, by which `EntryPoint.sameAs` tells one object from another.  `σ` is
the state that emitters and hosts act on, and `World` adds the shared sinks to it; `ρ` is what the
compiler passes to its emitter and this library never looks at.
-/

set_option autoImplicit false

namespace Fanout

/-- What an emitter writes through. -/
structure Host (σ : Type) where
  /-- The options that are in effect. -/
  options : Options
  /-- Writes one output file. -/
  write : Path → String → σ → Except BuildError Unit × σ

def Host.withOptions {σ : Type} (h : Host σ) (o : Options) : Host σ := { h with options := o }

/-- What an entry point is asked for. -/
structure EmitCall (ρ : Type) where
  resolver : ρ
  /-- The source unit, or none for the whole program. -/
  target : Option Path
  pipeline : Pipeline
  flags : EmitFlags

/-- What a compiler does to write outputs. -/
abbrev Emitter (ρ σ : Type) := EmitCall ρ → Host σ → σ → Except BuildError EmitResult × σ

/-- An entry point, with its address. -/
inductive EntryPoint (ρ σ : Type) where
  | emitter (address : Nat) (run : Emitter ρ σ)
  | fanOut (address : Nat) (inner : EntryPoint ρ σ) (registry : Registry) (sink : Option Sink)

/-- The shared sinks, and the state that emitters and hosts act on. -/
structure World (σ : Type) where
  sinks : Sinks
  state : σ

variable {ρ σ : Type}

/-- Records the target of a call, if there are a target and a sink. -/
def World.record (w : World σ) (sink : Option Sink) (target : Option Path) : World σ :=
  match sink, target with
  | some k, some unit => { w with sinks := w.sinks.record k unit }
  | _, _ => w

/-- The call for a variant. -/
def EmitCall.forVariant (c : EmitCall ρ) (v : ResolvedVariant) : EmitCall ρ :=
  { c with pipeline := .derive v.options c.pipeline.custom c.flags.declarationsOnly }

/-- Makes the call for each variant in order, until one fails. -/
def emitEach (emit : EmitCall ρ → Host σ → World σ → Except BuildError EmitResult × World σ)
    (call : EmitCall ρ) (host : Host σ) :
    List ResolvedVariant → World σ → Except BuildError (List EmitResult) × World σ
  | [], w => (.ok [], w)
  | v :: rest, w =>
    match emit (call.forVariant v) (host.withOptions v.options) w with
    | (.error e, w) => (.error (.inVariant v.kind e), w)
    | (.ok r, w) =>
      match emitEach emit call host rest w with
      | (.error e, w) => (.error e, w)
      | (.ok rs, w) => (.ok (r :: rs), w)

/-- The result of a fan-out, from the results of its variants in order. -/
def Registry.mergeResults (r : Registry) (results : List EmitResult) :
    Except BuildError EmitResult :=
  -- where the kinds differ, one result is left
  match ((r.variants.zip results).filter (·.1.kind == r.defaultKind)).getLast? with
  | some (_, primary) =>
    .ok { primary with emitSkipped := results.any (·.emitSkipped) }
  | none =>
    .error (.configuration ("no variant emits the default module '" ++ r.defaultKind.name ++ "'"))

namespace EntryPoint

def address : EntryPoint ρ σ → Nat
  | emitter address _ => address
  | fanOut address _ _ _ => address

/-- Whether two entry points are one object. -/
def sameAs (a b : EntryPoint ρ σ) : Bool := a.address == b.address

def emit : EntryPoint ρ σ → EmitCall ρ → Host σ → World σ →
    Except BuildError EmitResult × World σ
  | .emitter _ run, call, host, w =>
    let (result, state) := run call host w.state
    (result, { w with state })
  | .fanOut _ inner registry sink, call, host, w =>
    if call.flags.isPassThrough then inner.emit call host w
    else
      -- the target is on record also if a variant fails
      match emitEach inner.emit call host registry.variants (w.record sink call.target) with
      | (.error e, w) => (.error e, w)
      | (.ok results, w) => (registry.mergeResults results, w)

end EntryPoint

end Fanout
