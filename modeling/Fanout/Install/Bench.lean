import Fanout.Install.Multiplexer

/-!
# Histories of several compilers and multiplexers

A `Bench` holds compilers and multiplexers, the world they share, and the address for the next
fan-out.  `Bench.Step` is one thing done to it, by the places of the compiler and the multiplexer in
their lists; `Bench.step` does it and answers, and `Bench.run` does a list of them.  A scoped
installation is an `install` and a later `finish` or `leave`.  A step that names a place where there
is nothing does nothing.
-/

set_option autoImplicit false

namespace Fanout

/-- Compilers and multiplexers at work. -/
structure Bench (ρ σ : Type) where
  compilers : List (Compiler ρ σ)
  multiplexers : List (Multiplexer ρ σ)
  world : World σ
  /-- The address of the next fan-out. -/
  nextAddress : Nat

namespace Bench

variable {ρ σ : Type}

/-- One thing done to a bench. -/
inductive Step (ρ σ : Type) where
  | install (mux compiler : Nat) (registry : Registry) (sink : Option Sink)
  | uninstall (mux compiler : Nat)
  | finish (mux compiler : Nat)
  | leave (mux compiler : Nat)
  | emit (compiler : Nat) (host : Host σ) (call : EmitCall ρ)
  | emitProgram (compiler : Nat) (host : Host σ) (custom : Option CustomPasses)
    (sequence : EmitSequence ρ σ)
  | wrap (compiler : Nat) (registry : Registry) (sink : Option Sink)
  | replace (compiler : Nat) (entry : EntryPoint ρ σ)
  | setHandle (compiler : Nat) (handle : Handle)
  | take (sink : Sink)

inductive Answer (ρ σ : Type) where
  | done
  | entry (e : EntryPoint ρ σ)
  | result (r : EmitResult)
  | units (us : List Path)
  | failed (e : BuildError)

/-- The answer that reports a result or an error. -/
def Answer.ofResult : Except BuildError EmitResult → Answer ρ σ
  | .ok r => .result r
  | .error e => .failed e

def putCompiler (b : Bench ρ σ) (place : Nat) (c : Compiler ρ σ) : Bench ρ σ :=
  { b with compilers := b.compilers.set place c }

def putMultiplexer (b : Bench ρ σ) (place : Nat) (m : Multiplexer ρ σ) : Bench ρ σ :=
  { b with multiplexers := b.multiplexers.set place m }

/-- Does something that needs the compiler at a place. -/
def withCompiler (b : Bench ρ σ) (place : Nat)
    (act : Compiler ρ σ → Answer ρ σ × Bench ρ σ) : Answer ρ σ × Bench ρ σ :=
  match b.compilers[place]? with
  | some c => act c
  | none => (.done, b)

/-- Does something that needs the multiplexer and the compiler at two places. -/
def withBoth (b : Bench ρ σ) (mux compiler : Nat)
    (act : Multiplexer ρ σ → Compiler ρ σ → Answer ρ σ × Bench ρ σ) : Answer ρ σ × Bench ρ σ :=
  match b.multiplexers[mux]? with
  | some m => b.withCompiler compiler (act m)
  | none => (.done, b)

def step (b : Bench ρ σ) : Step ρ σ → Answer ρ σ × Bench ρ σ
  | .install mux compiler registry sink =>
    b.withBoth mux compiler fun m c =>
      match m.install c registry sink b.nextAddress with
      | .error e => (.failed e, b)
      | .ok (m, c) =>
        (.done, { (b.putMultiplexer mux m).putCompiler compiler c with
          nextAddress := b.nextAddress + 1 })
  | .uninstall mux compiler =>
    b.withBoth mux compiler fun m c =>
      match m.uninstall c with
      | .error e => (.failed e, b)
      | .ok (saved, m, c) => (.entry saved, (b.putMultiplexer mux m).putCompiler compiler c)
  | .finish mux compiler =>
    b.withBoth mux compiler fun m c =>
      match m.finish c with
      | (.error e, m, c) => (.failed e, (b.putMultiplexer mux m).putCompiler compiler c)
      | (.ok saved, m, c) => (.entry saved, (b.putMultiplexer mux m).putCompiler compiler c)
  | .leave mux compiler =>
    b.withBoth mux compiler fun m c =>
      let (m, c) := m.leave c
      (.done, (b.putMultiplexer mux m).putCompiler compiler c)
  | .emit compiler host call =>
    b.withCompiler compiler fun c =>
      let (result, world) := c.slot.emit call host b.world
      (.ofResult result, { b with world })
  | .emitProgram compiler host custom sequence =>
    b.withCompiler compiler fun c =>
      let (result, c, world) := sequence c host custom b.world
      (.ofResult result, { b.putCompiler compiler c with world })
  | .wrap compiler registry sink =>
    b.withCompiler compiler fun c =>
      (.entry c.slot,
        { b.putCompiler compiler
            { c with slot := .fanOut b.nextAddress c.slot registry sink } with
          nextAddress := b.nextAddress + 1 })
  | .replace compiler entry =>
    b.withCompiler compiler fun c =>
      (.entry c.slot, b.putCompiler compiler { c with slot := entry })
  | .setHandle compiler handle =>
    b.withCompiler compiler fun c => (.done, b.putCompiler compiler { c with handle })
  | .take sink =>
    let (units, sinks) := b.world.sinks.take sink
    (.units units, { b with world := { b.world with sinks } })

def run (b : Bench ρ σ) : List (Step ρ σ) → List (Answer ρ σ) × Bench ρ σ
  | [] => ([], b)
  | s :: rest =>
    let (answer, b) := b.step s
    let (answers, b) := b.run rest
    (answer :: answers, b)

end Bench

end Fanout
