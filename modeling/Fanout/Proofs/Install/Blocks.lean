import Fanout.Proofs.Install.ManyMultiplexers

/-!
# Scoped installations inside one another

A `Script` is what is done with one compiler of a bench: calls, emit sequences, and blocks, each of
which runs a script with a multiplexer installed.  A script goes on by the answer it got, so it may
stop at an error, or leave several blocks with it, or go on after it.  `Bench.block` is a block and
`Script.run` a whole script, both in steps of the bench.

* `Script.run_kept`: a script whose emit sequences keep the handle of the compiler changes nothing
  of the bench but the slot of that compiler, and the world.
* `block_emitProgram`: a block around an emit sequence is what `Multiplexer.during` is.
* `block_of_free`: what a block does and answers whose multiplexer is free.

The main result, `block_restores`, is about every block: however it is left, the compilers and the
multiplexers are what they were when it was entered.
-/

set_option autoImplicit false

namespace Fanout

variable {ρ σ : Type}

namespace Bench

/-- How a block ends that has no error: its guard is finished or dropped. -/
inductive Ending where
  | finish
  | drop
  deriving DecidableEq, Repr

namespace Ending

def step (mux place : Nat) : Ending → Step ρ σ
  | finish => .finish mux place
  | drop => .leave mux place

/-- What is answered in the end, given the entry point that was put back. -/
def answer (original : EntryPoint ρ σ) : Ending → Answer ρ σ
  | finish => .entry original
  | drop => .done

end Ending

/-- Runs a body with a multiplexer installed on a compiler. -/
def block (b : Bench ρ σ) (mux place : Nat) (registry : Registry) (sink : Option Sink)
    (ending : Ending) (body : Bench ρ σ → Answer ρ σ × Bench ρ σ) : Answer ρ σ × Bench ρ σ :=
  match b.step (.install mux place registry sink) with
  | (.failed e, b) => (.failed e, b)
  | (_, b) =>
    match body b with
    -- the guard goes out of scope with the error
    | (.failed e, b) => (.failed e, (b.step (.leave mux place)).2)
    | (_, b) => b.step (ending.step mux place)

/-- What is done with a compiler, each next thing depending on the answers so far. -/
inductive Script (ρ σ : Type) where
  | stop (answer : Answer ρ σ)
  | emit (host : Host σ) (call : EmitCall ρ) (next : Answer ρ σ → Script ρ σ)
  | emitProgram (host : Host σ) (custom : Option CustomPasses) (sequence : EmitSequence ρ σ)
    (next : Answer ρ σ → Script ρ σ)
  | block (mux : Nat) (registry : Registry) (sink : Option Sink) (ending : Ending)
    (body : Script ρ σ) (next : Answer ρ σ → Script ρ σ)

namespace Script

/-- Runs a script on the compiler at a place. -/
def run (place : Nat) : Script ρ σ → Bench ρ σ → Answer ρ σ × Bench ρ σ
  | stop answer => fun b => (answer, b)
  | emit host call next => fun b =>
    let (answer, b) := b.step (.emit place host call)
    (next answer).run place b
  | emitProgram host custom sequence next => fun b =>
    let (answer, b) := b.step (.emitProgram place host custom sequence)
    (next answer).run place b
  | block mux registry sink ending body next => fun b =>
    let (answer, b) := b.block mux place registry sink ending (body.run place)
    (next answer).run place b

/-- The handle of the compiler is constant: no emit sequence exchanges it. -/
def KeepsHandle : Script ρ σ → Prop
  | stop _ => True
  | emit _ _ next => ∀ answer, (next answer).KeepsHandle
  | emitProgram _ _ sequence next =>
    (∀ c host custom w, (sequence c host custom w).2.1.handle = c.handle) ∧
      ∀ answer, (next answer).KeepsHandle
  | block _ _ _ _ body next => body.KeepsHandle ∧ ∀ answer, (next answer).KeepsHandle

end Script

/-- Nothing changed but the slot of the compiler at a place, the world, and the next address. -/
structure Kept (place : Nat) (b b' : Bench ρ σ) : Prop where
  multiplexers : b'.multiplexers = b.multiplexers
  compilers : b'.compilers = b.compilers ∨ ∃ c slot, b.compilers[place]? = some c ∧
    b'.compilers = b.compilers.set place { c with slot }

namespace Kept

theorem refl (place : Nat) (b : Bench ρ σ) : Kept place b b := ⟨rfl, Or.inl rfl⟩

theorem trans {place : Nat} {b b' b'' : Bench ρ σ} (h : Kept place b b') (h' : Kept place b' b'') :
    Kept place b b'' := by
  refine ⟨h'.multiplexers.trans h.multiplexers, ?_⟩
  rcases h.compilers with hcs | ⟨c, slot, hc, hcs⟩
  · rw [← hcs]
    exact h'.compilers
  · right
    have hlt : place < b.compilers.length := (List.getElem?_eq_some_iff.mp hc).1
    rcases h'.compilers with hcs' | ⟨c', slot', hc', hcs'⟩
    · exact ⟨c, slot, hc, hcs'.trans hcs⟩
    · rw [hcs, List.getElem?_set_self hlt] at hc'
      cases hc'
      exact ⟨c, slot', hc, by rw [hcs', hcs, List.set_set]⟩

/-- The compiler at the place has its handle, and whatever is put in its slot, the compilers are
then as if nothing else had been. -/
theorem found {place : Nat} {b b' : Bench ρ σ} (h : Kept place b b') {c : Compiler ρ σ}
    (hc : b.compilers[place]? = some c) :
    ∃ c', b'.compilers[place]? = some c' ∧ c'.handle = c.handle ∧
      ∀ slot, b'.compilers.set place { c' with slot } = b.compilers.set place { c with slot } := by
  rcases h.compilers with hcs | ⟨d, slot, hd, hcs⟩
  · exact ⟨c, by rw [hcs, hc], rfl, fun slot => by rw [hcs]⟩
  · obtain rfl : c = d := Option.some.inj (hc.symm.trans hd)
    refine ⟨{ c with slot }, ?_, rfl, fun slot' => by rw [hcs, List.set_set]⟩
    rw [hcs, List.getElem?_set_self (List.getElem?_eq_some_iff.mp hc).1]

end Kept

/-! ## Blocks -/

section Block

variable {b : Bench ρ σ} {mux place : Nat} {registry : Registry} {sink : Option Sink}
  {ending : Ending} {body : Bench ρ σ → Answer ρ σ × Bench ρ σ}

/-- A block whose multiplexer is installed fails at once, and its body has no part in it. -/
theorem block_of_installed {handle : Handle} {saved : EntryPoint ρ σ} {active : Registry}
    {c : Compiler ρ σ}
    (taken : b.multiplexers[mux]? = some (.installed handle saved active))
    (found : b.compilers[place]? = some c) :
    b.block mux place registry sink ending body = (.failed (.alreadyInstalled handle), b) := by
  simp [block, step, withBoth, withCompiler, taken, found]

theorem snd_step_ending (b : Bench ρ σ) (mux place : Nat) (ending : Ending) :
    (b.step (ending.step mux place)).2 = (b.step (.uninstall mux place)).2 := by
  cases ending with
  | finish => rw [Ending.step, step_finish]
  | drop => rw [Ending.step, step_leave]

/-- Once it is entered, a block is left by uninstalling, in whatever way. -/
theorem snd_block {opened : Bench ρ σ}
    (hinstall : b.step (.install mux place registry sink) = (.done, opened)) :
    (b.block mux place registry sink ending body).2 =
      ((body opened).2.step (.uninstall mux place)).2 := by
  simp only [block, hinstall]
  rcases body opened with ⟨answer, inside⟩
  cases answer with
  | failed e => exact snd_step_ending inside mux place .drop
  | _ => exact snd_step_ending inside mux place ending

/-- A block around an emit sequence is a scoped installation around it, as a session makes it. -/
theorem block_emitProgram {m m' : Multiplexer ρ σ} {c c' : Compiler ρ σ}
    (hm : b.multiplexers[mux]? = some m) (hc : b.compilers[place]? = some c) {host : Host σ}
    {custom : Option CustomPasses} {sequence : EmitSequence ρ σ}
    {result : Except BuildError EmitResult} {w' : World σ}
    (hd : m.during c registry sink b.nextAddress (fun c w => sequence c host custom w) b.world =
      (result, m', c', w')) {outside : Bench ρ σ}
    (hb : (b.block mux place registry sink ending
      fun inside => inside.step (.emitProgram place host custom sequence)).2 = outside) :
    outside.multiplexers = b.multiplexers.set mux m' ∧
      outside.compilers = b.compilers.set place c' ∧ outside.world = w' := by
  have hplace : place < b.compilers.length := (List.getElem?_eq_some_iff.mp hc).1
  have hmux : mux < b.multiplexers.length := (List.getElem?_eq_some_iff.mp hm).1
  subst hb
  cases m with
  | installed handle saved active =>
    cases hd
    rw [block_of_installed hm hc]
    exact ⟨(set_of_getElem? hm).symm, (set_of_getElem? hc).symm, rfl⟩
  | uninstalled =>
    rcases hs : sequence { c with slot := .fanOut b.nextAddress c.slot registry sink } host custom
      b.world with ⟨answer, d, v⟩
    rw [Multiplexer.during_uninstalled c registry sink b.nextAddress _ _ hs] at hd
    rw [snd_block (step_install_of_free hm hc registry sink)]
    generalize hinside : (step _ (.emitProgram place host custom sequence)).2 = inside
    have hmuxes : inside.multiplexers =
        b.multiplexers.set mux (.installed c.handle c.slot registry) := by
      simp [← hinside, step, withCompiler, putCompiler, putMultiplexer, hplace]
    have hcompilers : inside.compilers = b.compilers.set place d := by
      simp [← hinside, step, withCompiler, putCompiler, putMultiplexer, hplace, hs]
    have hworld : inside.world = v := by
      simp [← hinside, step, withCompiler, putCompiler, putMultiplexer, hplace, hs]
    have active : inside.multiplexers[mux]? = some (.installed c.handle c.slot registry) := by
      rw [hmuxes, List.getElem?_set_self hmux]
    have found : inside.compilers[place]? = some d := by
      rw [hcompilers, List.getElem?_set_self hplace]
    -- the sequence may have exchanged the handle, and then nothing is put back
    by_cases hh : c.handle = d.handle
    · rw [if_pos hh] at hd
      cases hd
      rw [step_uninstall_of_installed (hh ▸ active) found]
      simp [putCompiler, putMultiplexer, hmuxes, hcompilers, hworld]
    · rw [if_neg hh] at hd
      cases hd
      have hrefused : inside.step (.uninstall mux place) =
          (.failed (.otherCompiler c.handle c'.handle), inside) := by
        simp [step, withBoth, withCompiler, active, found, Multiplexer.uninstall, hh]
      rw [hrefused]
      exact ⟨hmuxes, hcompilers, hworld⟩

/-- What a body comes to, seen from outside the block. -/
def Ending.outcome (ending : Ending) (original : EntryPoint ρ σ) : Answer ρ σ → Answer ρ σ
  | .failed e => .failed e
  | _ => ending.answer original

/-- What a body has kept, uninstalling takes back as it was before the installation. -/
theorem Kept.uninstall {opened inside : Bench ρ σ} {c : Compiler ρ σ} {e : EntryPoint ρ σ}
    (free : b.multiplexers[mux]? = some .uninstalled) (found : b.compilers[place]? = some c)
    (hmuxes : opened.multiplexers = b.multiplexers.set mux (.installed c.handle c.slot registry))
    (hcompilers : opened.compilers = b.compilers.set place { c with slot := e })
    (hkept : Kept place opened inside) :
    inside.step (.uninstall mux place) =
      (.entry c.slot,
        { inside with compilers := b.compilers, multiplexers := b.multiplexers }) := by
  have hplace : place < b.compilers.length := (List.getElem?_eq_some_iff.mp found).1
  have hmux : mux < b.multiplexers.length := (List.getElem?_eq_some_iff.mp free).1
  have hin : opened.compilers[place]? = some { c with slot := e } := by
    rw [hcompilers, List.getElem?_set_self hplace]
  obtain ⟨c', found', hhandle, hput⟩ := hkept.found hin
  -- whatever is in the slot by now, the multiplexer knows the compiler by its handle
  have active : inside.multiplexers[mux]? = some (.installed c'.handle c.slot registry) := by
    rw [hkept.multiplexers, hmuxes, List.getElem?_set_self hmux, hhandle]
  have hmuxes' : inside.multiplexers.set mux .uninstalled = b.multiplexers := by
    rw [hkept.multiplexers, hmuxes, List.set_set, set_of_getElem? free]
  have hcompilers' : inside.compilers.set place { c' with slot := c.slot } = b.compilers := by
    rw [hput, hcompilers, List.set_set, set_of_getElem? found]
  rw [step_uninstall_of_installed active found', putCompiler, putMultiplexer, hmuxes',
    hcompilers']

/-- **A block whose multiplexer is free** hands its error on or answers as it ends, and of what the
body did to compilers and multiplexers nothing is left. -/
theorem block_of_free {c : Compiler ρ σ} (free : b.multiplexers[mux]? = some .uninstalled)
    (found : b.compilers[place]? = some c)
    (hkept : Kept place (b.step (.install mux place registry sink)).2
      (body (b.step (.install mux place registry sink)).2).2) :
    b.block mux place registry sink ending body =
      (ending.outcome c.slot (body (b.step (.install mux place registry sink)).2).1,
        { (body (b.step (.install mux place registry sink)).2).2 with
          compilers := b.compilers, multiplexers := b.multiplexers }) := by
  obtain ⟨opened, hinstall, hmuxes, hcompilers⟩ : ∃ opened,
      b.step (.install mux place registry sink) = (.done, opened) ∧
        opened.multiplexers = b.multiplexers.set mux (.installed c.handle c.slot registry) ∧
        opened.compilers = b.compilers.set place
          { c with slot := .fanOut b.nextAddress c.slot registry sink } :=
    ⟨_, step_install_of_free free found registry sink, rfl, rfl⟩
  rw [hinstall] at hkept ⊢
  rcases hbody : body opened with ⟨answer, inside⟩
  rw [hbody] at hkept
  have hend : ∀ ending : Ending, inside.step (ending.step mux place) =
      (ending.answer c.slot,
        { inside with compilers := b.compilers, multiplexers := b.multiplexers }) := by
    have hback := hkept.uninstall free found hmuxes hcompilers
    intro ending
    cases ending with
    | finish => rw [Ending.step, step_finish, hback]; rfl
    | drop => rw [Ending.step, step_leave, hback]; rfl
  simp only [block, hinstall, hbody]
  cases answer with
  | failed e => exact congrArg (Answer.failed e, ·.2) (hend .drop)
  | _ => exact hend ending

theorem withBoth_of_missing
    (missing : b.multiplexers[mux]? = none ∨ b.compilers[place]? = none)
    (act : Multiplexer ρ σ → Compiler ρ σ → Answer ρ σ × Bench ρ σ) :
    b.withBoth mux place act = (.done, b) := by
  unfold withBoth withCompiler
  rcases missing with h | h
  · rw [h]
  · rw [h]
    cases b.multiplexers[mux]? <;> rfl

/-- A block that names nothing does what its body does. -/
theorem block_of_missing
    (missing : b.multiplexers[mux]? = none ∨ b.compilers[place]? = none)
    (hkept : Kept place b (body b).2) :
    (b.block mux place registry sink ending body).2 = (body b).2 := by
  have hinstall : b.step (.install mux place registry sink) = (.done, b) :=
    withBoth_of_missing missing _
  have missing' : (body b).2.multiplexers[mux]? = none ∨ (body b).2.compilers[place]? = none := by
    rw [hkept.multiplexers]
    refine missing.imp_right fun h => ?_
    rcases hkept.compilers with hcs | ⟨c, slot, hc, -⟩
    · rw [hcs, h]
    · rw [h] at hc
      cases hc
  have huninstall : (body b).2.step (.uninstall mux place) = (.done, (body b).2) :=
    withBoth_of_missing missing' _
  rw [snd_block hinstall, huninstall]

theorem block_kept (hbody : ∀ inside, Kept place inside (body inside).2) :
    Kept place b (b.block mux place registry sink ending body).2 := by
  cases hm : b.multiplexers[mux]? with
  | none =>
    rw [block_of_missing (Or.inl hm) (hbody b)]
    exact hbody b
  | some m =>
    cases hc : b.compilers[place]? with
    | none =>
      rw [block_of_missing (Or.inr hc) (hbody b)]
      exact hbody b
    | some c =>
      cases m with
      | installed handle saved active =>
        rw [block_of_installed hm hc]
        exact .refl place b
      | uninstalled =>
        rw [block_of_free hm hc (hbody _)]
        exact ⟨rfl, Or.inl rfl⟩

end Block

/-! ## Scripts -/

theorem kept_emit (b : Bench ρ σ) (place : Nat) (host : Host σ) (call : EmitCall ρ) :
    Kept place b (b.step (.emit place host call)).2 := by
  simp only [step, withCompiler]
  split <;> exact ⟨rfl, Or.inl rfl⟩

theorem kept_emitProgram (b : Bench ρ σ) (place : Nat) (host : Host σ)
    (custom : Option CustomPasses) {sequence : EmitSequence ρ σ}
    (hk : ∀ c host custom w, (sequence c host custom w).2.1.handle = c.handle) :
    Kept place b (b.step (.emitProgram place host custom sequence)).2 := by
  simp only [step, withCompiler]
  split
  · rename_i c hc
    refine ⟨rfl, Or.inr ⟨c, (sequence c host custom b.world).2.1.slot, hc, ?_⟩⟩
    rw [← hk c host custom b.world]
    rfl
  · exact .refl place b

/-- **A script keeps everything but the slot of its compiler, and the world.** -/
theorem Script.run_kept {script : Script ρ σ} (hk : script.KeepsHandle) (place : Nat)
    (b : Bench ρ σ) : Kept place b (script.run place b).2 := by
  induction script generalizing b with
  | stop answer => exact .refl place b
  | emit host call next ih =>
    exact (b.kept_emit place host call).trans (ih _ (hk _) _)
  | emitProgram host custom sequence next ih =>
    exact (b.kept_emitProgram place host custom hk.1).trans (ih _ (hk.2 _) _)
  | block mux registry sink ending body next ihbody ih =>
    exact (block_kept fun inside => ihbody hk.1 inside).trans (ih _ (hk.2 _) _)

/-- **Blocks restore everything.**  Enter a block on any bench, so also inside other blocks, and let
its body be any script, with blocks of its own, that keeps the handle of the compiler: when the
block is left, every compiler and every multiplexer is what it was.  If the multiplexer was
installed, the block failed with the handle that it is installed on, before its body did anything.
If it was free, an error of the body is handed on, and otherwise finishing answers with the entry
point that was in the slot at entry; finishing never fails. -/
theorem block_restores {b : Bench ρ σ} {mux place : Nat} {m : Multiplexer ρ σ}
    {c : Compiler ρ σ} (hm : b.multiplexers[mux]? = some m) (hc : b.compilers[place]? = some c)
    {body : Script ρ σ} (hk : body.KeepsHandle) (registry : Registry) (sink : Option Sink)
    (ending : Ending) :
    (b.block mux place registry sink ending (body.run place)).2.compilers = b.compilers ∧
      (b.block mux place registry sink ending (body.run place)).2.multiplexers =
        b.multiplexers ∧
      (∀ handle saved active, m = .installed handle saved active →
        b.block mux place registry sink ending (body.run place) =
          (.failed (.alreadyInstalled handle), b)) ∧
      (m = .uninstalled →
        (b.block mux place registry sink ending (body.run place)).1 =
          match (body.run place (b.step (.install mux place registry sink)).2).1, ending with
          | .failed e, _ => .failed e
          | _, .finish => .entry c.slot
          | _, .drop => .done) := by
  cases m with
  | installed handle saved active =>
    rw [block_of_installed hm hc]
    refine ⟨rfl, rfl, ?_, nofun⟩
    rintro _ _ _ ⟨⟩
    rfl
  | uninstalled =>
    rw [block_of_free hm hc (Script.run_kept hk place _)]
    refine ⟨rfl, rfl, ?_, fun _ => ?_⟩
    · rintro _ _ _ ⟨⟩
    generalize (body.run place (b.step (.install mux place registry sink)).2).1 = answer
    cases answer <;> cases ending <;> rfl

/-- Emits, then enters a block in which another one fails, since it wants the multiplexer of the
block around all this, and goes on after that. -/
def entangled : Script Unit Unit :=
  .emit ⟨{}, fun _ _ s => (.ok (), s)⟩ ⟨(), none, .derive {} none false, {}⟩ fun _ =>
    .block 1 .pair none .finish (.block 0 .pair none .drop (.stop .done) .stop) fun _ =>
      .stop .done

/-- The block around it is finished, with the entry point that the compiler started with, and the
bench is as it was. -/
theorem block_entangled :
    entangled.KeepsHandle ∧
      (twoMultiplexers.block 0 0 .pair none .finish (entangled.run 0)).1 =
        .entry (.emitter 0 fun _ _ s => (.ok {}, s)) ∧
      (twoMultiplexers.block 0 0 .pair none .finish (entangled.run 0)).2.compilers =
        twoMultiplexers.compilers ∧
      (twoMultiplexers.block 0 0 .pair none .finish (entangled.run 0)).2.multiplexers =
        [.uninstalled, .uninstalled] := by
  have hm : twoMultiplexers.multiplexers[0]? = some .uninstalled := rfl
  have hc : twoMultiplexers.compilers[0]? =
      some ⟨⟨1⟩, .emitter 0 fun _ _ s => (.ok {}, s)⟩ := rfl
  have hk : entangled.KeepsHandle := by simp [entangled, Script.KeepsHandle]
  obtain ⟨hcompilers, hmultiplexers, -, hfree⟩ := block_restores hm hc hk .pair none .finish
  exact ⟨hk, hfree rfl, hcompilers, hmultiplexers⟩

end Bench

end Fanout
