import Fanout.Proofs.Emission.Again

/-!
# Entry points without a memory

`EntryPoint.Memoryless`: how a call ends depends on what is asked for and on the options of the
host, but not on the world, so not on the calls and writes before it.

* `Emitter.memoryless_ofScript`: it is so for an emitter that goes by a script, as long as the host
  answers a write by what is written.
* `Memoryless.fanOut`: a fan-out around such an entry point is another.
* `Memoryless.exchange_eq`: calls that ask for the same end alike.
-/

set_option autoImplicit false

namespace Fanout

variable {ρ σ : Type}

/-- What a call asked for, and how it ended. -/
abbrev Exchange (ρ σ : Type) := (EmitCall ρ × Host σ) × Except BuildError EmitResult

def Invocation.exchange (i : Invocation ρ σ) : Exchange ρ σ := (i.request, i.result)

/-- How a call ends depends on what is asked for and the options, whatever the world is like. -/
def EntryPoint.Memoryless (e : EntryPoint ρ σ)
    (write : Path → String → σ → Except BuildError Unit × σ) : Prop :=
  ∀ call options w w', (e.emit call ⟨options, write⟩ w).1 = (e.emit call ⟨options, write⟩ w').1

section Memoryless

variable {write : Path → String → σ → Except BuildError Unit × σ}

/-- Plays a script with any host. -/
def EmitScript.playWith (write : Path → String → σ → Except BuildError Unit × σ) :
    EmitScript → σ → Except BuildError EmitResult × σ
  | .done result, s => (result, s)
  | .write p contents next, s =>
    let (answer, s) := write p contents s
    (next answer).playWith write s

/-- An emitter that goes by a script. -/
def Emitter.ofScript (script : EmitCall ρ → Options → EmitScript) : Emitter ρ σ :=
  fun call host s => (script call host.options).playWith host.write s

/-- **What goes by a script has no memory,** if the host answers a write by what is written. -/
theorem Emitter.memoryless_ofScript (address : Nat) (script : EmitCall ρ → Options → EmitScript)
    (hw : ∀ p contents s s', (write p contents s).1 = (write p contents s').1) :
    (EntryPoint.emitter address (.ofScript script)).Memoryless write := by
  have hplay (script : EmitScript) (s s' : σ) :
      (script.playWith write s).1 = (script.playWith write s').1 := by
    induction script generalizing s s' with
    | done result => rfl
    | write p contents next ih =>
      unfold EmitScript.playWith
      dsimp only
      rw [hw p contents s s']
      exact ih _ _ _
  intro call options w w'
  exact hplay (script call options) w.state w'.state

theorem emitEach_memoryless {emit : EmitCall ρ → Host σ → World σ →
      Except BuildError EmitResult × World σ}
    (he : ∀ call options w w',
      (emit call ⟨options, write⟩ w).1 = (emit call ⟨options, write⟩ w').1)
    (call : EmitCall ρ) (options : Options) (vs : List ResolvedVariant) (w w' : World σ) :
    (emitEach emit call ⟨options, write⟩ vs w).1 =
      (emitEach emit call ⟨options, write⟩ vs w').1 := by
  induction vs generalizing w w' with
  | nil => rfl
  | cons v rest ih =>
    have hsame := he (call.forVariant v) v.options w w'
    unfold emitEach Host.withOptions
    rcases hv : emit (call.forVariant v) ⟨v.options, write⟩ w with ⟨answer, u⟩
    rcases hv' : emit (call.forVariant v) ⟨v.options, write⟩ w' with ⟨answer', u'⟩
    rw [hv, hv'] at hsame
    obtain rfl : answer = answer' := hsame
    cases answer with
    | error fault => rfl
    | ok result =>
      have hrest := ih u u'
      dsimp only
      rcases h : emitEach emit call ⟨options, write⟩ rest u with ⟨results, z⟩
      rcases h' : emitEach emit call ⟨options, write⟩ rest u' with ⟨results', z'⟩
      rw [h, h'] at hrest
      obtain rfl : results = results' := hrest
      cases results <;> rfl

namespace EntryPoint

variable {e : EntryPoint ρ σ}

theorem Memoryless.fanOut (he : e.Memoryless write) (address : Nat) (r : Registry)
    (sink : Option Sink) : (EntryPoint.fanOut address e r sink).Memoryless write := by
  intro call options w w'
  rw [emit, emit]
  split
  · exact he call options w w'
  · have heach := emitEach_memoryless he call options r.variants (w.record sink call.target)
      (w'.record sink call.target)
    rcases h : emitEach e.emit call ⟨options, write⟩ r.variants (w.record sink call.target)
      with ⟨results, u⟩
    rcases h' : emitEach e.emit call ⟨options, write⟩ r.variants (w'.record sink call.target)
      with ⟨results', u'⟩
    rw [h, h'] at heach
    obtain rfl : results = results' := heach
    cases results <;> rfl

/-- Calls without a memory end alike where they ask for the same. -/
theorem Memoryless.exchange_eq (he : e.Memoryless write) {moves moves' : World σ → World σ → Prop}
    {u u' w w' : World σ} {calls calls' : List (Invocation ρ σ)} (h : e.Runs moves u calls u')
    (h' : e.Runs moves' w calls' w')
    (hreq : calls.map Invocation.request = calls'.map Invocation.request)
    (hw : ∀ i ∈ calls, i.host.write = write) (hw' : ∀ i ∈ calls', i.host.write = write) :
    calls.map Invocation.exchange = calls'.map Invocation.exchange := by
  have hanswer {moves : World σ → World σ → Prop} {v v' : World σ}
      {calls : List (Invocation ρ σ)} (h : e.Runs moves v calls v')
      (hw : ∀ i ∈ calls, i.host.write = write) :
      calls.map Invocation.exchange =
        (calls.map Invocation.request).map fun q => (q, (e.emit q.1 q.2 u).1) := by
    rw [List.map_map]
    apply List.map_congr_left
    intro i hi
    have hsame := he i.call i.host.options i.before u
    rw [← hw i hi] at hsame
    have hemit := congrArg Prod.fst (h.emit_of_mem i hi)
    exact Prod.ext rfl (hemit.symm.trans hsame)
  rw [hanswer h hw, hanswer h' hw', hreq]

end EntryPoint

end Memoryless

end Fanout
