import Fanout.Proofs.Install.Transitions
import Fanout.Proofs.Variant.Resolution
import Fanout.Session.Basic

/-!
# A session gives the compiler back

A run either stops at the resolution of the variants, before anything is done, or consists of its
emission: the emit sequence of the compiler, which it sees with a fan-out in its slot
(`Session.emission`).

* `run_of_resolve_error` is the first case: the error, the compiler and the world as they were.
* `run_of_emission` is the second one for a compiler that keeps its handle: the outcome is that of
  the emission, the compiler is as it was, and the world is as the emission left it.
* `run_eq_ok` reads a run that went well, of any compiler.

The main result, `run_gives_back`, puts them together for sequences that keep the handle and do
whatever else they like.
-/

set_option autoImplicit false

namespace Fanout

variable {ρ τ : Type}

namespace Session

/-- The compiler as the emit sequence of a run finds it. -/
def wrapped (s : Session) (registry : Registry) (c : Compiler ρ (OnDisk τ)) (address : Nat)
    (w : World (OnDisk τ)) : Compiler ρ (OnDisk τ) :=
  { c with slot := .fanOut address c.slot registry (some (s.sinkFor w.sinks).1) }

/-- The world as the emit sequence of a run finds it. -/
def opened (s : Session) (w : World (OnDisk τ)) : World (OnDisk τ) where
  sinks := (s.sinkFor w.sinks).2
  state := { w.state with written := [] }

/-- What the emit sequence does in a run. -/
def emission (s : Session) (registry : Registry) (c : Compiler ρ (OnDisk τ))
    (sequence : EmitSequence ρ (OnDisk τ)) (address : Nat) (w : World (OnDisk τ)) :
    Except BuildError EmitResult × Compiler ρ (OnDisk τ) × World (OnDisk τ) :=
  sequence (s.wrapped registry c address w) (DiskHost.withOptions registry.primary.options)
    s.custom (s.opened w)

theorem resolve_error {s : Session} {e : BuildError} (h : s.resolve = .error e) :
    ∃ reason, e = .configuration reason := by
  unfold resolve at h
  split at h
  · cases h
  · rename_i fault _
    cases h
    exact ⟨fault.message, rfl⟩

section Run

variable {s : Session} {registry : Registry} {c : Compiler ρ (OnDisk τ)}
  {sequence : EmitSequence ρ (OnDisk τ)} {address : Nat} {elapsed : Elapsed}
  {w : World (OnDisk τ)}

theorem run_of_resolve_error {e : BuildError} (h : s.resolve = .error e) :
    s.run c sequence address elapsed w = (.error e, c, w) := by
  simp [run, h]

/-- A run is a scoped installation around its emission. -/
theorem run_of_resolve (hr : s.resolve = .ok registry) {result : Except BuildError EmitResult}
    {c' : Compiler ρ (OnDisk τ)} {w' : World (OnDisk τ)}
    (he : s.emission registry c sequence address w = (result, c', w')) :
    s.run c sequence address elapsed w =
      if c.handle = c'.handle then
        (result.map fun r => s.report registry (s.sinkFor w.sinks).1 elapsed r w',
          { c' with slot := c.slot }, w')
      else (result.bind fun _ => .error (.otherCompiler c.handle c'.handle), c', w') := by
  have hd := Multiplexer.during_uninstalled c registry (some (s.sinkFor w.sinks).1) address
    (fun c w => sequence c (DiskHost.withOptions registry.primary.options) s.custom w)
    (s.opened w) he
  simp only [run, hr]
  rw [show ({ sinks := (s.sinkFor w.sinks).2, state := { w.state with written := [] } } :
    World (OnDisk τ)) = s.opened w from rfl, hd]
  by_cases hh : c.handle = c'.handle
  · rw [if_pos hh, if_pos hh]
    cases result <;> rfl
  · rw [if_neg hh, if_neg hh]
    cases result <;> rfl

/-- A compiler that keeps its handle is given back, however its emission ended. -/
theorem run_of_emission (hr : s.resolve = .ok registry) {result : Except BuildError EmitResult}
    {c' : Compiler ρ (OnDisk τ)} {w' : World (OnDisk τ)}
    (he : s.emission registry c sequence address w = (result, c', w'))
    (hh : c'.handle = c.handle) :
    s.run c sequence address elapsed w =
      (result.map fun r => s.report registry (s.sinkFor w.sinks).1 elapsed r w', c, w') := by
  rw [run_of_resolve hr he, if_pos hh.symm, hh]

theorem run_eq_ok (hr : s.resolve = .ok registry) {report : Report}
    {c' : Compiler ρ (OnDisk τ)} {w' : World (OnDisk τ)}
    (h : s.run c sequence address elapsed w = (.ok report, c', w')) :
    ∃ result c'', s.emission registry c sequence address w = (.ok result, c'', w') ∧
      report = s.report registry (s.sinkFor w.sinks).1 elapsed result w' := by
  obtain ⟨result, c'', w'', he⟩ : ∃ result c'' w'',
      s.emission registry c sequence address w = (result, c'', w'') := ⟨_, _, _, rfl⟩
  rw [run_of_resolve hr he] at h
  split at h
  · cases result with
    | error e => cases h
    | ok r =>
      cases h
      exact ⟨r, c'', he, rfl⟩
  · cases result <;> cases h

end Run

/-- **A session always gives the compiler back.**  The emit sequence may call any entry point, also
the one in the slot, replace that one, and fail at any moment; if it only keeps the handle, the
compiler is after the run what it was before.  A run fails before its emission exactly when the
variants do not resolve: with the error of that, for every sequence alike, so none was started, and
with the compiler and the whole world, disk and sinks included, as they were.  Where the variants
resolve, the outcome and the world are those that the sequence comes to. -/
theorem run_gives_back (s : Session) (c : Compiler ρ (OnDisk τ))
    (sequence : EmitSequence ρ (OnDisk τ))
    (hk : ∀ d host custom v, (sequence d host custom v).2.1.handle = d.handle) (address : Nat)
    (elapsed : Elapsed) (w : World (OnDisk τ)) :
    (s.run c sequence address elapsed w).2.1 = c ∧
      (∀ e, s.resolve = .error e ↔ ∀ other : EmitSequence ρ (OnDisk τ),
        s.run c other address elapsed w = (.error e, c, w)) ∧
      (∀ e, s.resolve = .error e → ∃ reason, e = .configuration reason) ∧
      ∀ registry, s.resolve = .ok registry →
        ∃ result c' w', s.emission registry c sequence address w = (result, c', w') ∧
          s.run c sequence address elapsed w =
            (result.map fun r => s.report registry (s.sinkFor w.sinks).1 elapsed r w', c, w') := by
  have hrun : ∀ registry, s.resolve = .ok registry →
      ∃ result c' w', s.emission registry c sequence address w = (result, c', w') ∧
        s.run c sequence address elapsed w =
          (result.map fun r => s.report registry (s.sinkFor w.sinks).1 elapsed r w', c, w') :=
    fun registry hr => ⟨_, _, _, rfl, run_of_emission hr rfl (hk _ _ _ _)⟩
  refine ⟨?_, ?_, fun e => resolve_error, hrun⟩
  · cases hr : s.resolve with
    | error e => rw [run_of_resolve_error hr]
    | ok registry =>
      obtain ⟨result, c', w', -, h⟩ := hrun registry hr
      rw [h]
  · intro e
    constructor
    · intro hr other
      exact run_of_resolve_error hr
    · intro hall
      cases hr : s.resolve with
      | error e' =>
        have h := hall sequence
        rw [run_of_resolve_error hr] at h
        cases h
        rfl
      | ok registry =>
        -- a sequence that goes well at once is not stopped
        have he : s.emission registry c (fun c _ _ w => (.ok {}, c, w)) address w =
            (.ok {}, s.wrapped registry c address w, s.opened w) := rfl
        have h := hall fun c _ _ w => (.ok {}, c, w)
        rw [run_of_emission hr he rfl] at h
        cases h

/-- A sequence that puts an entry point of its own into the slot and then fails. -/
def usurping : EmitSequence Unit (OnDisk Unit) := fun c _ _ w =>
  (.error (.emit "gave up"), { c with slot := .emitter 9 fun _ _ s => (.ok {}, s) }, w)

/-- The compiler is given back, and the failure of the sequence is what the run answers. -/
theorem run_usurping :
    let s : Session := { options := { declaration := true }, variants := Registry.cjsAndEsm }
    let c : Compiler Unit (OnDisk Unit) := ⟨⟨1⟩, .emitter 0 fun _ _ s => (.ok {}, s)⟩
    let w : World (OnDisk Unit) := ⟨{}, ⟨.bare [], [], ()⟩⟩
    (∀ d host custom v, (usurping d host custom v).2.1.handle = d.handle) ∧
      s.resolve = .ok .pair ∧ (s.run c usurping 1 .zero w).2.1 = c ∧
      ∃ result c' w', s.emission .pair c usurping 1 w = (result, c', w') ∧
        (s.run c usurping 1 .zero w).1 = .error (.emit "gave up") := by
  intro s c w
  have hk : ∀ d host custom v, (usurping d host custom v).2.1.handle = d.handle :=
    fun _ _ _ _ => rfl
  have hr : s.resolve = .ok .pair := rfl
  obtain ⟨hback, -, -, hrun⟩ := run_gives_back s c usurping hk 1 .zero w
  obtain ⟨result, c', w', he, h⟩ := hrun .pair hr
  refine ⟨hk, hr, hback, result, c', w', he, ?_⟩
  cases he
  rw [h]
  rfl

end Session

end Fanout
