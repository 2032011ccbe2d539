import Fanout.Proofs.Install.Blocks

/-!
# Refused steps leave no trace

A `History` is what is done with several compilers and multiplexers, one thing after the other:
steps of the bench, and scopes, which are histories of their own with a multiplexer installed.
`History.run` carries it out and puts every `Deed` on record as an `Event`, with its answer and the
bench before and after it.

* `Bench.Refuses` says what is refused, and with which error: installing and entering a scope if
  the multiplexer is installed, uninstalling if it is not or if the compiler has another handle.
  `fault?_perform_iff`: that is refused and nothing else.
* `after_of_refused`: what is refused leaves the bench as it was.
* `History.run_granted_eq`: the same over a whole history, by induction on it.  Without what is
  refused in its course (`History.granted`), a history goes as it did.

The main result, `History.run_forgets_refused`, says all three of every history.
-/

set_option autoImplicit false

namespace Fanout.Bench

variable {ρ σ : Type}

/-! ## Histories on record -/

/-- What is done at one moment of a history: a step, or the beginning or the end of a scope. -/
inductive Deed (ρ σ : Type) where
  | step (s : Step ρ σ)
  | enter (mux place : Nat) (registry : Registry) (sink : Option Sink)
  | exit (mux place : Nat) (ending : Ending)

namespace Deed

/-- A scope is entered by installing, and left as a block is. -/
def asStep : Deed ρ σ → Step ρ σ
  | step s => s
  | enter mux place registry sink => .install mux place registry sink
  | exit mux place ending => ending.step mux place

/-- What a multiplexer does or refuses as a whole. -/
def isTransition : Deed ρ σ → Bool
  | step (.install ..) | step (.uninstall ..) | enter .. => true
  | _ => false

end Deed

/-- A deed on record. -/
structure Event (ρ σ : Type) where
  deed : Deed ρ σ
  before : Bench ρ σ
  answer : Answer ρ σ
  after : Bench ρ σ

namespace Event

/-- The error for which a transition is refused.  A call that fails is no refusal. -/
def fault? (e : Event ρ σ) : Option BuildError :=
  match e.answer with
  | .failed fault => if e.deed.isTransition then some fault else none
  | _ => none

def refused (e : Event ρ σ) : Bool := e.fault?.isSome

end Event

def perform (b : Bench ρ σ) (d : Deed ρ σ) : Event ρ σ where
  deed := d
  before := b
  answer := (b.step d.asStep).1
  after := (b.step d.asStep).2

/-- What is done with the compilers and multiplexers of a bench, in turn. -/
inductive History (ρ σ : Type) where
  | stop
  | step (s : Step ρ σ) (rest : History ρ σ)
  | scope (mux place : Nat) (registry : Registry) (sink : Option Sink) (ending : Ending)
    (body rest : History ρ σ)

namespace History

/-- Carries a history out: everything that was done, and the bench in the end. -/
def run : History ρ σ → Bench ρ σ → List (Event ρ σ) × Bench ρ σ
  | stop, b => ([], b)
  | step s rest, b =>
    let event := b.perform (.step s)
    let later := rest.run event.after
    (event :: later.1, later.2)
  | scope mux place registry sink ending body rest, b =>
    let entry := b.perform (.enter mux place registry sink)
    if entry.refused then
      -- there is no guard to do anything with
      let later := rest.run entry.after
      (entry :: later.1, later.2)
    else
      let inside := body.run entry.after
      let exit := inside.2.perform (.exit mux place ending)
      let later := rest.run exit.after
      (entry :: inside.1 ++ exit :: later.1, later.2)

/-- A history without what is refused in its course. -/
def granted : History ρ σ → Bench ρ σ → History ρ σ
  | stop, _ => stop
  | step s rest, b =>
    let event := b.perform (.step s)
    if event.refused then rest.granted event.after else step s (rest.granted event.after)
  | scope mux place registry sink ending body rest, b =>
    let entry := b.perform (.enter mux place registry sink)
    if entry.refused then rest.granted entry.after
    else
      let exit := (body.run entry.after).2.perform (.exit mux place ending)
      scope mux place registry sink ending (body.granted entry.after) (rest.granted exit.after)

end History

/-! ## What is refused -/

/-- What a bench refuses, and with which error. -/
inductive Refuses (b : Bench ρ σ) : Deed ρ σ → BuildError → Prop
  | install {mux place : Nat} {handle : Handle} {saved : EntryPoint ρ σ} {active : Registry}
      {c : Compiler ρ σ} (taken : b.multiplexers[mux]? = some (.installed handle saved active))
      (found : b.compilers[place]? = some c) (registry : Registry) (sink : Option Sink) :
      Refuses b (.step (.install mux place registry sink)) (.alreadyInstalled handle)
  | enter {mux place : Nat} {handle : Handle} {saved : EntryPoint ρ σ} {active : Registry}
      {c : Compiler ρ σ} (taken : b.multiplexers[mux]? = some (.installed handle saved active))
      (found : b.compilers[place]? = some c) (registry : Registry) (sink : Option Sink) :
      Refuses b (.enter mux place registry sink) (.alreadyInstalled handle)
  | uninstallFree {mux place : Nat} {c : Compiler ρ σ}
      (free : b.multiplexers[mux]? = some .uninstalled) (found : b.compilers[place]? = some c) :
      Refuses b (.step (.uninstall mux place)) .notInstalled
  | uninstallOther {mux place : Nat} {handle : Handle} {saved : EntryPoint ρ σ}
      {active : Registry} {c : Compiler ρ σ}
      (taken : b.multiplexers[mux]? = some (.installed handle saved active))
      (found : b.compilers[place]? = some c) (differs : handle ≠ c.handle) :
      Refuses b (.step (.uninstall mux place)) (.otherCompiler handle c.handle)

theorem uninstall_eq_error_iff {m : Multiplexer ρ σ} {c : Compiler ρ σ} {fault : BuildError} :
    m.uninstall c = .error fault ↔
      m = .uninstalled ∧ fault = .notInstalled ∨
        ∃ handle saved active, m = .installed handle saved active ∧ handle ≠ c.handle ∧
          fault = .otherCompiler handle c.handle := by
  cases m with
  | uninstalled => simp [Multiplexer.uninstall, eq_comm]
  | installed handle saved active =>
    simp only [Multiplexer.uninstall]
    split
    · rename_i heq
      simp [heq]
    · rename_i hne
      simp [hne, eq_comm]

section Step

variable {b : Bench ρ σ} {mux place : Nat} {fault : BuildError}

theorem step_install_failed_iff {registry : Registry} {sink : Option Sink} :
    (b.step (.install mux place registry sink)).1 = .failed fault ↔
      ∃ handle saved active c, b.multiplexers[mux]? = some (.installed handle saved active) ∧
        b.compilers[place]? = some c ∧ fault = .alreadyInstalled handle := by
  simp only [step, withBoth, withCompiler]
  cases b.multiplexers[mux]? with
  | none => simp
  | some m =>
    cases b.compilers[place]? with
    | none => simp
    | some c => cases m <;> simp [eq_comm]

theorem step_uninstall_failed_iff :
    (b.step (.uninstall mux place)).1 = .failed fault ↔
      ∃ m c, b.multiplexers[mux]? = some m ∧ b.compilers[place]? = some c ∧
        m.uninstall c = .error fault := by
  simp only [step, withBoth, withCompiler]
  cases b.multiplexers[mux]? with
  | none => simp
  | some m =>
    cases b.compilers[place]? with
    | none => simp
    | some c => cases hu : m.uninstall c <;> simp [hu]

/-- A refused installation changes nothing, and takes no address for a fan-out. -/
theorem snd_step_install_of_failed {registry : Registry} {sink : Option Sink}
    (h : (b.step (.install mux place registry sink)).1 = .failed fault) :
    (b.step (.install mux place registry sink)).2 = b := by
  obtain ⟨handle, saved, active, c, hm, hc, -⟩ := step_install_failed_iff.mp h
  simp [step, withBoth, withCompiler, hm, hc]

theorem snd_step_uninstall_of_failed
    (h : (b.step (.uninstall mux place)).1 = .failed fault) :
    (b.step (.uninstall mux place)).2 = b := by
  obtain ⟨m, c, hm, hc, hu⟩ := step_uninstall_failed_iff.mp h
  simp [step, withBoth, withCompiler, hm, hc, hu]

end Step

/-- A fault is the error that a transition answers with. -/
theorem fault?_perform_eq_some_iff {b : Bench ρ σ} {d : Deed ρ σ} {fault : BuildError} :
    (b.perform d).fault? = some fault ↔
      d.isTransition = true ∧ (b.step d.asStep).1 = .failed fault := by
  simp only [Event.fault?, perform]
  cases (b.step d.asStep).1 with
  | failed e => by_cases ht : d.isTransition = true <;> simp [ht]
  | _ => simp

/-- **What is refused, and for what.** -/
theorem fault?_perform_iff (b : Bench ρ σ) (d : Deed ρ σ) (fault : BuildError) :
    (b.perform d).fault? = some fault ↔ b.Refuses d fault := by
  rw [fault?_perform_eq_some_iff]
  constructor
  · rintro ⟨ht, hf⟩
    cases d with
    | step s =>
      cases s with
      | install mux place registry sink =>
        obtain ⟨handle, saved, active, c, hm, hc, rfl⟩ := step_install_failed_iff.mp hf
        exact .install hm hc registry sink
      | uninstall mux place =>
        obtain ⟨m, c, hm, hc, hu⟩ := step_uninstall_failed_iff.mp hf
        rcases uninstall_eq_error_iff.mp hu with
          ⟨rfl, rfl⟩ | ⟨handle, saved, active, rfl, hne, rfl⟩
        · exact .uninstallFree hm hc
        · exact .uninstallOther hm hc hne
      | _ => cases ht
    | enter mux place registry sink =>
      obtain ⟨handle, saved, active, c, hm, hc, rfl⟩ := step_install_failed_iff.mp hf
      exact .enter hm hc registry sink
    | exit mux place ending => cases ht
  · intro h
    cases h with
    | install hm hc registry sink =>
      exact ⟨rfl, step_install_failed_iff.mpr ⟨_, _, _, _, hm, hc, rfl⟩⟩
    | enter hm hc registry sink =>
      exact ⟨rfl, step_install_failed_iff.mpr ⟨_, _, _, _, hm, hc, rfl⟩⟩
    | uninstallFree hm hc =>
      exact ⟨rfl, step_uninstall_failed_iff.mpr ⟨_, _, hm, hc, rfl⟩⟩
    | uninstallOther hm hc hne =>
      exact ⟨rfl, step_uninstall_failed_iff.mpr ⟨_, _, hm, hc,
        uninstall_eq_error_iff.mpr (Or.inr ⟨_, _, _, rfl, hne, rfl⟩)⟩⟩

/-- **What is refused leaves the bench as it was.** -/
theorem after_of_refused {b : Bench ρ σ} {d : Deed ρ σ} (h : (b.perform d).refused = true) :
    (b.perform d).after = b := by
  obtain ⟨fault, hfault⟩ := Option.isSome_iff_exists.mp h
  obtain ⟨ht, hf⟩ := fault?_perform_eq_some_iff.mp hfault
  cases d with
  | step s =>
    cases s with
    | install mux place registry sink => exact snd_step_install_of_failed hf
    | uninstall mux place => exact snd_step_uninstall_of_failed hf
    | _ => cases ht
  | enter mux place registry sink => exact snd_step_install_of_failed hf
  | exit mux place ending => cases ht

/-- The end of a scope may fail, but it is not refused: the guard is gone after it. -/
theorem refused_exit (b : Bench ρ σ) (mux place : Nat) (ending : Ending) :
    (b.perform (.exit mux place ending)).refused = false := by
  simp only [Event.refused, Event.fault?, perform]
  cases (b.step (Deed.exit mux place ending).asStep).1 <;> rfl

/-! ## Histories without what is refused -/

namespace History

/-- Whatever is on record was done on the bench before it. -/
theorem perform_of_mem_run {h : History ρ σ} {b : Bench ρ σ} {e : Event ρ σ}
    (he : e ∈ (h.run b).1) : e = e.before.perform e.deed := by
  induction h generalizing b with
  | stop => cases he
  | step s rest ih =>
    rcases List.mem_cons.mp he with rfl | he
    · rfl
    · exact ih he
  | scope mux place registry sink ending body rest ihbody ih =>
    simp only [run] at he
    split at he
    · rcases List.mem_cons.mp he with rfl | he
      · rfl
      · exact ih he
    · simp only [List.cons_append, List.mem_cons, List.mem_append] at he
      rcases he with rfl | he | rfl | he
      · rfl
      · exact ihbody he
      · rfl
      · exact ih he

/-- The events and the bench that are left of a history without what is refused. -/
theorem run_granted_eq (h : History ρ σ) (b : Bench ρ σ) :
    (h.granted b).run b = ((h.run b).1.filter (!·.refused), (h.run b).2) := by
  induction h generalizing b with
  | stop => rfl
  | step s rest ih =>
    simp only [granted, run]
    cases hr : (b.perform (.step s)).refused with
    | true =>
      have hafter := after_of_refused hr
      simp [hr, hafter, ih b]
    | false => simp [run, hr, ih]
  | scope mux place registry sink ending body rest ihbody ih =>
    simp only [granted, run]
    cases hr : (b.perform (.enter mux place registry sink)).refused with
    | true =>
      have hafter := after_of_refused hr
      simp [hr, hafter, ih b]
    | false =>
      simp [run, hr, ihbody, ih, refused_exit]

/-- **What is refused leaves no trace in a history.**  Whatever several multiplexers are asked for
on several compilers, in any order and with scopes inside scopes: an installation and a scope are
refused exactly if the multiplexer is installed, with the handle that it is installed on; an
uninstallation exactly if it is not installed, or is installed on a compiler with another handle,
with both handles; and the bench is then as it was.  Without all that is refused in its course, a
history goes as it did: what is left of it gives the same answers, does the same to compilers,
multiplexers, sinks and the state that emitters and hosts act on, and ends in the same bench. -/
theorem run_forgets_refused (h : History ρ σ) (b : Bench ρ σ) :
    (∀ e ∈ (h.run b).1, (∀ fault, e.fault? = some fault ↔ e.before.Refuses e.deed fault) ∧
        (e.refused = true → e.after = e.before)) ∧
      (h.granted b).run b = ((h.run b).1.filter (!·.refused), (h.run b).2) := by
  refine ⟨fun e he => ?_, h.run_granted_eq b⟩
  rw [perform_of_mem_run he]
  exact ⟨fault?_perform_iff _ _, after_of_refused⟩

/-- A call in a scope, among much that is refused there and after it. -/
def crowded : History Unit Unit :=
  .scope 0 0 .pair none .finish
    (.step (.install 0 0 .pair none) <|
      .step (.emit 0 ⟨{}, fun _ _ s => (.ok (), s)⟩ ⟨(), none, .derive {} none false, {}⟩) <|
      .scope 0 0 .pair none .drop .stop <|
      .step (.uninstall 1 0) .stop)
    (.step (.uninstall 0 0) .stop)

/-- The call alone, in its scope, goes as it did among the rest. -/
theorem run_forgets_refused_crowded :
    let call : Step Unit Unit :=
      .emit 0 ⟨{}, fun _ _ s => (.ok (), s)⟩ ⟨(), none, .derive {} none false, {}⟩
    let alone : History Unit Unit :=
      .scope 0 0 .pair none .finish (.step call .stop) .stop
    let crowd := crowded.run twoMultiplexers
    crowd.1.filterMap Event.fault? =
        [.alreadyInstalled ⟨1⟩, .alreadyInstalled ⟨1⟩, .notInstalled, .notInstalled] ∧
      alone.run twoMultiplexers = (crowd.1.filter (!·.refused), crowd.2) ∧
      ∀ e ∈ crowd.1, ∀ fault, e.fault? = some fault ↔ e.before.Refuses e.deed fault := by
  intro call alone crowd
  obtain ⟨hevents, hgranted⟩ := run_forgets_refused crowded twoMultiplexers
  exact ⟨by decide, hgranted, fun e he => (hevents e he).1⟩

end History

end Fanout.Bench
