import Fanout.Install.Bench

/-!
# What one step does to slots and multiplexers

`Multiplexer.uninstall_eq_ok_iff` says when a multiplexer gives an entry point back and which one,
and `Multiplexer.during_uninstalled` what a body between installation and restoration comes to.
On a bench of several compilers and multiplexers, finishing and leaving a scoped installation do
what uninstalling does (`Bench.step_finish`, `Bench.step_leave`).  `Bench.Moved` lists what a step
that goes through the multiplexers can do to the slots: nothing, one installation, or one
restoration (`step_moved`), and `run_induction` carries what every step preserves through a history.
-/

set_option autoImplicit false

namespace Fanout

variable {ρ σ : Type}

namespace Multiplexer

@[simp] theorem install_uninstalled (c : Compiler ρ σ) (registry : Registry)
    (sink : Option Sink) (address : Nat) :
    (uninstalled : Multiplexer ρ σ).install c registry sink address =
      .ok (installed c.handle c.slot registry,
        { c with slot := .fanOut address c.slot registry sink }) := rfl

@[simp] theorem install_installed (handle : Handle) (saved : EntryPoint ρ σ)
    (active : Registry) (c : Compiler ρ σ) (registry : Registry) (sink : Option Sink)
    (address : Nat) :
    (installed handle saved active).install c registry sink address =
      .error (.alreadyInstalled handle) := rfl

/-- A multiplexer gives back what it saved, to the compiler that it was installed on. -/
theorem uninstall_eq_ok_iff {m m' : Multiplexer ρ σ} {c c' : Compiler ρ σ}
    {saved : EntryPoint ρ σ} :
    m.uninstall c = .ok (saved, m', c') ↔
      (∃ registry, m = installed c.handle saved registry) ∧ m' = uninstalled ∧
        c' = { c with slot := saved } := by
  cases m with
  | uninstalled => simp [uninstall]
  | installed handle kept registry =>
    simp only [uninstall]
    split
    · rename_i heq
      simp only [Except.ok.injEq, Prod.mk.injEq, installed.injEq, heq, true_and]
      constructor
      · rintro ⟨rfl, rfl, rfl⟩
        exact ⟨⟨registry, rfl, rfl⟩, rfl, rfl⟩
      · rintro ⟨⟨_, rfl, _⟩, rfl, rfl⟩
        exact ⟨rfl, rfl, rfl⟩
    · rename_i hne
      simp [hne]

theorem leave_of_ok {m m' : Multiplexer ρ σ} {c c' : Compiler ρ σ} {saved : EntryPoint ρ σ}
    (h : m.uninstall c = .ok (saved, m', c')) : m.leave c = (m', c') := by
  simp [leave, h]

theorem leave_of_error {m : Multiplexer ρ σ} {c : Compiler ρ σ} {e : BuildError}
    (h : m.uninstall c = .error e) : m.leave c = (m, c) := by
  simp [leave, h]

theorem finish_of_ok {m m' : Multiplexer ρ σ} {c c' : Compiler ρ σ} {saved : EntryPoint ρ σ}
    (h : m.uninstall c = .ok (saved, m', c')) : m.finish c = (.ok saved, m', c') := by
  simp [finish, h]

/-- Leaving after a refused uninstallation is refused as well. -/
theorem finish_of_error {m : Multiplexer ρ σ} {c : Compiler ρ σ} {e : BuildError}
    (h : m.uninstall c = .error e) : m.finish c = (.error e, m, c) := by
  simp [finish, h, leave_of_error h]

/-- **What a scoped installation comes to.**  The body sees the compiler with the fan-out in its
slot.  A compiler that comes back with its handle has its entry point again, whatever the body did
to its slot and whether or not it failed; one with another handle is refused, and the multiplexer
stays installed. -/
theorem during_uninstalled {α τ : Type} (c : Compiler ρ σ) (registry : Registry)
    (sink : Option Sink) (address : Nat)
    (body : Compiler ρ σ → τ → Except BuildError α × Compiler ρ σ × τ) (t : τ)
    {result : Except BuildError α} {c' : Compiler ρ σ} {t' : τ}
    (h : body { c with slot := .fanOut address c.slot registry sink } t = (result, c', t')) :
    (uninstalled : Multiplexer ρ σ).during c registry sink address body t =
      if c.handle = c'.handle then (result, uninstalled, { c' with slot := c.slot }, t')
      else
        (result.bind fun _ => .error (.otherCompiler c.handle c'.handle),
          installed c.handle c.slot registry, c', t') := by
  simp only [during, install_uninstalled, h]
  by_cases hh : c.handle = c'.handle
  · have hu : (installed c.handle c.slot registry).uninstall c' =
        .ok (c.slot, uninstalled, { c' with slot := c.slot }) := by
      simp [uninstall, hh]
    rw [if_pos hh]
    cases result with
    | error e => simp only [leave_of_ok hu]
    | ok a => simp only [finish_of_ok hu]
  · have hu : (installed c.handle c.slot registry).uninstall c' =
        .error (.otherCompiler c.handle c'.handle) := by
      simp [uninstall, hh]
    rw [if_neg hh]
    cases result with
    | error e => simp only [leave_of_error hu, Except.bind]
    | ok a => simp only [finish_of_error hu, Except.bind]

end Multiplexer

namespace Bench

/-! ## Finding and replacing -/

theorem set_of_getElem? {α : Type} {l : List α} {i : Nat} {a : α} (h : l[i]? = some a) :
    l.set i a = l := by
  obtain ⟨hi, rfl⟩ := List.getElem?_eq_some_iff.mp h
  exact List.set_getElem_self hi

/-- Handles tell compilers apart. -/
theorem place_eq_of_handle {compilers : List (Compiler ρ σ)} {i j : Nat} {c d : Compiler ρ σ}
    (hd : (compilers.map (·.handle)).Nodup) (hi : compilers[i]? = some c)
    (hj : compilers[j]? = some d) (h : c.handle = d.handle) : i = j := by
  have hlt : i < (compilers.map (·.handle)).length := by
    rw [List.length_map]
    exact (List.getElem?_eq_some_iff.mp hi).1
  refine (List.getElem?_inj hlt hd).mp ?_
  rw [List.getElem?_map, List.getElem?_map, hi, hj]
  exact congrArg some h

theorem map_handle_set {compilers : List (Compiler ρ σ)} {i : Nat} {c : Compiler ρ σ}
    (hi : compilers[i]? = some c) (e : EntryPoint ρ σ) :
    (compilers.set i { c with slot := e }).map (·.handle) = compilers.map (·.handle) := by
  rw [List.map_set]
  exact set_of_getElem? (by rw [List.getElem?_map, hi]; rfl)

theorem put_self {b : Bench ρ σ} {mux compiler : Nat} {m : Multiplexer ρ σ} {c : Compiler ρ σ}
    (hm : b.multiplexers[mux]? = some m) (hc : b.compilers[compiler]? = some c) :
    (b.putMultiplexer mux m).putCompiler compiler c = b := by
  simp [putMultiplexer, putCompiler, set_of_getElem? hm, set_of_getElem? hc]

/-- Either both places hold something, or nothing is done. -/
theorem withBoth_cases (b : Bench ρ σ) (mux compiler : Nat)
    (act : Multiplexer ρ σ → Compiler ρ σ → Answer ρ σ × Bench ρ σ) :
    (∃ m c, b.multiplexers[mux]? = some m ∧ b.compilers[compiler]? = some c ∧
        b.withBoth mux compiler act = act m c) ∨
      b.withBoth mux compiler act = (.done, b) := by
  unfold withBoth withCompiler
  cases b.multiplexers[mux]? with
  | none => exact Or.inr rfl
  | some m =>
    cases b.compilers[compiler]? with
    | none => exact Or.inr rfl
    | some c => exact Or.inl ⟨m, c, rfl, rfl, rfl⟩

/-! ## Steps that succeed -/

theorem step_install_of_free {b : Bench ρ σ} {mux place : Nat} {c : Compiler ρ σ}
    (free : b.multiplexers[mux]? = some .uninstalled) (found : b.compilers[place]? = some c)
    (registry : Registry) (sink : Option Sink) :
    b.step (.install mux place registry sink) =
      (.done,
        { (b.putMultiplexer mux (.installed c.handle c.slot registry)).putCompiler place
            { c with slot := .fanOut b.nextAddress c.slot registry sink } with
          nextAddress := b.nextAddress + 1 }) := by
  simp [step, withBoth, withCompiler, free, found]

theorem step_uninstall_of_installed {b : Bench ρ σ} {mux place : Nat} {c : Compiler ρ σ}
    {saved : EntryPoint ρ σ} {registry : Registry}
    (active : b.multiplexers[mux]? = some (.installed c.handle saved registry))
    (found : b.compilers[place]? = some c) :
    b.step (.uninstall mux place) =
      (.entry saved,
        (b.putMultiplexer mux .uninstalled).putCompiler place { c with slot := saved }) := by
  simp [step, withBoth, withCompiler, active, found, Multiplexer.uninstall]

/-! ## Scoped installations -/

theorem step_finish (b : Bench ρ σ) (mux compiler : Nat) :
    b.step (.finish mux compiler) = b.step (.uninstall mux compiler) := by
  simp only [step, withBoth, withCompiler]
  split
  · rename_i m hm
    split
    · rename_i c hc
      cases hu : m.uninstall c with
      | error e => simp [Multiplexer.finish_of_error hu, put_self hm hc]
      | ok out =>
        obtain ⟨saved, m', c'⟩ := out
        simp [Multiplexer.finish_of_ok hu]
    · rfl
  · rfl

/-- Leaving a scoped installation is uninstalling without an answer. -/
theorem step_leave (b : Bench ρ σ) (mux compiler : Nat) :
    b.step (.leave mux compiler) = (.done, (b.step (.uninstall mux compiler)).2) := by
  simp only [step, withBoth, withCompiler]
  split
  · rename_i m hm
    split
    · rename_i c hc
      cases hu : m.uninstall c with
      | error e => simp [Multiplexer.leave_of_error hu, put_self hm hc]
      | ok out =>
        obtain ⟨saved, m', c'⟩ := out
        simp [Multiplexer.leave_of_ok hu]
    · rfl
  · rfl

/-! ## What a step can do -/

/-- A step that exchanges entry points through the multiplexers and in no other way. -/
def Step.Regular : Step ρ σ → Prop
  | .install .. | .uninstall .. | .finish .. | .leave .. | .emit .. | .take _ => True
  | .emitProgram _ _ _ sequence => ∀ c host custom w, (sequence c host custom w).2.1 = c
  | .wrap .. | .replace .. | .setHandle .. => False

/-- What a regular step does to slots and multiplexers. -/
inductive Moved (b : Bench ρ σ) : Bench ρ σ → Prop
  /-- No slot and no multiplexer changes. -/
  | kept {b' : Bench ρ σ} (compilers : b'.compilers = b.compilers)
      (multiplexers : b'.multiplexers = b.multiplexers)
      (nextAddress : b'.nextAddress = b.nextAddress) : Moved b b'
  /-- A multiplexer that was free puts a new fan-out around the entry point of a compiler. -/
  | installed {b' : Bench ρ σ} {mux compiler : Nat} {c : Compiler ρ σ} {registry : Registry}
      {sink : Option Sink} (free : b.multiplexers[mux]? = some .uninstalled)
      (found : b.compilers[compiler]? = some c)
      (compilers : b'.compilers = b.compilers.set compiler
        { c with slot := .fanOut b.nextAddress c.slot registry sink })
      (multiplexers : b'.multiplexers =
        b.multiplexers.set mux (.installed c.handle c.slot registry))
      (nextAddress : b'.nextAddress = b.nextAddress + 1) : Moved b b'
  /-- A multiplexer that is installed on a compiler puts back what it saved. -/
  | restored {b' : Bench ρ σ} {mux compiler : Nat} {c : Compiler ρ σ} {saved : EntryPoint ρ σ}
      {registry : Registry}
      (active : b.multiplexers[mux]? = some (.installed c.handle saved registry))
      (found : b.compilers[compiler]? = some c)
      (compilers : b'.compilers = b.compilers.set compiler { c with slot := saved })
      (multiplexers : b'.multiplexers = b.multiplexers.set mux .uninstalled)
      (nextAddress : b'.nextAddress = b.nextAddress) : Moved b b'

theorem step_install_moved (b : Bench ρ σ) (mux compiler : Nat) (registry : Registry)
    (sink : Option Sink) : b.Moved (b.step (.install mux compiler registry sink)).2 := by
  simp only [step]
  rcases b.withBoth_cases mux compiler _ with ⟨m, c, hm, hc, h⟩ | h
  · rw [h]
    cases m with
    | installed handle saved active => exact .kept rfl rfl rfl
    | uninstalled => exact .installed hm hc rfl rfl rfl
  · rw [h]
    exact .kept rfl rfl rfl

theorem step_uninstall_moved (b : Bench ρ σ) (mux compiler : Nat) :
    b.Moved (b.step (.uninstall mux compiler)).2 := by
  simp only [step]
  rcases b.withBoth_cases mux compiler _ with ⟨m, c, hm, hc, h⟩ | h
  · rw [h]
    split
    · exact .kept rfl rfl rfl
    · rename_i saved m' c' hu
      obtain ⟨⟨registry, rfl⟩, rfl, rfl⟩ := Multiplexer.uninstall_eq_ok_iff.mp hu
      exact .restored hm hc rfl rfl rfl
  · rw [h]
    exact .kept rfl rfl rfl

theorem step_moved (b : Bench ρ σ) {s : Step ρ σ} (hs : s.Regular) : b.Moved (b.step s).2 := by
  cases s with
  | install mux compiler registry sink => exact b.step_install_moved mux compiler registry sink
  | uninstall mux compiler => exact b.step_uninstall_moved mux compiler
  | finish mux compiler => exact b.step_finish mux compiler ▸ b.step_uninstall_moved mux compiler
  | leave mux compiler =>
    rw [step_leave]
    exact b.step_uninstall_moved mux compiler
  | emit compiler host call =>
    simp only [step, withCompiler]
    split <;> exact .kept rfl rfl rfl
  | emitProgram compiler host custom sequence =>
    simp only [step, withCompiler]
    split
    · rename_i c hc
      refine .kept ?_ rfl rfl
      show b.compilers.set compiler (sequence c host custom b.world).2.1 = b.compilers
      rw [hs, set_of_getElem? hc]
    · exact .kept rfl rfl rfl
  | take sink => exact .kept rfl rfl rfl
  | wrap _ _ _ => exact absurd hs id
  | replace _ _ => exact absurd hs id
  | setHandle _ _ => exact absurd hs id

/-- An uninstallation that answers with an entry point has put it back. -/
theorem step_uninstall_entry {b : Bench ρ σ} {mux compiler : Nat} {e : EntryPoint ρ σ}
    (h : (b.step (.uninstall mux compiler)).1 = .entry e) :
    ∃ c registry, b.multiplexers[mux]? = some (.installed c.handle e registry) ∧
      b.compilers[compiler]? = some c ∧
      (b.step (.uninstall mux compiler)).2.compilers =
        b.compilers.set compiler { c with slot := e } := by
  simp only [step] at h ⊢
  rcases b.withBoth_cases mux compiler _ with ⟨m, c, hm, hc, hb⟩ | hb
  · rw [hb] at h ⊢
    split at h
    · cases h
    · rename_i saved m' c' hu
      cases h
      obtain ⟨⟨registry, rfl⟩, rfl, rfl⟩ := Multiplexer.uninstall_eq_ok_iff.mp hu
      exact ⟨c, registry, hm, hc, rfl⟩
  · rw [hb] at h
    cases h

/-! ## Histories -/

/-- What every regular step preserves holds after every history of such steps. -/
theorem run_induction {P : Bench ρ σ → Prop}
    (hstep : ∀ {b b' : Bench ρ σ}, b.Moved b' → P b → P b') {b : Bench ρ σ}
    {steps : List (Step ρ σ)} (hs : ∀ s ∈ steps, s.Regular) (hb : P b) : P (b.run steps).2 := by
  induction steps generalizing b with
  | nil => exact hb
  | cons s rest ih =>
    have hmoved := b.step_moved (hs s List.mem_cons_self)
    exact ih (fun t ht => hs t (List.mem_cons_of_mem _ ht)) (hstep hmoved hb)

end Bench

end Fanout
