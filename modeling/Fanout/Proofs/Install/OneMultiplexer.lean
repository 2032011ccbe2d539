import Fanout.Proofs.Install.Transitions
import Fanout.Proofs.Variant.Resolution

/-!
# One multiplexer and many compilers

`Bench.Restorable` relates the compilers of a bench with a single multiplexer to those that it
started with: either the multiplexer is free and every slot holds what it held at the start, or it
is installed on one of them, has saved the entry point of that one, and all other slots hold what
they held.  A regular step keeps this (`Restorable.moved`), since the handles tell the compilers
apart; so does a whole history, which is what `run_keeps_entry_points` spells out.
-/

set_option autoImplicit false

namespace Fanout

variable {ρ σ : Type}

namespace Bench

/-- A bench with one multiplexer, seen against its start. -/
inductive Restorable (start b : Bench ρ σ) : Prop
  | free (multiplexers : b.multiplexers = [.uninstalled])
      (compilers : b.compilers = start.compilers) (next : start.nextAddress ≤ b.nextAddress)
  | active {place address : Nat} {c : Compiler ρ σ} {registry : Registry} {sink : Option Sink}
      (found : start.compilers[place]? = some c)
      (multiplexers : b.multiplexers = [.installed c.handle c.slot registry])
      (compilers : b.compilers =
        start.compilers.set place { c with slot := .fanOut address c.slot registry sink })
      (fresh : start.nextAddress ≤ address) (next : start.nextAddress ≤ b.nextAddress)

/-- The handle of a compiler, wherever its entry point has been exchanged. -/
theorem handle_of_set {compilers : List (Compiler ρ σ)} {i j : Nat} {c d : Compiler ρ σ}
    {e : EntryPoint ρ σ} (hi : compilers[i]? = some c)
    (hj : (compilers.set i { c with slot := e })[j]? = some d) :
    ∃ d', compilers[j]? = some d' ∧ d'.handle = d.handle := by
  rw [List.getElem?_set] at hj
  split at hj
  · rename_i hij
    subst hij
    split at hj
    · cases hj
      exact ⟨c, hi, rfl⟩
    · cases hj
  · exact ⟨d, hj, rfl⟩

theorem eq_of_getElem?_singleton {m m' : Multiplexer ρ σ} {i : Nat}
    (h : [m][i]? = some m') : i = 0 ∧ m' = m := by
  cases i with
  | zero => exact ⟨rfl, (Option.some.inj h).symm⟩
  | succ i => cases h

/-- An installed multiplexer that meets the compiler with its handle has saved what that compiler
started with, and putting it back leaves every compiler as it started. -/
theorem Restorable.restore {start b : Bench ρ σ} (hd : (start.compilers.map (·.handle)).Nodup)
    (h : Restorable start b) {mux compiler : Nat} {c : Compiler ρ σ} {saved : EntryPoint ρ σ}
    {registry : Registry}
    (active : b.multiplexers[mux]? = some (.installed c.handle saved registry))
    (found : b.compilers[compiler]? = some c) :
    (∃ d, start.compilers[compiler]? = some d ∧ saved = d.slot) ∧
      b.compilers.set compiler { c with slot := saved } = start.compilers ∧
      b.multiplexers.set mux .uninstalled = [.uninstalled] := by
  cases h with
  | free ms cs next =>
    rw [ms] at active
    cases (eq_of_getElem?_singleton active).2
  | @active place address c₀ _ sink found₀ ms cs fresh next =>
    rw [ms] at active ⊢
    obtain ⟨rfl, hm⟩ := eq_of_getElem?_singleton active
    obtain ⟨hh, rfl, rfl⟩ := Multiplexer.installed.inj hm
    -- the compiler with the saved handle is the one that the fan-out sits in
    rw [cs] at found ⊢
    obtain ⟨d, hfound, hdh⟩ := handle_of_set found₀ found
    obtain rfl := place_eq_of_handle hd hfound found₀ (hdh.trans hh)
    have hself : c = { c₀ with slot := .fanOut address c₀.slot registry sink } := by
      rw [List.getElem?_set_self (List.getElem?_eq_some_iff.mp found₀).1] at found
      exact (Option.some.inj found).symm
    refine ⟨⟨c₀, found₀, rfl⟩, ?_, rfl⟩
    rw [List.set_set, hself]
    exact set_of_getElem? found₀

/-- **What one step does keeps every entry point restorable.** -/
theorem Restorable.moved {start b b' : Bench ρ σ}
    (hd : (start.compilers.map (·.handle)).Nodup) (hm : b.Moved b')
    (h : Restorable start b) : Restorable start b' := by
  have hnext : start.nextAddress ≤ b.nextAddress := by
    cases h <;> assumption
  cases hm with
  | kept hcs hms hn =>
    cases h with
    | free ms cs next => exact .free (hms.trans ms) (hcs.trans cs) (by omega)
    | active found ms cs fresh next =>
      exact .active found (hms.trans ms) (hcs.trans cs) fresh (by omega)
  | installed free found hcs hms hn =>
    cases h with
    | free ms cs next =>
      rw [ms] at free hms
      rw [cs] at found hcs
      obtain ⟨rfl, -⟩ := eq_of_getElem?_singleton free
      exact .active found hms hcs next (by omega)
    | active found₀ ms cs fresh next =>
      -- the multiplexer is not free
      rw [ms] at free
      cases (eq_of_getElem?_singleton free).2
  | restored active found hcs hms hn =>
    obtain ⟨-, hback, hfree⟩ := h.restore hd active found
    exact .free (hms.trans hfree) (hcs.trans hback) (by omega)

theorem Restorable.uninstall_entry {start b : Bench ρ σ}
    (hd : (start.compilers.map (·.handle)).Nodup) (h : Restorable start b) {mux place : Nat}
    {e : EntryPoint ρ σ} (he : (b.step (.uninstall mux place)).1 = .entry e) :
    (∃ c, start.compilers[place]? = some c ∧ e = c.slot) ∧
      (b.step (.uninstall mux place)).2.compilers = start.compilers := by
  obtain ⟨c, registry, active, found, hcs⟩ := step_uninstall_entry he
  obtain ⟨hstart, hback, -⟩ := h.restore hd active found
  exact ⟨hstart, hcs.trans hback⟩

/-- **One multiplexer can always give back what it took.**  Whatever is installed, uninstalled,
finished, left and emitted, in any order: a free multiplexer leaves every compiler as it started;
an installed one sits on one compiler, whose slot holds a new fan-out around the entry point that
it started with, and has saved that entry point, and every other compiler is as it started.  An
uninstallation that succeeds gives that entry point back, and all compilers are as they started. -/
theorem run_keeps_entry_points {start : Bench ρ σ} {steps : List (Step ρ σ)}
    (hm : start.multiplexers = [.uninstalled])
    (hd : (start.compilers.map (·.handle)).Nodup) (hs : ∀ s ∈ steps, s.Regular) :
    ∃ m, (start.run steps).2.multiplexers = [m] ∧
      (m = .uninstalled → (start.run steps).2.compilers = start.compilers) ∧
      (∀ handle saved registry, m = .installed handle saved registry →
        ∃ place c address sink, start.compilers[place]? = some c ∧ c.handle = handle ∧
          saved = c.slot ∧ start.nextAddress ≤ address ∧
          (start.run steps).2.compilers =
            start.compilers.set place { c with slot := .fanOut address c.slot registry sink }) ∧
      ∀ mux place e s, s = .uninstall mux place ∨ s = .finish mux place →
        ((start.run steps).2.step s).1 = .entry e →
          (∃ c, start.compilers[place]? = some c ∧ e = c.slot) ∧
            ((start.run steps).2.step s).2.compilers = start.compilers := by
  have hfinal : Restorable start (start.run steps).2 :=
    run_induction (fun hmoved h => h.moved hd hmoved) hs (.free hm rfl (Nat.le_refl _))
  have hentry : ∀ mux place e s, s = .uninstall mux place ∨ s = .finish mux place →
      ((start.run steps).2.step s).1 = .entry e →
        (∃ c, start.compilers[place]? = some c ∧ e = c.slot) ∧
          ((start.run steps).2.step s).2.compilers = start.compilers := by
    rintro mux place e s (rfl | rfl) he
    · exact hfinal.uninstall_entry hd he
    · rw [step_finish] at he ⊢
      exact hfinal.uninstall_entry hd he
  cases hfinal with
  | free ms cs next =>
    refine ⟨_, ms, fun _ => cs, ?_, hentry⟩
    intro handle saved registry h
    cases h
  | @active place address c registry sink found ms cs fresh next =>
    refine ⟨_, ms, nofun, ?_, hentry⟩
    intro handle saved registry h
    obtain ⟨rfl, rfl, rfl⟩ := Multiplexer.installed.inj h
    exact ⟨place, c, address, sink, found, rfl, rfl, fresh, cs⟩

/-- Two compilers with entry points that do nothing, and one multiplexer. -/
def twoCompilers : Bench Unit Unit where
  compilers :=
    [⟨⟨1⟩, .emitter 0 fun _ _ s => (.ok {}, s)⟩, ⟨⟨2⟩, .emitter 1 fun _ _ s => (.ok {}, s)⟩]
  multiplexers := [.uninstalled]
  world := ⟨{}, ()⟩
  nextAddress := 2

/-- An installation on the first compiler, a refused one on the second, an uninstallation that the
second is refused, a call, and the end of the installation, twice. -/
def installAndFinish : List (Step Unit Unit) :=
  [.install 0 0 .pair none, .install 0 1 .pair none, .uninstall 0 1,
    .emit 0 ⟨{}, fun _ _ s => (.ok (), s)⟩ ⟨(), none, .derive {} none false, {}⟩,
    .finish 0 0, .leave 0 0]

/-- The two compilers are as they were. -/
theorem run_installAndFinish :
    twoCompilers.multiplexers = [.uninstalled] ∧
      (twoCompilers.compilers.map (·.handle)).Nodup ∧ (∀ s ∈ installAndFinish, s.Regular) ∧
      (twoCompilers.run installAndFinish).2.compilers = twoCompilers.compilers := by
  have hm : twoCompilers.multiplexers = [.uninstalled] := rfl
  have hd : (twoCompilers.compilers.map (·.handle)).Nodup := by decide
  have hs : ∀ s ∈ installAndFinish, s.Regular := by simp [installAndFinish, Step.Regular]
  obtain ⟨m, hms, hfree, -⟩ := run_keeps_entry_points hm hd hs
  have hlast : (twoCompilers.run installAndFinish).2.multiplexers = [.uninstalled] := rfl
  rw [hlast] at hms
  exact ⟨hm, hd, hs, hfree (List.singleton_inj.mp hms).symm⟩

end Bench

end Fanout
