import Fanout.Install.Multiplexer
import Mathlib.Logic.Function.Basic

/-!
# Multiplexers that come to a compiler and leave it

Several multiplexers may be installed on one compiler.  Each that comes saves what the slot holds
and puts a fan-out around it; each that leaves puts back what it saved, whatever the slot holds by
then.  `Visited` is this seen from the compiler: after a list of visits, what the slot holds and
what every multiplexer has saved.

* `Visited.around`: the slot always holds the entry point that the compiler started with, inside no,
  one or more fan-outs.
* `Visited.saved_spec`: what a multiplexer has saved is what the slot held when it came.
* `Visited.eq_iff_balanced`: the slot holds that first entry point exactly if the visits are
  `Balanced`, a sequence of stretches, each from the coming of a multiplexer to its next leaving.
-/

set_option autoImplicit false

namespace Fanout

/-- A multiplexer, by its place, comes to a compiler or leaves it. -/
inductive Visit where
  | came (mux : Nat)
  | left (mux : Nat)
  deriving DecidableEq, Repr

def Visit.mux : Visit → Nat
  | came mux => mux
  | left mux => mux

/-- Visits that fall into stretches: one multiplexer is the first to come and the last to leave, and
in between the others do as they like. -/
inductive Balanced : List Visit → Prop
  | nil : Balanced []
  | stretch {before between : List Visit} {mux : Nat} (settled : Balanced before)
      (away : ∀ v ∈ between, v.mux ≠ mux) :
      Balanced (before ++ .came mux :: between ++ [.left mux])

/-- Balanced visits end with a leaving, by the multiplexer that the last stretch began with. -/
theorem Balanced.of_concat {vs : List Visit} {v : Visit} (h : Balanced (vs ++ [v])) :
    ∃ before between mux, Balanced before ∧ (∀ w ∈ between, w.mux ≠ mux) ∧
      vs = before ++ .came mux :: between ∧ v = .left mux := by
  generalize hall : vs ++ [v] = all at h
  cases h with
  | nil => simp at hall
  | @stretch before between mux settled away =>
    obtain ⟨hvs, hv⟩ := List.append_inj' hall rfl
    exact ⟨before, between, mux, settled, away, hvs, List.singleton_inj.mp hv⟩

variable {ρ σ : Type}

/-- An entry point inside no, one or more fan-outs. -/
inductive EntryPoint.Around (e₀ : EntryPoint ρ σ) : EntryPoint ρ σ → Prop
  | itself : Around e₀ e₀
  | fanOut {e : EntryPoint ρ σ} (address : Nat) (registry : Registry) (sink : Option Sink)
      (inner : Around e₀ e) : Around e₀ (.fanOut address e registry sink)

theorem EntryPoint.Around.sizeOf_le {e₀ e : EntryPoint ρ σ} (h : e₀.Around e) :
    sizeOf e₀ ≤ sizeOf e := by
  induction h with
  | itself => exact Nat.le_refl _
  | fanOut address registry sink inner ih =>
    rw [EntryPoint.fanOut.sizeOf_spec]
    omega

/-- A fan-out around an entry point is another object. -/
theorem EntryPoint.Around.fanOut_ne {e₀ e : EntryPoint ρ σ} (h : e₀.Around e) (address : Nat)
    (registry : Registry) (sink : Option Sink) : .fanOut address e registry sink ≠ e₀ := by
  intro heq
  have hle := h.sizeOf_le
  rw [← heq, EntryPoint.fanOut.sizeOf_spec] at hle
  omega

/-- What a slot holds, and what every multiplexer has saved of it, after visits. -/
inductive Visited (e₀ : EntryPoint ρ σ) :
    List Visit → EntryPoint ρ σ → (Nat → Option (EntryPoint ρ σ)) → Prop
  | start : Visited e₀ [] e₀ fun _ => none
  | came {vs : List Visit} {e : EntryPoint ρ σ} {saved : Nat → Option (EntryPoint ρ σ)} {mux : Nat}
      (earlier : Visited e₀ vs e saved) (free : saved mux = none) (address : Nat)
      (registry : Registry) (sink : Option Sink) :
      Visited e₀ (vs ++ [.came mux]) (.fanOut address e registry sink)
        (Function.update saved mux (some e))
  | left {vs : List Visit} {e kept : EntryPoint ρ σ} {saved : Nat → Option (EntryPoint ρ σ)}
      {mux : Nat} (earlier : Visited e₀ vs e saved) (holds : saved mux = some kept) :
      Visited e₀ (vs ++ [.left mux]) kept (Function.update saved mux none)

namespace Visited

variable {e₀ e : EntryPoint ρ σ} {vs : List Visit} {saved : Nat → Option (EntryPoint ρ σ)}

/-- What a multiplexer has saved is what the slot held when it came; it has not moved since. -/
theorem saved_spec (h : Visited e₀ vs e saved) {mux : Nat} {kept : EntryPoint ρ σ}
    (hk : saved mux = some kept) :
    ∃ before between saved', vs = before ++ .came mux :: between ∧
      (∀ v ∈ between, v.mux ≠ mux) ∧ Visited e₀ before kept saved' := by
  induction h with
  | start => cases hk
  | @came vs e saved other earlier free address registry sink ih =>
    by_cases ho : mux = other
    · subst ho
      obtain rfl : e = kept := by simpa using hk
      exact ⟨vs, [], saved, rfl, by simp, earlier⟩
    · rw [Function.update_of_ne ho] at hk
      obtain ⟨before, between, saved', rfl, away, hbefore⟩ := ih hk
      refine ⟨before, between ++ [.came other], saved', by simp, ?_, hbefore⟩
      simpa [or_imp, forall_and] using ⟨away, Ne.symm ho⟩
  | @left vs e restored saved other earlier holds ih =>
    by_cases ho : mux = other
    · subst ho
      simp at hk
    · rw [Function.update_of_ne ho] at hk
      obtain ⟨before, between, saved', rfl, away, hbefore⟩ := ih hk
      refine ⟨before, between ++ [.left other], saved', by simp, ?_, hbefore⟩
      simpa [or_imp, forall_and] using ⟨away, Ne.symm ho⟩

theorem around_saved (h : Visited e₀ vs e saved) :
    e₀.Around e ∧ ∀ mux kept, saved mux = some kept → e₀.Around kept := by
  induction h with
  | start => exact ⟨.itself, fun _ _ h => nomatch h⟩
  | @came vs e saved other earlier free address registry sink ih =>
    refine ⟨.fanOut address registry sink ih.1, fun mux kept hk => ?_⟩
    by_cases ho : mux = other
    · subst ho
      obtain rfl : e = kept := by simpa using hk
      exact ih.1
    · rw [Function.update_of_ne ho] at hk
      exact ih.2 mux kept hk
  | @left vs e restored saved other earlier holds ih =>
    refine ⟨ih.2 other restored holds, fun mux kept hk => ?_⟩
    by_cases ho : mux = other
    · subst ho
      simp at hk
    · rw [Function.update_of_ne ho] at hk
      exact ih.2 mux kept hk

/-- The entry point at the start is never lost. -/
theorem around (h : Visited e₀ vs e saved) : e₀.Around e := h.around_saved.1

/-- A multiplexer that leaves ends the stretch that its coming began. -/
theorem stretch_unique {before before' between between' : List Visit} {mux : Nat}
    (away : ∀ v ∈ between, v.mux ≠ mux) (away' : ∀ v ∈ between', v.mux ≠ mux)
    (h : before ++ .came mux :: between = before' ++ .came mux :: between') : before = before' := by
  have hnot : ∀ {vs : List Visit}, (∀ v ∈ vs, v.mux ≠ mux) → .came mux ∉ vs :=
    fun hvs hmem => hvs _ hmem rfl
  rcases List.append_eq_append_iff.mp h with ⟨rest, hb, hr⟩ | ⟨rest, hb, hr⟩
  · cases rest with
    | nil => simpa using hb.symm
    | cons v rest =>
      rw [List.cons_append, List.cons.injEq] at hr
      exact absurd (hr.2 ▸ by simp) (hnot away)
  · cases rest with
    | nil => simpa using hb
    | cons v rest =>
      rw [List.cons_append, List.cons.injEq] at hr
      exact absurd (hr.2 ▸ by simp) (hnot away')

/-- **The slot holds its first entry point exactly after balanced visits.** -/
theorem eq_iff_balanced (h : Visited e₀ vs e saved) : e = e₀ ↔ Balanced vs := by
  induction hn : vs.length using Nat.strongRecOn generalizing vs e saved with
  | _ n ih =>
    cases h with
    | start => exact ⟨fun _ => .nil, fun _ => rfl⟩
    | came earlier free address registry sink =>
      refine ⟨fun heq => absurd heq (earlier.around.fanOut_ne address registry sink), fun hb => ?_⟩
      obtain ⟨_, _, _, -, -, -, hlast⟩ := hb.of_concat
      cases hlast
    | @left vs e _ saved mux earlier holds =>
      -- what is put back is what the slot held before the stretch
      obtain ⟨before, between, saved', rfl, away, hbefore⟩ := earlier.saved_spec holds
      have hlt : before.length < n := by
        rw [← hn]
        simp only [List.length_append, List.length_cons]
        omega
      rw [ih before.length hlt hbefore rfl]
      constructor
      · exact fun hb => .stretch hb away
      · intro hb
        obtain ⟨before', between', mux', settled, away', hvs, hlast⟩ := hb.of_concat
        obtain rfl : mux = mux' := Visit.left.inj hlast
        rw [stretch_unique away away' hvs]
        exact settled

end Visited

end Fanout
