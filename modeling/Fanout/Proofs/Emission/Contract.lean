import Fanout.Emission.Sequence
import Fanout.Proofs.Emission.Invocation
import Mathlib.Data.List.Basic

/-!
# The contract of a compiler

`ByContract` lists the calls that a compiler owes for some units: one for each unit in order, with
default flags, then one for the incremental state alone where the host's options keep it, all
through the host that it was given.  The first error ends the sequence, so one that goes well has
had no call go wrong.  `KeepsContract` says so of an emit sequence, for every run of it that goes
well and every entry point in the slot.  What the compiler passes as resolver and pipeline, how it
adds up the results, and what it does to itself in between are its own business.  `AddsUp` asks for
more: the result is to be the total of what the calls gave.

`unitByUnit_addsUp` shows that the sequence `unitByUnit` is of that kind.
-/

set_option autoImplicit false

namespace Fanout

variable {ρ σ : Type}

/-- The calls that a compiler owes: those for the units, and those for the incremental state. -/
structure ByContract (units : List Path) (host : Host σ) (perUnit info : List (Invocation ρ σ)) :
    Prop where
  requests : perUnit.map (fun i => (i.call.target, i.call.flags)) =
    units.map fun unit => (some unit, {})
  info_length : info.length = if host.options.incremental then 1 else 0
  info_flags : ∀ i ∈ info, i.call.flags.buildInfoOnly = true
  host_eq : ∀ i ∈ perUnit ++ info, i.host = host
  well : ∀ i ∈ perUnit ++ info, ∃ r, i.result = .ok r

/-- The calls for units are for source units. -/
theorem ByContract.isPassThrough_eq_false {units : List Path} {host : Host σ}
    {perUnit info : List (Invocation ρ σ)} (h : ByContract units host perUnit info) :
    ∀ i ∈ perUnit, i.call.flags.isPassThrough = false := by
  intro i hi
  have hmem : (i.call.target, i.call.flags) ∈ units.map fun unit => (some unit, ({} : EmitFlags)) :=
    h.requests ▸ List.mem_map.mpr ⟨i, hi, rfl⟩
  obtain ⟨unit, -, heq⟩ := List.mem_map.mp hmem
  rw [← (Prod.mk.inj heq).2]
  rfl

/-- Whenever the sequence goes well, it has made the calls that it owes, through the entry point in
the slot, with its own moves in between. -/
def KeepsContract (moves : World σ → World σ → Prop) (units : List Path)
    (sequence : EmitSequence ρ σ) : Prop :=
  ∀ c host custom w result c' w', sequence c host custom w = (.ok result, c', w') →
    ∃ perUnit info, c.slot.Runs moves w (perUnit ++ info) w' ∧
      ByContract units host perUnit info

/-! ## Totals -/

namespace EmitResult

/-- The results of several calls, absorbed into one. -/
def total (results : List EmitResult) : EmitResult := results.foldl absorb {}

theorem foldl_absorb (results : List EmitResult) (start : EmitResult) :
    results.foldl absorb start = start.absorb (total results) := by
  induction results generalizing start with
  | nil => simp [total]
  | cons r rest ih =>
    rw [total, List.foldl_cons, List.foldl_cons, ih, ih, empty_absorb, absorb_assoc]

theorem total_cons (r : EmitResult) (rest : List EmitResult) :
    total (r :: rest) = r.absorb (total rest) := by
  rw [total, List.foldl_cons, foldl_absorb, empty_absorb]

theorem total_append (results more : List EmitResult) :
    total (results ++ more) = (total results).absorb (total more) := by
  rw [total, List.foldl_append, foldl_absorb]
  rfl

@[simp] theorem diagnostics_total (results : List EmitResult) :
    (total results).diagnostics = results.flatMap (·.diagnostics) := by
  induction results with
  | nil => rfl
  | cons r rest ih => rw [total_cons, List.flatMap_cons, ← ih, absorb]

@[simp] theorem emittedFiles_total (results : List EmitResult) :
    (total results).emittedFiles = results.flatMap (·.emittedFiles) := by
  induction results with
  | nil => rfl
  | cons r rest ih => rw [total_cons, List.flatMap_cons, ← ih, absorb]

@[simp] theorem emitSkipped_total (results : List EmitResult) :
    (total results).emitSkipped = results.any (·.emitSkipped) := by
  induction results with
  | nil => rfl
  | cons r rest ih => rw [total_cons, List.any_cons, ← ih, absorb]

end EmitResult

/-- Whenever the sequence goes well, it has kept its contract, and its result is the total of what
its calls gave. -/
def AddsUp (moves : World σ → World σ → Prop) (units : List Path) (sequence : EmitSequence ρ σ) :
    Prop :=
  ∀ c host custom w result c' w', sequence c host custom w = (.ok result, c', w') →
    ∃ perUnit info results, c.slot.Runs moves w (perUnit ++ info) w' ∧
      ByContract units host perUnit info ∧
      (perUnit ++ info).map Invocation.result = results.map .ok ∧ result = .total results

theorem AddsUp.keepsContract {moves : World σ → World σ → Prop} {units : List Path}
    {sequence : EmitSequence ρ σ} (h : AddsUp moves units sequence) :
    KeepsContract moves units sequence := by
  intro c host custom w result c' w' hok
  obtain ⟨perUnit, info, results, hruns, hby, -, -⟩ := h _ _ _ _ _ _ _ hok
  exact ⟨perUnit, info, hruns, hby⟩

theorem mem_results_iff {calls : List (Invocation ρ σ)} {results : List EmitResult}
    (h : calls.map Invocation.result = results.map .ok) {r : EmitResult} :
    r ∈ results ↔ ∃ i ∈ calls, i.result = .ok r := by
  have hinj : Function.Injective (Except.ok : EmitResult → Except BuildError EmitResult) :=
    fun _ _ => Except.ok.inj
  rw [← List.mem_map_of_injective hinj, ← h, List.mem_map]

/-! ## Unit by unit -/

namespace Compiler

variable {c : Compiler ρ σ} {resolver : ρ} {host : Host σ} {custom : Option CustomPasses}

theorem emitUnits_ok {units : List Path} {total result : EmitResult} {w w' : World σ}
    (h : c.emitUnits resolver host custom units total w = (.ok result, w')) :
    ∃ calls results, c.slot.Runs Never w calls w' ∧
      calls.map (fun i => (i.call.target, i.call.flags)) =
        units.map (fun unit => (some unit, ({} : EmitFlags))) ∧
      (∀ i ∈ calls, i.host = host) ∧ calls.map Invocation.result = results.map .ok ∧
      result = total.absorb (.total results) := by
  induction units generalizing total w with
  | nil =>
    cases h
    exact ⟨[], [], .done _, rfl, List.forall_mem_nil _, rfl, (EmitResult.absorb_empty _).symm⟩
  | cons unit rest ih =>
    simp only [emitUnits] at h
    split at h
    · cases h
    rename_i r u hemit
    obtain ⟨calls, results, hruns, hreq, hhost, hres, rfl⟩ := ih h
    refine ⟨⟨_, host, w, .ok r, u⟩ :: calls, r :: results, .cons_emit hemit hruns, ?_, ?_, ?_, ?_⟩
    · rw [List.map_cons, List.map_cons, hreq]
    · exact List.forall_mem_cons.mpr ⟨rfl, hhost⟩
    · rw [List.map_cons, List.map_cons, hres]
    · rw [EmitResult.total_cons, EmitResult.absorb_assoc]

theorem emitBuildInfo_ok {total result : EmitResult} {w w' : World σ}
    (h : c.emitBuildInfo resolver host custom total w = (.ok result, w')) :
    ∃ calls results, c.slot.Runs Never w calls w' ∧
      calls.length = (if host.options.incremental then 1 else 0) ∧
      (∀ i ∈ calls, i.call.flags.buildInfoOnly = true) ∧ (∀ i ∈ calls, i.host = host) ∧
      calls.map Invocation.result = results.map .ok ∧ result = total.absorb (.total results) := by
  simp only [emitBuildInfo] at h
  split at h
  · rename_i hinc
    split at h
    · cases h
    rename_i r u hemit
    cases h
    refine ⟨[⟨_, host, w, .ok r, w'⟩], [r], .of_emit hemit, ?_, ?_, ?_, rfl, ?_⟩
    · rw [if_pos hinc, List.length_singleton]
    · exact List.forall_mem_singleton.mpr rfl
    · exact List.forall_mem_singleton.mpr rfl
    · rw [EmitResult.total_cons, EmitResult.total, List.foldl_nil, EmitResult.absorb_empty]
  · rename_i hinc
    cases h
    exact ⟨[], [], .done _, by rw [if_neg hinc, List.length_nil], List.forall_mem_nil _,
      List.forall_mem_nil _, rfl, (EmitResult.absorb_empty _).symm⟩

end Compiler

theorem unitByUnit_addsUp (resolver : ρ) (units : List Path) :
    AddsUp Never units (unitByUnit (σ := σ) resolver units) := by
  intro c host custom w result c' w' h
  simp only [unitByUnit, Compiler.emitProgram] at h
  split at h
  · cases h
  rename_i total u hunits
  obtain ⟨perUnit, results, hruns, hreq, hhost, hres, rfl⟩ := Compiler.emitUnits_ok hunits
  have hinfo : c.emitBuildInfo resolver host custom (EmitResult.absorb {} (.total results)) u =
      (.ok result, w') := by
    cases hb : c.emitBuildInfo resolver host custom (EmitResult.absorb {} (.total results)) u
    rw [hb] at h
    cases h
    rfl
  obtain ⟨info, infoResults, hruns', hlen, hflags, hhost', hres', rfl⟩ :=
    Compiler.emitBuildInfo_ok hinfo
  have hall : (perUnit ++ info).map Invocation.result = (results ++ infoResults).map .ok := by
    rw [List.map_append, List.map_append, hres, hres']
  refine ⟨perUnit, info, results ++ infoResults, hruns.append hruns', ?_, hall, ?_⟩
  · exact ⟨hreq, hlen, hflags, List.forall_mem_append.mpr ⟨hhost, hhost'⟩, well_of_results hall⟩
  · rw [EmitResult.empty_absorb, EmitResult.total_append]

theorem unitByUnit_keepsContract (resolver : ρ) (units : List Path) :
    KeepsContract Never units (unitByUnit (σ := σ) resolver units) :=
  (unitByUnit_addsUp resolver units).keepsContract

end Fanout
