import Fanout.Proofs.Emission.Invocation
import Fanout.Proofs.Variant.Resolution
import Mathlib.Data.List.Forall2

/-!
# What a fan-out does with a source call

`Registry.Prescribes` states what becomes of a call that is not passed through: which calls the
wrapped entry point gets, with which hosts, and the outcome that follows from theirs.  The main
result is `emit_fanOut_prescribed`: with a resolved registry a fan-out records the target and then
makes exactly these calls, one after the other.

* `emitEach_ok` and `emitEach_error` read the calls off the loop over the variants.
* `mergeResults_eq` gives the result of the primary; that a registry has no primary among its
  variants never happens to a resolved one.
* `Prescribes.requests_eq`: how a fan-out ends tells which calls it made.
* `Resolved.runs_unfold` turns a whole run of a fan-out into one of the entry point that it wraps;
  `Resolved.runs_unfold_append` keeps two parts of it apart.
-/

set_option autoImplicit false

namespace Fanout

variable {ρ σ : Type}

/-- The request that the wrapped entry point gets for a variant: the call with the pipeline of the
variant's options, and the host under these options. -/
def requestFor (call : EmitCall ρ) (host : Host σ) (v : ResolvedVariant) : EmitCall ρ × Host σ :=
  ({ resolver := call.resolver
     target := call.target
     pipeline := .derive v.options call.pipeline.custom false
     flags := call.flags },
    { options := v.options, write := host.write })

/-- What a fan-out has to do with a call: the calls that it makes in turn, and its outcome. -/
inductive Registry.Prescribes (r : Registry) (call : EmitCall ρ) (host : Host σ) :
    List (Invocation ρ σ) → Except BuildError EmitResult → Prop
  /-- Every variant had its call, and all went well: the result is the primary's, and some output
  was skipped if it was for any variant. -/
  | completed {calls : List (Invocation ρ σ)} {results : List EmitResult} {place : Nat}
      {v : ResolvedVariant} {result : EmitResult}
      (requests : calls.map Invocation.request = r.variants.map (requestFor call host))
      (outcomes : calls.map Invocation.result = results.map .ok)
      (variant : r.variants[place]? = some v) (primary : v.isPrimary = true)
      (own : results[place]? = some result) :
      Prescribes r call host calls
        (.ok { result with emitSkipped := results.any (·.emitSkipped) })
  /-- The first call that failed was the last one; the error names its variant. -/
  | failed {before after : List ResolvedVariant} {v : ResolvedVariant}
      {calls : List (Invocation ρ σ)} {last : Invocation ρ σ} {results : List EmitResult}
      {cause : BuildError}
      (variants : r.variants = before ++ v :: after)
      (requests : (calls ++ [last]).map Invocation.request =
        (before ++ [v]).map (requestFor call host))
      (outcomes : calls.map Invocation.result = results.map .ok)
      (fault : last.result = .error cause) :
      Prescribes r call host (calls ++ [last]) (.error (.inVariant v.kind cause))

/-! ## The loop over the variants -/

/-- The loop makes the prescribed request for a call that is not for declarations alone. -/
theorem requestFor_eq {call : EmitCall ρ} (hd : call.flags.declarationsOnly = false)
    (host : Host σ) (v : ResolvedVariant) :
    requestFor call host v = (call.forVariant v, host.withOptions v.options) := by
  simp [requestFor, EmitCall.forVariant, Host.withOptions, hd]

section Loop

variable {e : EntryPoint ρ σ} {call : EmitCall ρ} {host : Host σ}

theorem emitEach_ok (hd : call.flags.declarationsOnly = false) {vs : List ResolvedVariant}
    {w w' : World σ} {results : List EmitResult}
    (h : emitEach e.emit call host vs w = (.ok results, w')) :
    ∃ calls, e.Runs Never w calls w' ∧
      calls.map Invocation.request = vs.map (requestFor call host) ∧
      calls.map Invocation.result = results.map .ok := by
  induction vs generalizing w results with
  | nil =>
    cases h
    exact ⟨[], .done _, rfl, rfl⟩
  | cons v rest ih =>
    unfold emitEach at h
    split at h
    · cases h
    rename_i r u hv
    split at h
    · cases h
    rename_i rs u' hrest
    cases h
    obtain ⟨calls, hruns, hreq, hres⟩ := ih hrest
    refine ⟨⟨_, _, w, .ok r, u⟩ :: calls, .cons_emit hv hruns, ?_, ?_⟩
    · rw [List.map_cons, List.map_cons, hreq, requestFor_eq hd]
      rfl
    · rw [List.map_cons, List.map_cons, hres]

theorem emitEach_error (hd : call.flags.declarationsOnly = false) {vs : List ResolvedVariant}
    {w w' : World σ} {fault : BuildError}
    (h : emitEach e.emit call host vs w = (.error fault, w')) :
    ∃ before v after calls last results cause, vs = before ++ v :: after ∧
      e.Runs Never w (calls ++ [last]) w' ∧
      (calls ++ [last]).map Invocation.request = (before ++ [v]).map (requestFor call host) ∧
      calls.map Invocation.result = List.map .ok results ∧ last.result = .error cause ∧
      fault = .inVariant v.kind cause := by
  induction vs generalizing w with
  | nil => cases h
  | cons v rest ih =>
    unfold emitEach at h
    split at h
    · rename_i cause u hv
      cases h
      refine ⟨[], v, rest, [], ⟨_, _, w, .error cause, w'⟩, [], cause, rfl, .of_emit hv, ?_, rfl,
        rfl, rfl⟩
      rw [List.nil_append, List.nil_append, List.map_singleton, List.map_singleton,
        requestFor_eq hd]
      rfl
    rename_i r u hv
    split at h
    · rename_i e' u' hrest
      cases h
      obtain ⟨before, v', after, calls, last, results, cause, hvs, hruns, hreq, hres, hlast, hf⟩ :=
        ih hrest
      refine ⟨v :: before, v', after, ⟨_, _, w, .ok r, u⟩ :: calls, last, r :: results, cause,
        by rw [hvs]; rfl, .cons_emit hv hruns, ?_, ?_, hlast, hf⟩
      · rw [List.cons_append, List.cons_append, List.map_cons, List.map_cons, hreq,
          requestFor_eq hd]
        rfl
      · rw [List.map_cons, List.map_cons, hres]
    · cases h

end Loop

/-! ## The result of the primary -/

/-- Of the results that run along with variants of different kinds, a kind picks one. -/
theorem filter_zip_kind {vs : List ResolvedVariant} {rs : List EmitResult} {k : Nat}
    {v : ResolvedVariant} {r : EmitResult} (hd : (vs.map (·.kind)).Nodup)
    (hv : vs[k]? = some v) (hr : rs[k]? = some r) :
    (vs.zip rs).filter (·.1.kind == v.kind) = [(v, r)] := by
  induction vs generalizing rs k with
  | nil => cases hv
  | cons u vs ih =>
    cases rs with
    | nil => cases hr
    | cons s rs =>
      rw [List.map_cons, List.nodup_cons] at hd
      rw [List.zip_cons_cons]
      cases k with
      | zero =>
        cases hv
        cases hr
        rw [List.filter_cons_of_pos (by simp), List.filter_eq_nil_iff.mpr]
        rintro ⟨w, t⟩ hw
        have hmem : w ∈ vs := (List.of_mem_zip hw).1
        simpa using fun hk : w.kind = v.kind => hd.1 (hk ▸ List.mem_map_of_mem hmem)
      | succ k =>
        have hmem : v ∈ vs := List.mem_of_getElem? hv
        have hne : ¬ u.kind = v.kind := fun hk => hd.1 (hk ▸ List.mem_map_of_mem hmem)
        rw [List.filter_cons_of_neg (by simpa using hne)]
        exact ih hd.2 hv hr

namespace Registry

variable {base : Options} {requested : List Variant} {mode : OutputMode} {r : Registry}

/-- Results of all variants merge into that of the primary. -/
theorem mergeResults_eq (hr : Resolved base requested mode r) {results : List EmitResult}
    (hlen : results.length = r.variants.length) :
    ∃ (place : Nat) (result : EmitResult), r.variants[place]? = some r.primary ∧
      results[place]? = some result ∧ r.mergeResults results =
        .ok { result with emitSkipped := results.any (·.emitSkipped) } := by
  obtain ⟨place, hplace⟩ := List.getElem?_of_mem hr.primary_mem
  have hlt : place < results.length := by
    rw [hlen]
    exact (List.getElem?_eq_some_iff.mp hplace).1
  refine ⟨place, results[place], hplace, List.getElem?_eq_getElem hlt, ?_⟩
  have hone : (r.variants.zip results).filter (·.1.kind == r.defaultKind) =
      [(r.primary, results[place])] :=
    filter_zip_kind hr.kinds_nodup hplace (List.getElem?_eq_getElem hlt)
  unfold mergeResults
  rw [hone]
  rfl

/-! ## The whole call -/

theorem emit_passThrough {call : EmitCall ρ} (hf : call.flags.isPassThrough = true)
    (address : Nat) (inner : EntryPoint ρ σ) (sink : Option Sink) (host : Host σ) (w : World σ) :
    (EntryPoint.fanOut address inner r sink).emit call host w = inner.emit call host w := by
  rw [EntryPoint.emit, if_pos hf]

/-- Any other call becomes the prescribed calls. -/
theorem Resolved.emit_fanOut (hr : Resolved base requested mode r) {call : EmitCall ρ}
    (hf : call.flags.isPassThrough = false) (address : Nat) (inner : EntryPoint ρ σ)
    (sink : Option Sink) (host : Host σ) (w : World σ) :
    ∃ calls outcome w',
      (EntryPoint.fanOut address inner r sink).emit call host w = (outcome, w') ∧
        inner.Runs Never (w.record sink call.target) calls w' ∧
        r.Prescribes call host calls outcome := by
  have hd : call.flags.declarationsOnly = false := (Bool.or_eq_false_iff.mp hf).1
  rw [EntryPoint.emit, if_neg (by simp [hf])]
  split
  · rename_i fault w' he
    obtain ⟨before, v, after, calls, last, results, cause, hvs, hruns, hreq, hres, hlast, rfl⟩ :=
      emitEach_error hd he
    exact ⟨calls ++ [last], _, w', rfl, hruns, .failed hvs hreq hres hlast⟩
  · rename_i results w' he
    obtain ⟨calls, hruns, hreq, hres⟩ := emitEach_ok hd he
    have hlen : results.length = r.variants.length := by
      have h₁ := congrArg List.length hreq
      have h₂ := congrArg List.length hres
      simp only [List.length_map] at h₁ h₂
      omega
    obtain ⟨place, result, hplace, hown, hmerge⟩ := mergeResults_eq hr hlen
    exact ⟨calls, _, w', rfl, hruns,
      hmerge ▸ .completed hreq hres hplace hr.primary_isPrimary hown⟩

/-- **A fan-out over a resolved registry makes the prescribed calls.**  It records the target first;
then the entry point that it wraps runs through these calls and nothing else happens, whatever that
entry point is and does.  One variant alone is primary, so one variant's result is handed on. -/
theorem emit_fanOut_prescribed (h : resolve base requested mode = .ok r) (address : Nat)
    (inner : EntryPoint ρ σ) (sink : Option Sink) (call : EmitCall ρ) (host : Host σ)
    (w : World σ) (hd : call.flags.declarationsOnly = false)
    (hb : call.flags.buildInfoOnly = false) :
    r.variants.map (·.variant) = requested ∧
      (∃! v, v ∈ r.variants ∧ v.isPrimary = true) ∧
      ∃ calls outcome w',
        (EntryPoint.fanOut address inner r sink).emit call host w = (outcome, w') ∧
          inner.Runs Never (w.record sink call.target) calls w' ∧
          r.Prescribes call host calls outcome := by
  have hr := resolve_resolved h
  have hf : call.flags.isPassThrough = false := by
    simp [EmitFlags.isPassThrough, hd, hb]
  refine ⟨hr.variant_eq, ⟨r.primary, ⟨hr.primary_mem, hr.primary_isPrimary⟩, ?_⟩,
    hr.emit_fanOut hf address inner sink host w⟩
  rintro v ⟨hv, hp⟩
  exact (hr.isPrimary_iff v hv).mp hp

/-- An emitter that counts its calls and cannot write ECMAScript modules. -/
def countingEmitter : Emitter Unit Nat := fun _ host count =>
  if host.options.kind = .esNext then (.error (.emit "no modules"), count + 1)
  else (.ok {}, count + 1)

def silentHost : Host Nat := ⟨{}, fun _ _ count => (.ok (), count)⟩

/-- The second variant of two fails: both had their call, the unit is on record, and the error names
the second. -/
theorem emit_fanOut_prescribed_pair :
    let call : EmitCall Unit := ⟨(), some ⟨"a.ts"⟩, .derive {} none false, {}⟩
    let w : World Nat := ⟨⟨[.empty]⟩, 0⟩
    let emitted := (EntryPoint.fanOut 1 (.emitter 0 countingEmitter) pair (some ⟨0⟩)).emit
      call silentHost w
    resolve { declaration := true } cjsAndEsm .final = .ok pair ∧
      call.flags.declarationsOnly = false ∧ call.flags.buildInfoOnly = false ∧
      emitted = (.error (.inVariant .esNext (.emit "no modules")), ⟨⟨[⟨[⟨"a.ts"⟩]⟩]⟩, 2⟩) ∧
      ∃ calls outcome w', emitted = (outcome, w') ∧
        (EntryPoint.emitter 0 countingEmitter).Runs Never (w.record (some ⟨0⟩) call.target)
          calls w' ∧
        pair.Prescribes call silentHost calls outcome :=
  ⟨resolve_pair, rfl, rfl, rfl,
    (emit_fanOut_prescribed resolve_pair 1 (.emitter 0 countingEmitter) (some ⟨0⟩) _ silentHost _
      rfl rfl).2.2⟩

/-! ## What prescribed calls have in common -/

section Prescribes

variable {call : EmitCall ρ} {host : Host σ} {calls calls' : List (Invocation ρ σ)}
  {outcome : Except BuildError EmitResult}

/-- A call that goes well is made for every variant. -/
theorem Prescribes.requests_of_ok {result : EmitResult}
    (h : r.Prescribes call host calls (.ok result)) :
    calls.map Invocation.request = r.variants.map (requestFor call host) := by
  cases h with
  | completed requests => exact requests

/-- Where a fan-out fails, the last of its calls does. -/
theorem Prescribes.exists_of_error {fault : BuildError}
    (h : r.Prescribes call host calls (.error fault)) :
    ∃ before v after earlier last cause, r.variants = before ++ v :: after ∧
      calls = earlier ++ [last] ∧
      calls.map Invocation.request = (before ++ [v]).map (requestFor call host) ∧
      (∀ i ∈ earlier, ∃ result, i.result = .ok result) ∧ last.result = .error cause ∧
      fault = .inVariant v.kind cause := by
  cases h with
  | failed variants requests outcomes fault =>
    exact ⟨_, _, _, _, _, _, variants, rfl, requests, well_of_results outcomes, fault, rfl⟩

/-- All calls go well exactly if there is a result. -/
theorem Prescribes.well_iff (h : r.Prescribes call host calls outcome) :
    (∀ i ∈ calls, ∃ result, i.result = .ok result) ↔ ∃ result, outcome = .ok result := by
  cases h with
  | completed _ outcomes => exact ⟨fun _ => ⟨_, rfl⟩, fun _ => well_of_results outcomes⟩
  | @failed _ _ _ _ last _ _ _ _ _ fault =>
    refine ⟨fun hwell => ?_, fun ⟨_, hok⟩ => nomatch hok⟩
    obtain ⟨result, hlast⟩ := hwell last (by simp)
    rw [fault] at hlast
    cases hlast

theorem exists_variant_of_requests {vs : List ResolvedVariant}
    (h : calls.map Invocation.request = vs.map (requestFor call host)) :
    ∀ i ∈ calls, ∃ v, i.request = requestFor call host v := by
  intro i hi
  have hmem : i.request ∈ vs.map (requestFor call host) := h ▸ List.mem_map_of_mem hi
  obtain ⟨v, -, hv⟩ := List.mem_map.mp hmem
  exact ⟨v, hv.symm⟩

/-- Each call is made for some variant, also where one fails. -/
theorem Prescribes.exists_variant (h : r.Prescribes call host calls outcome) :
    ∀ i ∈ calls, ∃ v, i.request = requestFor call host v := by
  cases h with
  | completed requests => exact exists_variant_of_requests requests
  | failed _ requests => exact exists_variant_of_requests requests

/-- All calls write through the host that was given. -/
theorem Prescribes.write_eq (h : r.Prescribes call host calls outcome) :
    ∀ i ∈ calls, i.host.write = host.write := by
  intro i hi
  obtain ⟨v, hv⟩ := h.exists_variant i hi
  have hhost : i.host = (requestFor call host v).2 := congrArg Prod.snd hv
  rw [hhost]
  rfl

/-- Items that differ in a feature are told apart by it, so that a list is split at one in one
way. -/
theorem eq_of_split {α β : Type} {f : α → β} {before before' after after' : List α} {a a' : α}
    (h : before ++ a :: after = before' ++ a' :: after')
    (hd : ((before ++ a :: after).map f).Nodup) (hf : f a = f a') : before = before' ∧ a = a' := by
  have hlen : before.length = before'.length := by
    have ha : ((before ++ a :: after).map f)[before.length]? = some (f a) := by simp
    have ha' : ((before ++ a :: after).map f)[before'.length]? = some (f a) := by
      rw [h, hf]
      simp
    exact (List.getElem?_inj (by simp) hd).mp (ha.trans ha'.symm)
  obtain ⟨rfl, htail⟩ := List.append_inj h hlen
  exact ⟨rfl, (List.cons.inj htail).1⟩

/-- How a fan-out ends tells what it asked for: an error names the variant that was last. -/
theorem Prescribes.requests_eq (hkinds : (r.variants.map (·.kind)).Nodup)
    (h : r.Prescribes call host calls outcome) (h' : r.Prescribes call host calls' outcome) :
    calls.map Invocation.request = calls'.map Invocation.request := by
  cases outcome with
  | ok result => rw [h.requests_of_ok, h'.requests_of_ok]
  | error fault =>
    obtain ⟨before, v, after, -, -, cause, hvs, -, hreq, -, -, hfault⟩ := h.exists_of_error
    obtain ⟨before', v', after', -, -, cause', hvs', -, hreq', -, -, hfault'⟩ :=
      h'.exists_of_error
    have hkind : v.kind = v'.kind := by
      rw [hfault, BuildError.inVariant.injEq] at hfault'
      exact hfault'.1
    rw [hvs] at hkinds
    obtain ⟨rfl, rfl⟩ := eq_of_split (hvs.symm.trans hvs') hkinds hkind
    rw [hreq, hreq']

end Prescribes

/-! ## Runs of a fan-out -/

/-- What becomes of a call of a fan-out: the calls of the entry point that it wraps. -/
inductive Unfolds (r : Registry) (i : Invocation ρ σ) : List (Invocation ρ σ) → Prop
  | passed (through : i.call.flags.isPassThrough = true) : Unfolds r i [i]
  | fanned {calls : List (Invocation ρ σ)} (source : i.call.flags.isPassThrough = false)
      (prescribed : r.Prescribes i.call i.host calls i.result) : Unfolds r i calls

/-- What a fan-out does to a world besides its calls. -/
def Recording (sink : Option Sink) (w w' : World σ) : Prop := ∃ target, w' = w.record sink target

/-- **A run of a fan-out is a run of the entry point that it wraps**, with every call unfolded. -/
theorem Resolved.runs_unfold (hr : Resolved base requested mode r) {address : Nat}
    {inner : EntryPoint ρ σ} {sink : Option Sink} {moves : World σ → World σ → Prop}
    {w w' : World σ} {calls : List (Invocation ρ σ)}
    (h : (EntryPoint.fanOut address inner r sink).Runs moves w calls w') :
    ∃ groups, List.Forall₂ (Unfolds r) calls groups ∧
      inner.Runs (fun u v => moves u v ∨ Recording sink u v) w groups.flatten w' := by
  induction h with
  | done w => exact ⟨[], .nil, .done w⟩
  | aside hm _ ih =>
    obtain ⟨groups, hgroups, hruns⟩ := ih
    exact ⟨groups, hgroups, .aside (Or.inl hm) hruns⟩
  | @call i calls w he _ ih =>
    obtain ⟨groups, hgroups, hruns⟩ := ih
    cases hf : i.call.flags.isPassThrough with
    | true =>
      rw [emit_passThrough hf] at he
      exact ⟨[i] :: groups, .cons (.passed hf) hgroups, .call he hruns⟩
    | false =>
      obtain ⟨made, outcome, after, hemit, hinner, hpre⟩ :=
        hr.emit_fanOut hf address inner sink i.host i.before
      obtain ⟨rfl, rfl⟩ := Prod.mk.inj (he.symm.trans hemit)
      refine ⟨made :: groups, .cons (.fanned hf hpre) hgroups, ?_⟩
      exact .aside (Or.inr ⟨_, rfl⟩) ((hinner.mono False.elim).append hruns)

/-- A run of two lists of calls is unfolded in two parts. -/
theorem Resolved.runs_unfold_append (hr : Resolved base requested mode r) {address : Nat}
    {inner : EntryPoint ρ σ} {sink : Option Sink} {moves : World σ → World σ → Prop}
    {w w' : World σ} {calls more : List (Invocation ρ σ)}
    (h : (EntryPoint.fanOut address inner r sink).Runs moves w (calls ++ more) w') :
    ∃ groups moreGroups, List.Forall₂ (Unfolds r) calls groups ∧
      List.Forall₂ (Unfolds r) more moreGroups ∧
      inner.Runs (fun u v => moves u v ∨ Recording sink u v) w
        (groups.flatten ++ moreGroups.flatten) w' := by
  obtain ⟨groups, hgroups, hruns⟩ := hr.runs_unfold h
  refine ⟨groups.take calls.length, groups.drop calls.length,
    (List.forall₂_take_append _ _ _ hgroups.flip).flip,
    (List.forall₂_drop_append _ _ _ hgroups.flip).flip, ?_⟩
  rwa [← List.flatten_append, List.take_append_drop]

end Registry

end Fanout
