import Fanout.Proofs.Emission.Memoryless
import Fanout.Proofs.Emission.PassThrough

/-!
# Fan-outs inside fan-outs

What several fan-outs around one entry point make of a source call.  The innermost one decides what
the entry point gets to see: the options that the others put in effect are replaced, and the user's
own passes get through all of them (`emit_fanOut_requestFor`).  So the others only repeat its calls,
if the entry point has no memory.

* `Steady`: a call takes the same course in every world, with the same calls of the entry point
  inside.  `Memoryless.steady` is about the innermost fan-out, `Steady.fanOut_ok` and
  `Steady.fanOut_error` add one around it, and `steady_within` any number.
* `recordsIn_within`: each fan-out of a chain puts the target in its sink.

The main result is `emit_within_repeats`.
-/

set_option autoImplicit false

namespace Fanout

variable {ρ σ : Type}

/-! ## The same course in every world -/

theorem emitEach_forVariant (emit : EmitCall ρ → Host σ → World σ →
      Except BuildError EmitResult × World σ) (call : EmitCall ρ) (host : Host σ)
    (u : ResolvedVariant) (options : Options) (vs : List ResolvedVariant) (w : World σ) :
    emitEach emit (call.forVariant u) (host.withOptions options) vs w =
      emitEach emit call host vs w := by
  induction vs generalizing w with
  | nil => rfl
  | cons v rest ih =>
    have hcall : (call.forVariant u).forVariant v = call.forVariant v := rfl
    have hhost : (host.withOptions options).withOptions v.options = host.withOptions v.options :=
      rfl
    simp only [emitEach, hcall, hhost, ih]

namespace EntryPoint

variable {e c inner : EntryPoint ρ σ} {moves : World σ → World σ → Prop} {call : EmitCall ρ}
  {host : Host σ}

/-- **A fan-out does the same for a source call and for what another one made of it.** -/
theorem emit_fanOut_requestFor (hf : call.flags.isPassThrough = false) (address : Nat)
    (inner : EntryPoint ρ σ) (r : Registry) (sink : Option Sink) (host : Host σ)
    (v : ResolvedVariant) (w : World σ) :
    (EntryPoint.fanOut address inner r sink).emit (requestFor call host v).1
        (requestFor call host v).2 w =
      (EntryPoint.fanOut address inner r sink).emit call host w := by
  have hd : call.flags.declarationsOnly = false := (Bool.or_eq_false_iff.mp hf).1
  have hf' : (call.forVariant v).flags.isPassThrough = false := hf
  rw [requestFor_eq hd, emit, emit, if_neg (by simp [hf']), if_neg (by simp [hf]),
    emitEach_forVariant]
  rfl

/-- In every world a call of `c` has this outcome, by calls of `e` that ask for this and end so. -/
def Steady (e c : EntryPoint ρ σ) (moves : World σ → World σ → Prop) (call : EmitCall ρ)
    (host : Host σ) (outcome : Except BuildError EmitResult)
    (exchanges : List (Exchange ρ σ)) : Prop :=
  ∀ w, ∃ made w', c.emit call host w = (outcome, w') ∧ e.Runs moves w made w' ∧
    made.map Invocation.exchange = exchanges

end EntryPoint

namespace EntryPoint

variable {e c : EntryPoint ρ σ} {moves moves' : World σ → World σ → Prop} {call : EmitCall ρ}
  {host : Host σ} {outcome : Except BuildError EmitResult} {exchanges : List (Exchange ρ σ)}
  {base : Options} {requested : List Variant} {mode : OutputMode} {r : Registry}

theorem Steady.mono (hm : ∀ {u v}, moves u v → moves' u v)
    (h : e.Steady c moves call host outcome exchanges) :
    e.Steady c moves' call host outcome exchanges := by
  intro w
  obtain ⟨made, w', hemit, hruns, hex⟩ := h w
  exact ⟨made, w', hemit, hruns.mono hm, hex⟩

/-- **A fan-out around an entry point without a memory** always does what it did once. -/
theorem Memoryless.steady (he : e.Memoryless host.write)
    (hr : Registry.Resolved base requested mode r) (hf : call.flags.isPassThrough = false)
    {address : Nat} {sink : Option Sink} {u u' : World σ} {alone : List (Invocation ρ σ)}
    (hemit : (EntryPoint.fanOut address e r sink).emit call host u = (outcome, u'))
    (hruns : e.Runs Never (u.record sink call.target) alone u')
    (hpre : r.Prescribes call host alone outcome) :
    e.Steady (.fanOut address e r sink) (Registry.Recording sink) call host outcome
      (alone.map Invocation.exchange) := by
  intro w
  obtain ⟨calls, outcome', w', hemit', hruns', hpre'⟩ := hr.emit_fanOut hf address e sink host w
  have hsame := he.fanOut address r sink call host.options u w
  change ((EntryPoint.fanOut address e r sink).emit call host u).1 =
    ((EntryPoint.fanOut address e r sink).emit call host w).1 at hsame
  rw [hemit, hemit'] at hsame
  obtain rfl : outcome = outcome' := hsame
  refine ⟨calls, w', hemit', .aside ⟨_, rfl⟩ (hruns'.mono False.elim), ?_⟩
  exact he.exchange_eq hruns' hruns (hpre'.requests_eq hr.kinds_nodup hpre) hpre'.write_eq
    hpre.write_eq

/-- Calls that take the same course take it one after the other. -/
theorem Steady.of_runs {u u' : World σ} {calls : List (Invocation ρ σ)}
    (h : c.Runs Never u calls u')
    (hc : ∀ i ∈ calls, e.Steady c moves i.call i.host outcome exchanges) :
    ∃ made, e.Runs moves u made u' ∧
      made.map Invocation.exchange = (List.replicate calls.length exchanges).flatten ∧
      ∀ i ∈ calls, i.result = outcome := by
  induction h with
  | done u => exact ⟨[], .done u, rfl, List.forall_mem_nil _⟩
  | aside hm _ _ => exact hm.elim
  | @call i calls u' hi _ ih =>
    obtain ⟨hfirst, hrest⟩ := List.forall_mem_cons.mp hc
    obtain ⟨made, after, hemit, hmade, hex⟩ := hfirst i.before
    obtain ⟨hresult, rfl⟩ := Prod.mk.inj (hi.symm.trans hemit)
    obtain ⟨more, hmore, hex', hresults⟩ := ih hrest
    refine ⟨made ++ more, hmade.append hmore, ?_, List.forall_mem_cons.mpr ⟨hresult, hresults⟩⟩
    rw [List.map_append, hex, hex', List.length_cons, List.replicate_succ, List.flatten_cons]

section FanOut

variable (hr : Registry.Resolved base requested mode r) (hf : call.flags.isPassThrough = false)
  (address : Nat) (sink : Option Sink)

include hr hf

/-- What a fan-out makes of a call, where all calls for its variants take the same course. -/
theorem Steady.exists_calls (hc : ∀ v, e.Steady c moves (requestFor call host v).1
      (requestFor call host v).2 outcome exchanges) (w : World σ) :
    ∃ calls result w' made,
      (EntryPoint.fanOut address c r sink).emit call host w = (result, w') ∧
      r.Prescribes call host calls result ∧ (∀ i ∈ calls, i.result = outcome) ∧
      e.Runs (fun u v => Registry.Recording sink u v ∨ moves u v) w made w' ∧
      made.map Invocation.exchange = (List.replicate calls.length exchanges).flatten := by
  obtain ⟨calls, result, w', hemit, hruns, hpre⟩ := hr.emit_fanOut hf address c sink host w
  have hcalls : ∀ i ∈ calls, e.Steady c moves i.call i.host outcome exchanges := by
    intro i hi
    obtain ⟨v, hv⟩ := hpre.exists_variant i hi
    have hsteady := hc v
    rwa [← hv] at hsteady
  obtain ⟨made, hmade, hex, hresults⟩ := Steady.of_runs hruns hcalls
  exact ⟨calls, result, w', made, hemit, hpre, hresults, .aside (Or.inl ⟨_, rfl⟩)
    (hmade.mono Or.inr), hex⟩

/-- One more fan-out repeats a course that goes well, once for each variant. -/
theorem Steady.fanOut_ok {m : EmitResult} (hc : ∀ v, e.Steady c moves (requestFor call host v).1
      (requestFor call host v).2 (.ok m) exchanges) :
    e.Steady (.fanOut address c r sink) (fun u v => Registry.Recording sink u v ∨ moves u v) call
      host (.ok m) (List.replicate r.size exchanges).flatten := by
  intro w
  obtain ⟨calls, result, w', made, hemit, hpre, hresults, hmade, hex⟩ :=
    Steady.exists_calls hr hf address sink hc w
  cases hpre with
  | @completed _ results place v own requests outcomes variant primary hown =>
    have hlen : calls.length = r.size := by
      have hlengths := congrArg List.length requests
      simpa [Registry.size] using hlengths
    have hall : ∀ result ∈ results, result = m := by
      intro result hresult
      have hmem : Except.ok result ∈ calls.map Invocation.result :=
        outcomes ▸ List.mem_map_of_mem hresult
      obtain ⟨i, hi, hi'⟩ := List.mem_map.mp hmem
      exact Except.ok.inj (hi'.symm.trans (hresults i hi))
    have hmem : own ∈ results := List.mem_of_getElem? hown
    obtain rfl : own = m := hall own hmem
    have hskipped : results.any (·.emitSkipped) = own.emitSkipped := by
      rw [List.eq_replicate_of_mem hall, List.any_replicate, if_neg]
      exact Nat.ne_of_gt (List.length_pos_of_mem hmem)
    rw [hskipped] at hemit
    exact ⟨made, w', hemit, hmade, by rw [hex, hlen]⟩
  | @failed _ _ _ _ last _ cause _ _ _ fault =>
    have hlast := hresults last (by simp)
    rw [fault] at hlast
    cases hlast

/-- One more fan-out fails with a course that fails, and names its first variant. -/
theorem Steady.fanOut_error {cause : BuildError} (hc : ∀ v, e.Steady c moves
      (requestFor call host v).1 (requestFor call host v).2 (.error cause) exchanges) :
    ∃ kind, r.kinds.head? = some kind ∧
      e.Steady (.fanOut address c r sink) (fun u v => Registry.Recording sink u v ∨ moves u v)
        call host (.error (.inVariant kind cause)) exchanges := by
  obtain ⟨first, rest, hfirst⟩ := List.exists_cons_of_ne_nil hr.variants_ne_nil
  refine ⟨first.kind, by rw [Registry.kinds, hfirst]; rfl, fun w => ?_⟩
  obtain ⟨calls, result, w', made, hemit, hpre, hresults, hmade, hex⟩ :=
    Steady.exists_calls hr hf address sink hc w
  -- a call that goes well is none of these
  have hnone : ∀ i ∈ calls, ∀ result, i.result ≠ .ok result := by
    intro i hi result hresult
    rw [hresults i hi] at hresult
    cases hresult
  cases hpre with
  | @completed _ results place v own requests outcomes variant primary hown =>
    have hmem : Except.ok own ∈ calls.map Invocation.result :=
      outcomes ▸ List.mem_map_of_mem (List.mem_of_getElem? hown)
    obtain ⟨i, hi, hi'⟩ := List.mem_map.mp hmem
    exact absurd hi' (hnone i hi own)
  | @failed before after v earlier last results cause' hvs requests outcomes fault =>
    have hearlier : earlier = [] := by
      rw [List.eq_nil_iff_forall_not_mem]
      intro i hi
      obtain ⟨result, hresult⟩ := well_of_results outcomes i hi
      exact hnone i (List.mem_append_left _ hi) result hresult
    subst hearlier
    have hbefore : before = [] := by
      have hlengths := congrArg List.length requests
      simpa using hlengths.symm
    subst hbefore
    obtain ⟨rfl, -⟩ := List.cons.inj (hfirst.symm.trans hvs)
    have hlast := hresults last (by simp)
    rw [fault, Except.error.injEq] at hlast
    rw [hlast] at hemit
    exact ⟨made, w', hemit, hmade, by simpa using hex⟩

end FanOut

/-! ## Chains -/

/-- An error inside one layer for each of some fan-outs, the outermost one first; each layer names
the first variant of its fan-out. -/
inductive Wraps : List Wrapper → BuildError → BuildError → Prop
  | bare (cause : BuildError) : Wraps [] cause cause
  | layer {x : Wrapper} {wrappers : List Wrapper} {cause fault : BuildError} {kind : ModuleKind} :
      x.registry.kinds.head? = some kind → Wraps wrappers cause fault →
        Wraps (x :: wrappers) cause (.inVariant kind fault)

/-- The registries of fan-outs are resolved ones. -/
def AllResolved (wrappers : List Wrapper) : Prop :=
  ∀ x ∈ wrappers, ∃ base requested mode, Registry.resolve base requested mode = .ok x.registry

/-- The number of ways to choose one variant in each of some fan-outs. -/
def choices (wrappers : List Wrapper) : Nat := wrappers.foldr (·.registry.size * ·) 1

section Chain

variable {outer wrappers : List Wrapper} {x : Wrapper}

theorem choices_concat (outer : List Wrapper) (x : Wrapper) :
    choices (outer ++ [x]) = choices outer * x.registry.size := by
  induction outer with
  | nil => simp [choices]
  | cons y outer ih =>
    unfold choices at ih ⊢
    rw [List.cons_append, List.foldr_cons, List.foldr_cons, ih, Nat.mul_assoc]

theorem flatten_replicate_replicate {α : Type} (k n : Nat) (l : List α) :
    (List.replicate k (List.replicate n l).flatten).flatten =
      (List.replicate (k * n) l).flatten := by
  induction k with
  | zero => simp
  | succ k ih =>
    rw [List.replicate_succ, List.flatten_cons, ih, ← List.flatten_append,
      List.replicate_append_replicate, Nat.succ_mul, Nat.add_comm]

theorem records_cons {u v : World σ} (h : Registry.Recording x.sink u v ∨ Records wrappers u v) :
    Records (x :: wrappers) u v := by
  rcases h with h | ⟨y, hy, h⟩
  · exact ⟨x, List.mem_cons_self, h⟩
  · exact ⟨y, List.mem_cons_of_mem x hy, h⟩

/-- The calls for all variants take the same course through a chain. -/
theorem Steady.forVariant (hf : call.flags.isPassThrough = false)
    (h : e.Steady (e.within (outer ++ [x])) moves call host outcome exchanges)
    (v : ResolvedVariant) :
    e.Steady (e.within (outer ++ [x])) moves (requestFor call host v).1
      (requestFor call host v).2 outcome exchanges := by
  intro w
  have hw := h w
  cases outer with
  | nil => exact (emit_fanOut_requestFor hf _ _ _ _ host v w).symm ▸ hw
  | cons y outer => exact (emit_fanOut_requestFor hf _ _ _ _ host v w).symm ▸ hw

/-- **Fan-outs around a fan-out repeat its course,** or fail with it. -/
theorem steady_within (hr : AllResolved outer) (hf : call.flags.isPassThrough = false)
    (hx : e.Steady (e.within [x]) (Records [x]) call host outcome exchanges) :
    (∀ m, outcome = .ok m →
      e.Steady (e.within (outer ++ [x])) (Records (outer ++ [x])) call host (.ok m)
        (List.replicate (choices outer) exchanges).flatten) ∧
    ∀ cause, outcome = .error cause → ∃ fault, Wraps outer cause fault ∧
      e.Steady (e.within (outer ++ [x])) (Records (outer ++ [x])) call host (.error fault)
        exchanges := by
  induction outer with
  | nil =>
    refine ⟨?_, ?_⟩
    · rintro m rfl
      simpa [choices] using hx
    · rintro cause rfl
      exact ⟨cause, .bare cause, hx⟩
  | cons y outer ih =>
    obtain ⟨⟨base, requested, mode, hy⟩, houter⟩ := List.forall_mem_cons.mp hr
    have hres := Registry.resolve_resolved hy
    obtain ⟨hok, herror⟩ := ih houter
    refine ⟨fun m hm => ?_, fun cause hcause => ?_⟩
    · have hsteady := Steady.fanOut_ok hres hf y.address y.sink ((hok m hm).forVariant hf)
      rw [flatten_replicate_replicate] at hsteady
      exact hsteady.mono records_cons
    · obtain ⟨fault, hwraps, hfault⟩ := herror cause hcause
      obtain ⟨kind, hkind, hsteady⟩ :=
        Steady.fanOut_error hres hf y.address y.sink (hfault.forVariant hf)
      exact ⟨_, .layer hkind hwraps, hsteady.mono records_cons⟩

/-! ## Records of a chain -/

variable {k : Sink}

/-- Every call of an entry point puts its target on record in a sink. -/
def RecordsIn (c : EntryPoint ρ σ) (k : Sink) : Prop :=
  ∀ call host w, (c.emit call host w).2.sinks.get? k =
    (w.sinks.get? k).map (·.insertAll call.recorded?.toList)

theorem emitEach_recordsIn (hc : c.RecordsIn k) (call : EmitCall ρ) (host : Host σ)
    {vs : List ResolvedVariant} (hne : vs ≠ []) (w : World σ) :
    (emitEach c.emit call host vs w).2.sinks.get? k =
      (w.sinks.get? k).map (·.insertAll call.recorded?.toList) := by
  obtain ⟨v, rest, rfl⟩ := List.exists_cons_of_ne_nil hne
  have hfirst := hc (call.forVariant v) (host.withOptions v.options) w
  unfold emitEach
  split
  · rename_i fault u hv
    rwa [hv] at hfirst
  · rename_i result u hv
    rw [hv] at hfirst
    have hrest : MayRecord k call.recorded? u (emitEach c.emit call host rest u).2 :=
      emitEach_mayRecord (fun call host w => c.emit_mayRecord call host w) call host rest u
    have hall := hrest.of_recorded hfirst
    split <;> rename_i heq <;> rwa [heq] at hall

/-- A fan-out around it changes nothing about that, as it calls it at least once. -/
theorem RecordsIn.fanOut (hc : c.RecordsIn k) (hne : r.variants ≠ []) (address : Nat)
    (sink : Option Sink) : (EntryPoint.fanOut address c r sink).RecordsIn k := by
  intro call host w
  rw [emit]
  split
  · exact hc call host w
  · rename_i hsource
    have hrecorded : call.recorded? = call.target := if_neg hsource
    have heach := emitEach_recordsIn hc call host hne (w.record sink call.target)
    have hall : (emitEach c.emit call host r.variants (w.record sink call.target)).2.sinks.get? k =
        (w.sinks.get? k).map (·.insertAll call.recorded?.toList) := by
      rw [heach, World.get?_record, hrecorded]
      split
      · simp [Function.comp_def, UnitSet.insertAll_insertAll]
      · rfl
    split <;> rename_i heq <;> rwa [heq] at hall

/-- **Each fan-out of a chain puts the target in its sink,** those inside others too. -/
theorem recordsIn_within (e : EntryPoint ρ σ) (hr : AllResolved wrappers) (hx : x ∈ wrappers)
    (hk : x.sink = some k) : (e.within wrappers).RecordsIn k := by
  induction wrappers with
  | nil => cases hx
  | cons y inner ih =>
    obtain ⟨⟨base, requested, mode, hy⟩, hinner⟩ := List.forall_mem_cons.mp hr
    unfold within
    rcases List.mem_cons.mp hx with rfl | hx
    · intro call host w
      rw [hk]
      exact get?_emit_fanOut x.address (e.within inner) x.registry call host w
    · exact (ih hinner hx).fanOut (Registry.resolve_resolved hy).variants_ne_nil y.address y.sink

/-! ## The whole chain -/

/-- Calls with no other exchanges than some that go well go well. -/
theorem well_of_exchanges {made alone : List (Invocation ρ σ)}
    (h : ∀ i ∈ made, i.exchange ∈ alone.map Invocation.exchange)
    (halone : ∀ i ∈ alone, ∃ m, i.result = .ok m) : ∀ i ∈ made, ∃ m, i.result = .ok m := by
  intro i hi
  obtain ⟨j, hj, hji⟩ := List.mem_map.mp (h i hi)
  obtain ⟨m, hm⟩ := halone j hj
  exact ⟨m, (congrArg Prod.snd hji).symm.trans hm⟩

/-- **Fan-outs around a fan-out only repeat what it does alone.**  Let any number of fan-outs over
resolved registries stand around a fan-out over one more, around an entry point without a memory for
what the host writes, and let the outermost one get a source call.

The calls of the entry point all go well exactly if the innermost fan-out alone gives a result.
Then they are the calls that it makes alone, once for each choice of a variant from every other
registry, with the options and the pipelines of its own variants and the user's passes; they end
alike, and the result is the same.  If alone it fails with an error in a variant, the calls are
those that it makes up to there, once, and the chain wraps the error in one layer more for each of
the others, which names the first variant there.  Either way every fan-out has the target on
record. -/
theorem emit_within_repeats (e : EntryPoint ρ σ) (outer : List Wrapper) (x : Wrapper)
    (hr : AllResolved (outer ++ [x])) {call : EmitCall ρ} {host : Host σ}
    (he : e.Memoryless host.write) (hd : call.flags.declarationsOnly = false)
    (hb : call.flags.buildInfoOnly = false) (w : World σ) :
    ∃ alone result u made outcome w',
      (e.within [x]).emit call host w = (result, u) ∧
      e.Runs Never (w.record x.sink call.target) alone u ∧
      x.registry.Prescribes call host alone result ∧
      (e.within (outer ++ [x])).emit call host w = (outcome, w') ∧
      e.Runs (Records (outer ++ [x])) w made w' ∧
      ((∀ i ∈ made, ∃ m, i.result = .ok m) ↔ ∃ merged, result = .ok merged) ∧
      (∀ merged, result = .ok merged → outcome = .ok merged ∧
        made.length = choices (outer ++ [x]) ∧
        made.map Invocation.exchange =
          (List.replicate (choices outer) (alone.map Invocation.exchange)).flatten ∧
        alone.map Invocation.request = x.registry.variants.map (requestFor call host)) ∧
      (∀ kind cause, result = .error (.inVariant kind cause) →
        made.map Invocation.exchange = alone.map Invocation.exchange ∧
        ∃ fault, Wraps outer (.inVariant kind cause) fault ∧ outcome = .error fault) ∧
      ∀ y ∈ outer ++ [x], ∀ k, y.sink = some k →
        w'.sinks.get? k = (w.sinks.get? k).map (·.insertAll call.target.toList) := by
  have hf : call.flags.isPassThrough = false := by
    simp [EmitFlags.isPassThrough, hd, hb]
  obtain ⟨houter, hx⟩ := List.forall_mem_append.mp hr
  obtain ⟨base, requested, mode, hres⟩ := hx x (List.mem_singleton.mpr rfl)
  have hresolved := Registry.resolve_resolved hres
  obtain ⟨alone, result, u, hemit, hruns, hpre⟩ :=
    hresolved.emit_fanOut hf x.address e x.sink host w
  have hsteady : e.Steady (e.within [x]) (Records [x]) call host result
      (alone.map Invocation.exchange) :=
    (he.steady hresolved hf hemit hruns hpre).mono fun h => ⟨x, List.mem_singleton.mpr rfl, h⟩
  obtain ⟨hok, herror⟩ := steady_within houter hf hsteady
  have hrecorded : call.recorded? = call.target := if_neg (by simp [hf])
  have hsinks : ∀ y ∈ outer ++ [x], ∀ k, y.sink = some k →
      ((e.within (outer ++ [x])).emit call host w).2.sinks.get? k =
        (w.sinks.get? k).map (·.insertAll call.target.toList) := by
    intro y hy k hk
    rw [recordsIn_within e hr hy hk call host w, hrecorded]
  cases result with
  | ok merged =>
    obtain ⟨made, w', hchain, hmade, hex⟩ := hok merged rfl w
    have hmem : ∀ i ∈ made, i.exchange ∈ alone.map Invocation.exchange := by
      intro i hi
      have hi : i.exchange ∈ made.map Invocation.exchange := List.mem_map_of_mem hi
      rw [hex] at hi
      obtain ⟨exchanges, hrepeated, hi⟩ := List.mem_flatten.mp hi
      rwa [List.eq_of_mem_replicate hrepeated] at hi
    have hlength : made.length = choices (outer ++ [x]) := by
      have hmade := congrArg List.length hex
      have halone := congrArg List.length hpre.requests_of_ok
      simp only [List.length_map] at hmade halone
      simp [choices_concat, hmade, halone, Registry.size]
    rw [hchain] at hsinks
    exact ⟨alone, _, u, made, _, w', hemit, hruns, hpre, hchain, hmade,
      ⟨fun _ => ⟨merged, rfl⟩, fun h => well_of_exchanges hmem (hpre.well_iff.mpr h)⟩,
      fun _ h => ⟨h, hlength, hex, hpre.requests_of_ok⟩, fun _ _ h => (by cases h), hsinks⟩
  | error cause =>
    obtain ⟨fault, hwraps, hfault⟩ := herror cause rfl
    obtain ⟨made, w', hchain, hmade, hex⟩ := hfault w
    have hmem : ∀ i ∈ alone, i.exchange ∈ made.map Invocation.exchange :=
      fun i hi => hex ▸ List.mem_map_of_mem hi
    rw [hchain] at hsinks
    refine ⟨alone, _, u, made, _, w', hemit, hruns, hpre, hchain, hmade,
      ⟨fun h => hpre.well_iff.mp (well_of_exchanges hmem h), fun h => ?_⟩, fun _ h => (by cases h),
      fun kind inner h => ?_, hsinks⟩
    · obtain ⟨merged, hmerged⟩ := h
      cases hmerged
    · cases h
      exact ⟨hex, fault, hwraps, rfl⟩

end Chain

/-- One bundle, named like the output directory of the options. -/
def bundleScript (_ : EmitCall Unit) (o : Options) : EmitScript :=
  let file := o.outDir.getD .empty
  .ofFiles (.ok { emittedFiles := [file] }) [(file, "")]

/-- A host that keeps all paths but one, which it refuses. -/
def refusing (refused : Path) : Host (List Path) :=
  ⟨{}, fun p _ s => if p = refused then (.error (.emit "refused"), s) else (.ok (), s ++ [p])⟩

theorem memoryless_bundle (address : Nat) (refused : Path) :
    (EntryPoint.emitter address (.ofScript bundleScript)).Memoryless (refusing refused).write := by
  refine Emitter.memoryless_ofScript address bundleScript fun p contents s s' => ?_
  unfold refusing
  dsimp only
  split
  · rfl
  · rfl

/-- Two registries with two variants each: four calls, and each file is written twice.  Where the
host refuses the file of the second variant, the calls are those that the inner fan-out makes alone,
and the error has two layers. -/
theorem emit_within_repeats_pair :
    let e : EntryPoint Unit (List Path) := .emitter 0 (.ofScript bundleScript)
    let outer : List Wrapper := [⟨2, .pair, some ⟨1⟩⟩]
    let x : Wrapper := ⟨1, .pair, some ⟨0⟩⟩
    let source : EmitCall Unit := ⟨(), some ⟨"a.js"⟩, .derive {} none false, {}⟩
    let w : World (List Path) := ⟨⟨[.empty, .empty]⟩, []⟩
    let cjs : Path := ⟨"cjs"⟩
    let esm : Path := ⟨"esm"⟩
    let sinks : Sinks := ⟨[⟨[⟨"a.js"⟩]⟩, ⟨[⟨"a.js"⟩]⟩]⟩
    (∃ made, (e.within (outer ++ [x])).emit source (refusing .empty) w =
        (.ok { emittedFiles := [cjs] }, ⟨sinks, [cjs, esm, cjs, esm]⟩) ∧
      e.Runs (Records (outer ++ [x])) w made ⟨sinks, [cjs, esm, cjs, esm]⟩ ∧ made.length = 4) ∧
    ∃ made alone : List (Invocation Unit (List Path)),
      (e.within (outer ++ [x])).emit source (refusing esm) w =
        (.error (.inVariant .commonJs (.inVariant .esNext (.emit "refused"))), ⟨sinks, [cjs]⟩) ∧
      e.Runs (Records (outer ++ [x])) w made ⟨sinks, [cjs]⟩ ∧
      e.Runs Never (w.record x.sink source.target) alone
        ⟨⟨[⟨[⟨"a.js"⟩]⟩, .empty]⟩, [cjs]⟩ ∧
      made.map Invocation.exchange = alone.map Invocation.exchange := by
  intro e outer x source w cjs esm sinks
  have hr : AllResolved (outer ++ [x]) := by
    intro y hy
    simp only [outer, x, List.cons_append, List.nil_append, List.mem_cons, List.not_mem_nil,
      or_false] at hy
    rcases hy with rfl | rfl
    · exact ⟨_, _, _, Registry.resolve_pair⟩
    · exact ⟨_, _, _, Registry.resolve_pair⟩
  have hd : source.flags.declarationsOnly = false := rfl
  have hb : source.flags.buildInfoOnly = false := rfl
  refine ⟨?_, ?_⟩
  · obtain ⟨alone, result, u, made, outcome, w', halone, -, -, hchain, hruns, -, hok, -, -⟩ :=
      emit_within_repeats e outer x hr (memoryless_bundle 0 .empty) hd hb w
    have hone : (e.within [x]).emit source (refusing .empty) w =
        (.ok { emittedFiles := [cjs] }, ⟨⟨[⟨[⟨"a.js"⟩]⟩, .empty]⟩, [cjs, esm]⟩) := by rfl
    have hall : (e.within (outer ++ [x])).emit source (refusing .empty) w =
        (.ok { emittedFiles := [cjs] }, ⟨sinks, [cjs, esm, cjs, esm]⟩) := by rfl
    obtain ⟨hresult, -⟩ := Prod.mk.inj (halone.symm.trans hone)
    obtain ⟨-, rfl⟩ := Prod.mk.inj (hchain.symm.trans hall)
    exact ⟨made, hall, hruns, (hok _ hresult).2.1⟩
  · obtain ⟨alone, result, u, made, outcome, w', halone, hruns', -, hchain, hruns, -, -,
      herror, -⟩ := emit_within_repeats e outer x hr (memoryless_bundle 0 esm) hd hb w
    have hone : (e.within [x]).emit source (refusing esm) w =
        (.error (.inVariant .esNext (.emit "refused")), ⟨⟨[⟨[⟨"a.js"⟩]⟩, .empty]⟩, [cjs]⟩) := by
      rfl
    have hall : (e.within (outer ++ [x])).emit source (refusing esm) w =
        (.error (.inVariant .commonJs (.inVariant .esNext (.emit "refused"))), ⟨sinks, [cjs]⟩) := by
      rfl
    obtain ⟨hresult, rfl⟩ := Prod.mk.inj (halone.symm.trans hone)
    obtain ⟨-, rfl⟩ := Prod.mk.inj (hchain.symm.trans hall)
    exact ⟨made, alone, hall, hruns, hruns', (herror _ _ hresult).1⟩

end EntryPoint

end Fanout
