import Fanout.Proofs.Emission.Contract
import Fanout.Proofs.Emission.FanOut
import Fanout.Proofs.Variant.Representation
import Mathlib.Data.List.Permutation

/-!
# Fan-outs over different lists of variants

Two fan-outs wrap one entry point, and every variant of the first is one of the second too.

* `EntryPoint.RespondsBy`: what the entry point writes and gives is determined by what it is asked
  for and the options of its host.  It may have moves of its own beside that, as long as they make
  no difference to its calls.
* `Trace`: what a call that went well leaves behind, which is what it was asked for, the files it
  handed to its host and its result.
* `Resolved.emit_traces`: the calls of a fan-out leave one trace for each variant, and the trace of
  a variant depends on nothing else in the registry.

The main result, `emit_fanOut_of_subset`, compares the two: their merged results differ at most in
the skip flag, which only more variants can raise, and each trace of the first is left exactly once
by the second.
-/

set_option autoImplicit false

namespace Fanout

variable {ρ σ : Type}

/-! ## What calls leave behind -/

/-- What an entry point does in a call that goes well. -/
structure Response where
  /-- The files that it hands to its host, with their contents. -/
  files : List (Path × String)
  result : EmitResult

/-- A state becomes another by handing files to a host, whatever that answers, with other moves in
between. -/
inductive Hands (write : Path → String → σ → Except BuildError Unit × σ) (own : σ → σ → Prop) :
    σ → List (Path × String) → σ → Prop
  | done (s : σ) : Hands write own s [] s
  | aside {s s' s'' : σ} {files : List (Path × String)} :
      own s s' → Hands write own s' files s'' → Hands write own s files s''
  | file {s s' s'' : σ} {files : List (Path × String)} {p : Path} {contents : String}
      {answer : Except BuildError Unit} :
      write p contents s = (answer, s') → Hands write own s' files s'' →
        Hands write own s ((p, contents) :: files) s''

/-- A call that goes well is determined by what was asked for and the options of the host. -/
def EntryPoint.RespondsBy (e : EntryPoint ρ σ) (own : σ → σ → Prop)
    (respond : EmitCall ρ → Options → Response) : Prop :=
  ∀ call host w result w', e.emit call host w = (.ok result, w') →
    result = (respond call host.options).result ∧
      Hands host.write own w.state (respond call host.options).files w'.state

/-- An emitter that does nothing but respond. -/
def Emitter.ofResponse (respond : EmitCall ρ → Options → Response) : Emitter ρ σ :=
  fun call host s =>
    let answer := respond call host.options
    (.ok answer.result, answer.files.foldl (fun s (p, contents) => (host.write p contents s).2) s)

theorem Hands.foldl (write : Path → String → σ → Except BuildError Unit × σ) (own : σ → σ → Prop)
    (files : List (Path × String)) (s : σ) :
    Hands write own s files (files.foldl (fun s (p, contents) => (write p contents s).2) s) := by
  induction files generalizing s with
  | nil => exact .done s
  | cons file rest ih => exact .file rfl (ih _)

theorem Emitter.respondsBy_ofResponse (address : Nat) (own : σ → σ → Prop)
    (respond : EmitCall ρ → Options → Response) :
    (EntryPoint.emitter address (.ofResponse respond)).RespondsBy own respond := by
  intro call host w result w' h
  rw [EntryPoint.emit, ofResponse] at h
  cases h
  exact ⟨rfl, .foldl host.write own _ w.state⟩

/-- What is left of a call that went well. -/
structure Trace (ρ σ : Type) where
  call : EmitCall ρ
  host : Host σ
  response : Response

/-- A call on record left this behind. -/
structure Invocation.Left (own : σ → σ → Prop) (i : Invocation ρ σ) (t : Trace ρ σ) : Prop where
  request : i.request = (t.call, t.host)
  result : i.result = .ok t.response.result
  files : Hands i.host.write own i.before.state t.response.files i.after.state

/-- The trace of a call, given what it was asked for. -/
def traceOf (respond : EmitCall ρ → Options → Response) (request : EmitCall ρ × Host σ) :
    Trace ρ σ :=
  ⟨request.1, request.2, respond request.1 request.2.options⟩

/-- The trace of the call for a variant. -/
def variantTrace (respond : EmitCall ρ → Options → Response) (call : EmitCall ρ) (host : Host σ)
    (v : ResolvedVariant) : Trace ρ σ :=
  traceOf respond (requestFor call host v)

/-- The calls of such an entry point that went well leave the traces of their requests. -/
theorem EntryPoint.RespondsBy.left {e : EntryPoint ρ σ} {own : σ → σ → Prop}
    {respond : EmitCall ρ → Options → Response} (he : e.RespondsBy own respond)
    {moves : World σ → World σ → Prop} {w w' : World σ} {calls : List (Invocation ρ σ)}
    (hruns : e.Runs moves w calls w') (hwell : ∀ i ∈ calls, ∃ r, i.result = .ok r) :
    List.Forall₂ (Invocation.Left own) calls
      ((calls.map Invocation.request).map (traceOf respond)) := by
  rw [List.map_map, List.forall₂_map_right_iff, List.forall₂_same]
  intro i hi
  obtain ⟨r, hr⟩ := hwell i hi
  have hemit := hruns.emit_of_mem i hi
  rw [hr] at hemit
  obtain ⟨hresult, hfiles⟩ := he _ _ _ _ _ hemit
  exact ⟨rfl, hr.trans (congrArg _ hresult), hfiles⟩

/-- The results of calls are those of their traces. -/
theorem results_of_left {own : σ → σ → Prop} {calls : List (Invocation ρ σ)}
    {traces : List (Trace ρ σ)} {results : List EmitResult}
    (hresults : calls.map Invocation.result = results.map .ok)
    (h : List.Forall₂ (Invocation.Left own) calls traces) :
    results = traces.map (·.response.result) := by
  induction h generalizing results with
  | nil => exact List.map_eq_nil_iff.mp hresults.symm
  | cons hi _ ih =>
    cases results with
    | nil => cases hresults
    | cons result results =>
      rw [List.map_cons, List.map_cons, List.cons.injEq, hi.result, Except.ok.injEq] at hresults
      rw [List.map_cons, ← ih hresults.2, hresults.1]

namespace Registry

variable {base : Options} {requested : List Variant} {mode : OutputMode} {r : Registry}

/-- The traces of a list of variants add up to the trace of the primary, skipped if any is. -/
def merged (traces : List (Trace ρ σ)) (primary : Trace ρ σ) : EmitResult :=
  { primary.response.result with emitSkipped := traces.any (·.response.result.emitSkipped) }

/-- **A fan-out leaves the trace of each of its variants**, in their order. -/
theorem Resolved.emit_traces (hr : Resolved base requested mode r) {inner : EntryPoint ρ σ}
    {own : σ → σ → Prop} {respond : EmitCall ρ → Options → Response}
    (hinner : inner.RespondsBy own respond) {call : EmitCall ρ}
    (hf : call.flags.isPassThrough = false) {address : Nat} {sink : Option Sink} {host : Host σ}
    {w w' : World σ} {m : EmitResult}
    (h : (EntryPoint.fanOut address inner r sink).emit call host w = (.ok m, w')) :
    ∃ calls, inner.Runs Never (w.record sink call.target) calls w' ∧
      List.Forall₂ (Invocation.Left own) calls (r.variants.map (variantTrace respond call host)) ∧
      m = merged (r.variants.map (variantTrace respond call host))
        (variantTrace respond call host r.primary) := by
  obtain ⟨calls, outcome, w'', hemit, hruns, hpre⟩ := hr.emit_fanOut hf address inner sink host w
  obtain ⟨rfl, rfl⟩ := Prod.mk.inj (hemit.symm.trans h)
  cases hpre with
  | @completed _ results place v result requests outcomes variant primary own_result =>
    have hleft := hinner.left hruns (well_of_results outcomes)
    rw [requests, List.map_map] at hleft
    have htraces : results =
        (r.variants.map (variantTrace respond call host)).map (·.response.result) :=
      results_of_left outcomes hleft
    have hv : v = r.primary := (hr.isPrimary_iff v (List.mem_of_getElem? variant)).mp primary
    have hown : result = (variantTrace respond call host r.primary).response.result := by
      rw [htraces, List.getElem?_map, List.getElem?_map, variant, hv] at own_result
      exact (Option.some.inj own_result).symm
    refine ⟨calls, hruns, hleft, ?_⟩
    rw [merged, hown, htraces, List.any_map]
    rfl

/-- No two variants have one trace: their options differ in the kind. -/
theorem nodup_variantTraces (h : resolve base requested mode = .ok r)
    (respond : EmitCall ρ → Options → Response) (call : EmitCall ρ) (host : Host σ) :
    (r.variants.map (variantTrace respond call host)).Nodup := by
  have hkinds : (r.variants.map (variantTrace respond call host)).map (·.host.options.kind) =
      r.variants.map (·.kind) := by
    rw [List.map_map]
    exact List.map_congr_left fun v hv => (derivedFrom_of_resolve h hv).kind_eq
  exact List.Nodup.of_map (·.host.options.kind) (hkinds ▸ (resolve_resolved h).kinds_nodup)

/-- An item of a list without repetition stands in one place. -/
theorem existsUnique_place {α : Type} {l : List α} (hd : l.Nodup) {a : α} (ha : a ∈ l) :
    ∃! k : Nat, l[k]? = some a := by
  obtain ⟨k, hk⟩ := List.getElem?_of_mem ha
  refine ⟨k, hk, ?_⟩
  intro k' hk'
  obtain ⟨hlt, -⟩ := List.getElem?_eq_some_iff.mp hk
  exact (List.getElem?_inj hlt hd).mp (hk.trans hk'.symm) |>.symm

section Subset

variable {fewer more : List Variant} {s : Registry}

theorem Resolved.mem_of_subset (hr : Resolved base fewer mode r) (hs : Resolved base more mode s)
    (hsub : ∀ v ∈ fewer, v ∈ more) : ∀ v ∈ r.variants, v ∈ s.variants := by
  intro v hv
  rw [hr.variants_eq] at hv
  obtain ⟨u, hu, rfl⟩ := List.mem_map.mp hv
  rw [hs.variants_eq]
  exact List.mem_map_of_mem (hsub u hu)

/-- The primary of the shorter list is that of the longer one. -/
theorem Resolved.primary_of_subset (hr : Resolved base fewer mode r)
    (hs : Resolved base more mode s) (hsub : ∀ v ∈ fewer, v ∈ more) : r.primary = s.primary :=
  (hs.isPrimary_iff _ (hr.mem_of_subset hs hsub _ hr.primary_mem)).mp hr.primary_isPrimary

/-- **More variants only add, and their order is only that of the calls.**  Let every variant of one
list be in another, and let a source call go well over the registries of both, with an entry point
whose writes and results its arguments and the host's options determine.  The diagnostics and the
files reported are the same; what is skipped over the first is skipped over the second; and each
call made over the first, with its options, its pipeline, its result and the files it writes, is
made exactly once over the second.  If the lists have the same variants, the calls are the same in
another order and the merged results are equal. -/
theorem emit_fanOut_of_subset (hr : resolve base fewer mode = .ok r)
    (hs : resolve base more mode = .ok s) (hsub : ∀ v ∈ fewer, v ∈ more)
    {inner : EntryPoint ρ σ} {own : σ → σ → Prop} {respond : EmitCall ρ → Options → Response}
    (hinner : inner.RespondsBy own respond) {call : EmitCall ρ}
    (hd : call.flags.declarationsOnly = false) (hb : call.flags.buildInfoOnly = false)
    {address address' : Nat} {sink sink' : Option Sink} {host : Host σ} {u u' w w' : World σ}
    {m n : EmitResult}
    (hm : (EntryPoint.fanOut address inner r sink).emit call host u = (.ok m, u'))
    (hn : (EntryPoint.fanOut address' inner s sink').emit call host w = (.ok n, w')) :
    m.diagnostics = n.diagnostics ∧ m.emittedFiles = n.emittedFiles ∧
      (m.emitSkipped = true → n.emitSkipped = true) ∧
      ∃ calls calls' traces traces',
        inner.Runs Never (u.record sink call.target) calls u' ∧
        inner.Runs Never (w.record sink' call.target) calls' w' ∧
        List.Forall₂ (Invocation.Left own) calls traces ∧
        List.Forall₂ (Invocation.Left own) calls' traces' ∧
        (∀ t ∈ traces, ∃! k : Nat, traces'[k]? = some t) ∧
        (fewer.Perm more → traces.Perm traces' ∧ m = n) := by
  have hr' := resolve_resolved hr
  have hs' := resolve_resolved hs
  have hf : call.flags.isPassThrough = false := by
    simp [EmitFlags.isPassThrough, hd, hb]
  obtain ⟨calls, hruns, hleft, hmerged⟩ := hr'.emit_traces hinner hf hm
  obtain ⟨calls', hruns', hleft', hmerged'⟩ := hs'.emit_traces hinner hf hn
  have hprimary := hr'.primary_of_subset hs' hsub
  have hmem := hr'.mem_of_subset hs' hsub
  rw [← hprimary] at hmerged'
  refine ⟨by rw [hmerged, hmerged']; rfl, by rw [hmerged, hmerged']; rfl, ?_,
    calls, calls', _, _, hruns, hruns', hleft, hleft', ?_, ?_⟩
  · rw [hmerged, hmerged']
    intro hskip
    obtain ⟨t, ht, hskip⟩ := List.any_eq_true.mp hskip
    obtain ⟨v, hv, rfl⟩ := List.mem_map.mp ht
    exact List.any_eq_true.mpr ⟨_, List.mem_map_of_mem (hmem v hv), hskip⟩
  · intro t ht
    obtain ⟨v, hv, rfl⟩ := List.mem_map.mp ht
    exact existsUnique_place (nodup_variantTraces hs respond call host)
      (List.mem_map_of_mem (hmem v hv))
  · intro hperm
    have htraces : (r.variants.map (variantTrace respond call host)).Perm
        (s.variants.map (variantTrace respond call host)) := by
      rw [hr'.variants_eq, hs'.variants_eq]
      exact (hperm.map _).map _
    refine ⟨htraces, ?_⟩
    rw [hmerged, hmerged', merged, merged, htraces.any_eq]

end Subset

/-- `cjsAndEsm` the other way round, behind a third variant. -/
def amdFirst : List Variant := ⟨.amd, ⟨"amd"⟩, ⟨"cache/amd"⟩, false⟩ :: cjsAndEsm.reverse

/-- The registry made from `amdFirst` under the options of `pair`. -/
def triple : Registry where
  variants :=
    ⟨⟨.amd, ⟨"amd"⟩, ⟨"cache/amd"⟩, false⟩, { outDir := some ⟨"amd"⟩, kind := .amd }⟩ ::
      pair.variants.reverse
  primary := pair.primary
  mode := .final

/-- One file and one warning for each call; the output for AMD is skipped. -/
def oneFile (call : EmitCall Unit) (o : Options) : Response :=
  let file := (o.outDir.getD .empty).join (call.target.getD ⟨"all"⟩)
  { files := if o.kind = .amd then [] else [(file, o.kind.name)]
    result :=
      { diagnostics := [.warning 1 o.kind.name]
        emitSkipped := o.kind == .amd
        emittedFiles := if o.kind = .amd then [] else [file] } }

/-- A host that keeps what it is handed. -/
def keepingHost : Host (List (Path × String)) :=
  ⟨{}, fun p contents s => (.ok (), s ++ [(p, contents)])⟩

/-- With a third variant in front the output counts as skipped; the two files of the shorter list
are written in the other order, and what is reported stems from the primary still. -/
theorem emit_fanOut_of_subset_triple :
    let call : EmitCall Unit := ⟨(), some ⟨"a.js"⟩, .derive {} none false, {}⟩
    let inner : EntryPoint Unit (List (Path × String)) := .emitter 0 (.ofResponse oneFile)
    let w : World (List (Path × String)) := ⟨{}, []⟩
    let esm : Path × String := (⟨"esm/a.js"⟩, "esnext")
    let cjs : Path × String := (⟨"cjs/a.js"⟩, "commonjs")
    let m : EmitResult := ⟨[.warning 1 "commonjs"], false, [⟨"cjs/a.js"⟩]⟩
    let n : EmitResult := { m with emitSkipped := true }
    let base : Options := { declaration := true }
    resolve base cjsAndEsm .final = .ok pair ∧ resolve base amdFirst .final = .ok triple ∧
      (∀ v ∈ cjsAndEsm, v ∈ amdFirst) ∧ inner.RespondsBy (fun _ _ => False) oneFile ∧
      (EntryPoint.fanOut 1 inner pair none).emit call keepingHost w = (.ok m, ⟨{}, [cjs, esm]⟩) ∧
      (EntryPoint.fanOut 1 inner triple none).emit call keepingHost w =
        (.ok n, ⟨{}, [esm, cjs]⟩) ∧
      m.diagnostics = n.diagnostics ∧ (m.emitSkipped = true → n.emitSkipped = true) ∧
      ∃ (calls calls' : List (Invocation Unit (List (Path × String))))
        (traces traces' : List (Trace Unit (List (Path × String)))),
        List.Forall₂ (Invocation.Left fun _ _ => False) calls traces ∧
        List.Forall₂ (Invocation.Left fun _ _ => False) calls' traces' ∧
        ∀ t ∈ traces, ∃! k : Nat, traces'[k]? = some t := by
  intro call inner w esm cjs m n base
  have hs : resolve base amdFirst .final = .ok triple := rfl
  have hsub : ∀ v ∈ cjsAndEsm, v ∈ amdFirst := by decide
  have hinner : inner.RespondsBy (fun _ _ => False) oneFile :=
    Emitter.respondsBy_ofResponse 0 _ oneFile
  have hm : (EntryPoint.fanOut 1 inner pair none).emit call keepingHost w =
      (.ok m, ⟨{}, [cjs, esm]⟩) := by cbv
  have hn : (EntryPoint.fanOut 1 inner triple none).emit call keepingHost w =
      (.ok n, ⟨{}, [esm, cjs]⟩) := by cbv
  obtain ⟨hdiag, -, hskip, calls, calls', traces, traces', -, -, hleft, hleft', honce, -⟩ :=
    emit_fanOut_of_subset resolve_pair hs hsub hinner rfl rfl hm hn
  exact ⟨resolve_pair, hs, hsub, hinner, hm, hn, hdiag, hskip, calls, calls', traces, traces',
    hleft, hleft', honce⟩

end Registry

end Fanout
