import Fanout.Emission.Sequence
import Fanout.Proofs.Emission.Again

/-!
# Plans of emission

A `Plan` is what a compiler does through a host and an entry point if nothing else counts: files to
write and calls to make, each depending on how those before it ended.  Of an error the plan sees
where it happened but not the fault of the system in it, which tells about the disk.

* `Plan.play` carries a plan out.
* `GoesBy` says of an emit sequence that it does so.
* `Plan.again`: through a fan-out over an entry point that goes by a script, a plan is carried out
  again, also through a fan-out with another address and another sink.
* `unitByUnit_goesBy`: the sequence that a compiler follows by its contract goes by a plan.
-/

set_option autoImplicit false

namespace Fanout

variable {ρ τ : Type}

/-- What is to be done next, given how what was done before ended. -/
inductive Plan (ρ : Type) where
  | done (result : Except BuildError EmitResult)
  | write (p : Path) (contents : String) (next : Except BuildError Unit → Plan ρ)
  | emit (call : EmitCall ρ) (o : Options) (next : Except BuildError EmitResult → Plan ρ)

/-- Carries a plan out, with the given entry point. -/
def Plan.play (e : EntryPoint ρ (OnDisk τ)) :
    Plan ρ → World (OnDisk τ) → Except BuildError EmitResult × World (OnDisk τ)
  | .done result, w => (result, w)
  | .write p contents next, w =>
    let (answer, state) := DiskHost.write p contents w.state
    (next (blurred answer)).play e { w with state }
  | .emit call o next, w =>
    let (answer, w) := e.emit call (DiskHost.withOptions o) w
    (next (blurred answer)).play e w

theorem Plan.play_emit (e : EntryPoint ρ (OnDisk τ)) (call : EmitCall ρ) (o : Options)
    (next : Except BuildError EmitResult → Plan ρ) (w : World (OnDisk τ)) :
    (Plan.emit call o next).play e w =
      (next (blurred (e.emit call (DiskHost.withOptions o) w).1)).play e
        (e.emit call (DiskHost.withOptions o) w).2 := rfl

/-- The sequence carries out a plan that is settled by the compiler, the options of the host and the
user's passes.  What it leaves in the slot, and what it changes beside the disk, the log and the
sinks, is its own affair. -/
def GoesBy (plan : Handle → Options → Option CustomPasses → Plan ρ)
    (sequence : EmitSequence ρ (OnDisk τ)) : Prop :=
  ∀ c o custom w, ∃ result slot rest,
    let played := (plan c.handle o custom).play c.slot w
    blurred result = blurred played.1 ∧
      sequence c (DiskHost.withOptions o) custom w =
        (result, { c with slot }, { played.2 with state := { played.2.state with rest } })

/-! ## Plans carried out again -/

section Again

variable {α : Type} {k k' : Sink}

/-- The disk and the log in a world, and the set behind a sink. -/
def View.watching (k : Sink) : View (World (OnDisk τ)) τ where
  host := World.state
  set? w := w.sinks.get? k

/-- What concerns the disk and the log alone is done again in a world. -/
theorem Again.inWorld {f g : OnDisk τ → Except BuildError α × OnDisk τ}
    (h : Again .disk .disk f g) :
    Again .world .world (fun w => ((f w.state).1, { w with state := (f w.state).2 }))
      fun w => ((g w.state).1, { w with state := (g w.state).2 }) := by
  intro w hw
  obtain ⟨ops, paths, units, hfits, ⟨hdisk, hwritten, -⟩, hagain⟩ := h w.state hw
  refine ⟨ops, paths, units, hfits, ⟨hdisk, hwritten, rfl⟩, fun v hv hg => ?_⟩
  obtain ⟨hresult, hd, hw', -⟩ := hagain v.state hv hg
  exact ⟨hresult, hd, hw', rfl⟩

/-- Where both record the same units, that is done again too. -/
theorem Again.watching {f g : World (OnDisk τ) → Except BuildError α × World (OnDisk τ)}
    (h : Again .world .world f g) {units : List Path}
    (hf : ∀ w, (f w).2.sinks.get? k = (w.sinks.get? k).map (·.insertAll units))
    (hg : ∀ w, (g w).2.sinks.get? k' = (w.sinks.get? k').map (·.insertAll units)) :
    Again (.watching k) (.watching k') f g := by
  intro w hw
  obtain ⟨ops, paths, _, hfits, ⟨hdisk, hwritten, -⟩, hagain⟩ := h w hw
  refine ⟨ops, paths, units, hfits, ⟨hdisk, hwritten, hf w⟩, fun v hv hgrows => ?_⟩
  obtain ⟨hresult, hd, hw', -⟩ := hagain v hv hgrows
  exact ⟨hresult, hd, hw', hg v⟩

/-- **A plan is carried out again.** -/
theorem Plan.again {inner : EntryPoint ρ (OnDisk τ)} {script : EmitCall ρ → Options → EmitScript}
    (hi : inner.Scripted script) (address address' : Nat) (registry : Registry) (k k' : Sink)
    (plan : Plan ρ) :
    Again (.watching k) (.watching k') (plan.play (.fanOut address inner registry (some k)))
      (plan.play (.fanOut address' inner registry (some k'))) := by
  induction plan with
  | done result => exact .stop rfl
  | write p contents next ih =>
    have hnone (w : World (OnDisk τ)) (k : Sink) :
        w.sinks.get? k = (w.sinks.get? k).map (·.insertAll []) := by simp [UnitSet.insertAll]
    have hwrite := (again_write (τ := τ) p contents).inWorld.watching
      (fun w => hnone w k) fun w => hnone w k'
    refine hwrite.bind (fun answer => ih (blurred answer)) fun _ _ _ h => ?_
    rw [h]
    exact ⟨rfl, rfl⟩
  | emit call o next ih =>
    have hfanOut := again_fanOut hi.again address address' registry (some k) (some k') call o
    have hcall := hfanOut.watching
      (EntryPoint.get?_emit_fanOut address inner registry call (DiskHost.withOptions o))
      (EntryPoint.get?_emit_fanOut address' inner registry call (DiskHost.withOptions o))
    refine hcall.bind (fun answer => ih (blurred answer)) fun _ _ _ h => ?_
    rw [h]
    exact ⟨rfl, rfl⟩

end Again

/-! ## Unit by unit -/

namespace Plan

/-- One call for each unit, adding to a total; then what follows. -/
def forUnits (resolver : ρ) (o : Options) (custom : Option CustomPasses)
    (next : EmitResult → Plan ρ) : List Path → EmitResult → Plan ρ
  | [], total => next total
  | unit :: rest, total =>
    let pipeline := Pipeline.derive o custom false
    .emit { resolver, target := some unit, pipeline, flags := {} } o fun
      | .error e => .done (.error e)
      | .ok r => forUnits resolver o custom next rest (total.absorb r)

/-- The call for the incremental state, where that is kept. -/
def forBuildInfo (resolver : ρ) (o : Options) (custom : Option CustomPasses) (total : EmitResult) :
    Plan ρ :=
  if o.incremental then
    let pipeline := Pipeline.derive o custom false
    .emit { resolver, target := none, pipeline, flags := .onlyBuildInfo } o fun
      | .error e => .done (.error e)
      | .ok r => .done (.ok (total.absorb r))
  else .done (.ok total)

/-- The plan of a compiler that keeps its contract and has these units. -/
def unitByUnit (resolver : ρ) (units : List Path) (o : Options) (custom : Option CustomPasses) :
    Plan ρ :=
  forUnits resolver o custom (forBuildInfo resolver o custom) units {}

variable (c : Compiler ρ (OnDisk τ)) (resolver : ρ) (o : Options) (custom : Option CustomPasses)

theorem play_forUnits (next : EmitResult → Plan ρ) (units : List Path) (total : EmitResult)
    (w : World (OnDisk τ)) :
    (forUnits resolver o custom next units total).play c.slot w =
      match c.emitUnits resolver (DiskHost.withOptions o) custom units total w with
      | (.error e, w) => (.error e.blurred, w)
      | (.ok total, w) => (next total).play c.slot w := by
  induction units generalizing total w with
  | nil => rfl
  | cons unit rest ih =>
    rw [forUnits, play_emit, Compiler.emitUnits]
    dsimp only [DiskHost.withOptions]
    rcases c.slot.emit _ _ w with ⟨_ | r, w'⟩
    · rfl
    · exact ih (total.absorb r) w'

theorem play_forBuildInfo (total : EmitResult) (w : World (OnDisk τ)) :
    (forBuildInfo resolver o custom total).play c.slot w =
      match c.emitBuildInfo resolver (DiskHost.withOptions o) custom total w with
      | (.error e, w) => (.error e.blurred, w)
      | (.ok total, w) => (.ok total, w) := by
  have hopt : (DiskHost.withOptions o : Host (OnDisk τ)).options = o := rfl
  rw [forBuildInfo, Compiler.emitBuildInfo, hopt]
  by_cases h : o.incremental = true
  · rw [if_pos h, if_pos h, play_emit]
    dsimp only
    rcases c.slot.emit _ _ w with ⟨_ | r, w'⟩ <;> rfl
  · rw [if_neg h, if_neg h]
    rfl

end Plan

/-- The sequence that a compiler follows by its contract goes by a plan. -/
theorem unitByUnit_goesBy (resolver : ρ) (units : List Path) :
    GoesBy (τ := τ) (fun _ => Plan.unitByUnit resolver units) (unitByUnit resolver units) := by
  intro c o custom w
  have hplay : (Plan.unitByUnit resolver units o custom).play c.slot w =
      let (result, w) := c.emitProgram resolver units (DiskHost.withOptions o) custom w
      (blurred result, w) := by
    rw [Plan.unitByUnit, Plan.play_forUnits, Compiler.emitProgram]
    rcases c.emitUnits resolver (DiskHost.withOptions o) custom units {} w with ⟨_ | total, w'⟩
    · rfl
    · dsimp only
      rw [Plan.play_forBuildInfo]
      rcases c.emitBuildInfo _ _ _ total w' with ⟨_ | _, _⟩ <;> rfl
  dsimp only
  rw [hplay]
  exact ⟨_, c.slot, _, (blurred_blurred _).symm, rfl⟩

end Fanout
