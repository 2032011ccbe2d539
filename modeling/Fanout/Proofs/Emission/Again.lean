import Fanout.Proofs.Changed.Recording
import Fanout.Proofs.Disk.Replay

/-!
# Emission done again

`Again f g` says that what `f` does to a file tree, `g` does once more when the tree has only grown
since: it writes the same files, logs the same paths, records the same units and comes to the same
result.  An error is the same up to the fault of the system in it (`blurred`), since a write that is
refused may be refused for another reason later.

* `Again.bind` puts one after the other, and `Again.andThen` where an error ends it.
* `again_write`: a write through the disk host does its work again, whether it went well or not.
* `EmitScript.again`: so do writes one after the other, each depending on how those before it ended.
* `EntryPoint.Scripted.again`: so does a call of an entry point whose emitter goes by such a script,
  which the call and the options of the host determine.
-/

set_option autoImplicit false

namespace Fanout

/-! ## What is done again -/

/-- What is looked at of a state: the disk and the log of the host, and the set behind a sink where
one is watched. -/
structure View (σ τ : Type) where
  host : σ → OnDisk τ
  set? : σ → Option UnitSet := fun _ => none

section Again

variable {σ τ α β : Type} {V V' : View σ τ} {s s' s'' : σ} {ops more : List (Location × Node)}
  {paths paths' units units' : List Path}

/-- How one state comes from another: nodes are put, paths are logged, and units recorded. -/
structure Leaves (V : View σ τ) (s : σ) (ops : List (Location × Node)) (paths units : List Path)
    (s' : σ) : Prop where
  disk : (V.host s').disk = (V.host s).disk.putAll ops
  written : (V.host s').written = (V.host s).written ++ paths
  set? : V.set? s' = (V.set? s).map (·.insertAll units)

theorem Leaves.refl (V : View σ τ) (s : σ) : Leaves V s [] [] [] s where
  disk := rfl
  written := (List.append_nil _).symm
  set? := by simp [UnitSet.insertAll]

theorem Leaves.trans (h : Leaves V s ops paths units s')
    (h' : Leaves V s' more paths' units' s'') :
    Leaves V s (ops ++ more) (paths ++ paths') (units ++ units') s'' where
  disk := by rw [h'.disk, h.disk, Disk.putAll_append]
  written := by rw [h'.written, h.written, List.append_assoc]
  set? := by
    rw [h'.set?, h.set?, Option.map_map]
    congr 1
    funext set
    exact (set.insertAll_append units units').symm

/-- What `f` does, `g` does again on any tree that grew from what `f` left: it puts the same files
in the same places, where they are by then. -/
def Again (V V' : View σ τ) (f g : σ → Except BuildError α × σ) : Prop :=
  ∀ s, (V.host s).disk.IsTree → ∃ ops paths units, (V.host s).disk.Fits ops ∧
    Leaves V s ops paths units (f s).2 ∧
    ∀ t, (V'.host t).disk.IsTree → (V.host (f s).2).disk.Grows (V'.host t).disk →
      blurred (g t).1 = blurred (f s).1 ∧ Leaves V' t (Disk.files ops) paths units (g t).2

/-- Nothing is done in the end. -/
theorem Again.stop {r r' : Except BuildError α} (h : blurred r' = blurred r) :
    Again V V' (fun s => (r, s)) fun t => (r', t) :=
  fun s _ => ⟨[], [], [], .nil _, .refl V s, fun t _ _ => ⟨h, .refl V' t⟩⟩

/-- **What is done again one by one is done again altogether,** if what comes second does not depend
on the fault of the system in what came first. -/
theorem Again.bind {f g : σ → Except BuildError α × σ}
    {k l : Except BuildError α → σ → Except BuildError β × σ} (hf : Again V V' f g)
    (hk : ∀ r, Again V V' (k r) (l r))
    (hl : ∀ r r' t, blurred r = blurred r' →
      blurred (l r t).1 = blurred (l r' t).1 ∧ (l r t).2 = (l r' t).2) :
    Again V V' (fun s => k (f s).1 (f s).2) fun t => l (g t).1 (g t).2 := by
  intro s hs
  obtain ⟨ops, paths, units, hfits, hleaves, hagain⟩ := hf s hs
  have hs' : (V.host (f s).2).disk.IsTree := hleaves.disk ▸ hfits.isTree hs
  obtain ⟨more, paths', units', hfits', hleaves', hagain'⟩ := hk (f s).1 (f s).2 hs'
  have hlater : (V.host (f s).2).disk.Grows (V.host (k (f s).1 (f s).2).2).disk :=
    hleaves'.disk ▸ hfits'.grows
  refine ⟨_, _, _, hfits.append (hleaves.disk ▸ hfits'), hleaves.trans hleaves', fun t ht hg => ?_⟩
  obtain ⟨hresult, hredo⟩ := hagain t ht (hlater.trans hg)
  -- what is written again lies where files are, so that the tree grows from there too
  have hrewrites : (V'.host t).disk.Rewrites (Disk.files ops) := by
    refine (hlater.trans hg).rewrites ?_
    rw [hleaves.disk]
    exact hfits.rewrites
  have hmid : (V'.host t).disk.Grows (V'.host (g t).2).disk := hredo.disk ▸ hrewrites.grows
  have htree : (V'.host (g t).2).disk.IsTree := hredo.disk ▸ hrewrites.isTree ht
  obtain ⟨hresult', hredo'⟩ := hagain' (g t).2 htree (hg.trans hmid)
  obtain ⟨hsame, hstate⟩ := hl (g t).1 (f s).1 (g t).2 hresult
  rw [Disk.files_append]
  exact ⟨hsame.trans hresult', hstate ▸ hredo.trans hredo'⟩

/-- Goes on after a result, and ends after an error. -/
def andThen (wrap : BuildError → BuildError) (k : α → σ → Except BuildError β × σ) :
    Except BuildError α → σ → Except BuildError β × σ
  | .error e, s => (.error (wrap e), s)
  | .ok a, s => k a s

theorem Again.andThen {f g : σ → Except BuildError α × σ} {k l : α → σ → Except BuildError β × σ}
    {wrap : BuildError → BuildError} (hf : Again V V' f g) (hk : ∀ a, Again V V' (k a) (l a))
    (hwrap : ∀ e e' : BuildError, e.blurred = e'.blurred → (wrap e).blurred = (wrap e').blurred) :
    Again V V' (fun s => Fanout.andThen wrap k (f s).1 (f s).2) fun t =>
      Fanout.andThen wrap l (g t).1 (g t).2 := by
  refine hf.bind (fun r => ?_) fun r r' t h => ?_
  · cases r with
    | error e => exact .stop rfl
    | ok a => exact hk a
  · cases r with
    | error e =>
      cases r' with
      | error e' => exact ⟨congrArg Except.error (hwrap e e' (Except.error.inj h)), rfl⟩
      | ok a => cases h
    | ok a =>
      rw [blurred_eq_ok h.symm]
      exact ⟨rfl, rfl⟩

/-- What is not looked at may differ before. -/
theorem Again.comp {f g : σ → Except BuildError α × σ} (h : Again V V' f g) {u u' : σ → σ}
    (hu : ∀ s, V.host (u s) = V.host s ∧ V.set? (u s) = V.set? s)
    (hu' : ∀ t, V'.host (u' t) = V'.host t ∧ V'.set? (u' t) = V'.set? t) :
    Again V V' (fun s => f (u s)) fun t => g (u' t) := by
  intro s hs
  obtain ⟨hhost, hset⟩ := hu s
  obtain ⟨ops, paths, units, hfits, ⟨hdisk, hwritten, hset'⟩, hagain⟩ :=
    h (u s) (hhost.symm ▸ hs)
  rw [hhost] at hfits hdisk hwritten
  rw [hset] at hset'
  refine ⟨ops, paths, units, hfits, ⟨hdisk, hwritten, hset'⟩, fun t ht hg => ?_⟩
  obtain ⟨hhost', hset''⟩ := hu' t
  obtain ⟨hresult, hd, hw, hs'⟩ := hagain (u' t) (hhost'.symm ▸ ht) (hhost'.symm ▸ hg)
  rw [hhost'] at hd hw
  rw [hset''] at hs'
  exact ⟨hresult, hd, hw, hs'⟩

end Again

/-! ## Calls -/

section Calls

variable {ρ τ : Type}

/-- The disk and the log, as they are. -/
def View.disk : View (OnDisk τ) τ := { host := id }

/-- The disk and the log in a world. -/
def View.world : View (World (OnDisk τ)) τ := { host := World.state }

/-- A write through the disk host is done again. -/
theorem again_write (p : Path) (contents : String) :
    Again .disk .disk (DiskHost.write (τ := τ) p contents) (DiskHost.write p contents) := by
  intro s hs
  obtain ⟨ops, paths, hfits, hdisk, hwritten, hagain⟩ := DiskHost.write_again hs p contents
  refine ⟨ops, paths, [], hfits, ⟨hdisk, hwritten, rfl⟩, fun t ht hg => ?_⟩
  obtain ⟨result, hresult, hwrite⟩ := hagain t ht hg
  rw [hwrite]
  exact ⟨hresult, rfl, rfl, rfl⟩

/-- What a call is to do next, given how the writes before it ended: write a file, or end.  Of an
error it sees where that happened but not the fault of the system in it, which tells about the
disk. -/
inductive EmitScript where
  | done (result : Except BuildError EmitResult)
  | write (p : Path) (contents : String) (next : Except BuildError Unit → EmitScript)

namespace EmitScript

/-- Files in order; an error of the host is the error of the call, and ends it. -/
def ofFiles (result : Except BuildError EmitResult) : List (Path × String) → EmitScript
  | [] => .done result
  | (p, contents) :: rest => .write p contents fun
    | .error e => .done (.error e)
    | .ok () => ofFiles result rest

def play : EmitScript → OnDisk τ → Except BuildError EmitResult × OnDisk τ
  | .done result, s => (result, s)
  | .write p contents next, s =>
    let (answer, s) := DiskHost.write p contents s
    (next (blurred answer)).play s

theorem again (script : EmitScript) : Again .disk .disk (script.play (τ := τ)) script.play := by
  induction script with
  | done result => exact .stop rfl
  | write p contents next ih =>
    refine (again_write p contents).bind (fun answer => ih (blurred answer)) fun _ _ _ h => ?_
    rw [h]
    exact ⟨rfl, rfl⟩

end EmitScript

/-- The emitter at the bottom goes by a script that the call and the options of the host determine;
what it changes beside the disk and the log is its own affair. -/
def EntryPoint.Scripted (script : EmitCall ρ → Options → EmitScript) :
    EntryPoint ρ (OnDisk τ) → Prop
  | .emitter _ run => ∀ call o s, ∃ result rest,
      let played := (script call o).play s
      blurred result = blurred played.1 ∧
        run call (DiskHost.withOptions o) s = (result, { played.2 with rest })
  | .fanOut _ inner _ _ => inner.Scripted script

theorem again_emitEach {emit : EmitCall ρ → Host (OnDisk τ) → World (OnDisk τ) →
      Except BuildError EmitResult × World (OnDisk τ)}
    (he : ∀ call o, Again .world .world (emit call (DiskHost.withOptions o))
      (emit call (DiskHost.withOptions o)))
    (call : EmitCall ρ) (o : Options) (vs : List ResolvedVariant) :
    Again .world .world (emitEach emit call (DiskHost.withOptions o) vs)
      (emitEach emit call (DiskHost.withOptions o) vs) := by
  induction vs with
  | nil => exact .stop rfl
  | cons v rest ih =>
    have hstep : emitEach emit call (DiskHost.withOptions o) (v :: rest) = fun w =>
        andThen (.inVariant v.kind)
          (fun r w => andThen id (fun rs w => (.ok (r :: rs), w))
            (emitEach emit call (DiskHost.withOptions o) rest w).1
            (emitEach emit call (DiskHost.withOptions o) rest w).2)
          (emit (call.forVariant v) (DiskHost.withOptions v.options) w).1
          (emit (call.forVariant v) (DiskHost.withOptions v.options) w).2 := by
      funext w
      rw [emitEach, show (DiskHost.withOptions o).withOptions v.options =
        (DiskHost.withOptions v.options : Host (OnDisk τ)) from rfl]
      split
      · rename_i heq
        rw [heq]
        rfl
      · rename_i heq
        rw [heq]
        dsimp only [andThen]
        cases emitEach emit call (DiskHost.withOptions o) rest _ with
        | mk result w => cases result <;> rfl
    rw [hstep]
    refine (he (call.forVariant v) v.options).andThen (fun r => ?_) fun e e' h => ?_
    · exact ih.andThen (fun rs => .stop rfl) fun _ _ h => h
    · exact congrArg (BuildError.inVariant v.kind) h

/-- A fan-out does a call again if what it wraps does; its address and its sink may be others. -/
theorem again_fanOut {inner : EntryPoint ρ (OnDisk τ)}
    (hi : ∀ call o, Again .world .world (inner.emit call (DiskHost.withOptions o))
      (inner.emit call (DiskHost.withOptions o)))
    (address address' : Nat) (registry : Registry) (sink sink' : Option Sink)
    (call : EmitCall ρ) (o : Options) :
    Again .world .world
      ((EntryPoint.fanOut address inner registry sink).emit call (DiskHost.withOptions o))
      ((EntryPoint.fanOut address' inner registry sink').emit call (DiskHost.withOptions o)) := by
  cases hf : call.flags.isPassThrough with
  | true =>
    have hstep (address : Nat) (sink : Option Sink) :
        (EntryPoint.fanOut address inner registry sink).emit call (DiskHost.withOptions o) =
          inner.emit call (DiskHost.withOptions o) := by
      funext w
      rw [EntryPoint.emit, if_pos hf]
    rw [hstep, hstep]
    exact hi call o
  | false =>
    have hstep (address : Nat) (sink : Option Sink) :
        (EntryPoint.fanOut address inner registry sink).emit call (DiskHost.withOptions o) =
          fun w => andThen id (fun results w => (registry.mergeResults results, w))
            (emitEach inner.emit call (DiskHost.withOptions o) registry.variants
              (w.record sink call.target)).1
            (emitEach inner.emit call (DiskHost.withOptions o) registry.variants
              (w.record sink call.target)).2 := by
      funext w
      rw [EntryPoint.emit, if_neg (by simp [hf])]
      split <;> rename_i heq <;> rw [heq] <;> rfl
    rw [hstep, hstep]
    have heach := (again_emitEach hi call o registry.variants).andThen
      (fun results => .stop (r := registry.mergeResults results) rfl) fun _ _ h => h
    exact heach.comp (fun w => ⟨World.state_record w sink call.target, rfl⟩)
      fun w => ⟨World.state_record w sink' call.target, rfl⟩

/-- **Calls are done again,** whatever fan-outs the entry point is made of. -/
theorem EntryPoint.Scripted.again {e : EntryPoint ρ (OnDisk τ)}
    {script : EmitCall ρ → Options → EmitScript} (he : e.Scripted script) (call : EmitCall ρ)
    (o : Options) :
    Again .world .world (e.emit call (DiskHost.withOptions o))
      (e.emit call (DiskHost.withOptions o)) := by
  induction e generalizing call o with
  | emitter address run =>
    intro w hw
    obtain ⟨result, rest, hresult, hrun⟩ := he call o w.state
    obtain ⟨ops, paths, _, hfits, ⟨hdisk, hwritten, -⟩, hagain⟩ := (script call o).again w.state hw
    rw [EntryPoint.emit, hrun]
    refine ⟨ops, paths, [], hfits, ⟨hdisk, hwritten, rfl⟩, fun v hv hg => ?_⟩
    obtain ⟨result', rest', hresult', hrun'⟩ := he call o v.state
    obtain ⟨hsame, hd, hw', -⟩ := hagain v.state hv hg
    rw [EntryPoint.emit, hrun']
    exact ⟨hresult'.trans (hsame.trans hresult.symm), hd, hw', rfl⟩
  | fanOut address inner registry sink ih =>
    exact again_fanOut (ih he) address address registry sink sink call o

end Calls

end Fanout
