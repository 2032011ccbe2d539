import Fanout.Disk.Host
import Fanout.Proofs.Emission.Invocation
import Mathlib.Data.List.Forall2

/-!
# The log of the files written

`WritesBy` says that a state becomes another while something acts on it that may change what it
likes, except that the log is left to the host: it grows through the host's writes only.  By
`WritesBy.written_eq` the disk host's log grows by the paths whose write went well, in order.

An entry point acts like that if the emitter at its bottom does (`EntryPoint.WritesThroughHost`),
however many fan-outs are around it, and a run of such an entry point logs the writes of its calls
one after the other (`Runs.written_eq`).
-/

set_option autoImplicit false

namespace Fanout

variable {ρ τ : Type}

/-- A state becomes another through writes and moves that leave the log alone; the paths are those
whose write went well. -/
inductive WritesBy (write : Path → String → OnDisk τ → Except BuildError Unit × OnDisk τ) :
    OnDisk τ → List Path → OnDisk τ → Prop
  | done (s : OnDisk τ) : WritesBy write s [] s
  | aside {s s' s'' : OnDisk τ} {paths : List Path} :
      s'.written = s.written → WritesBy write s' paths s'' → WritesBy write s paths s''
  | wrote {s s' s'' : OnDisk τ} {paths : List Path} {p : Path} {contents : String} :
      write p contents s = (.ok (), s') → WritesBy write s' paths s'' →
        WritesBy write s (p :: paths) s''
  | refused {s s' s'' : OnDisk τ} {paths : List Path} {p : Path} {contents : String}
      {e : BuildError} :
      write p contents s = (.error e, s') → WritesBy write s' paths s'' →
        WritesBy write s paths s''

theorem WritesBy.append {write : Path → String → OnDisk τ → Except BuildError Unit × OnDisk τ}
    {s t u : OnDisk τ} {paths more : List Path} (h : WritesBy write s paths t)
    (h' : WritesBy write t more u) : WritesBy write s (paths ++ more) u := by
  induction h with
  | done => exact h'
  | aside hl _ ih => exact .aside hl (ih h')
  | wrote hw _ ih => exact .wrote hw (ih h')
  | refused hw _ ih => exact .refused hw (ih h')

namespace DiskHost

theorem written_of_write_ok {p : Path} {contents : String} {s s' : OnDisk τ}
    (h : write p contents s = (.ok (), s')) : s'.written = s.written ++ [p] := by
  unfold write at h
  split at h
  · cases h
  · split at h
    · cases h
    · cases h
      rfl

theorem written_of_write_error {p : Path} {contents : String} {s s' : OnDisk τ} {e : BuildError}
    (h : write p contents s = (.error e, s')) : s'.written = s.written := by
  unfold write at h
  split at h
  · cases h
    rfl
  · split at h
    · cases h
      rfl
    · cases h

end DiskHost

/-- **The log of the disk host grows by what was written, in order.** -/
theorem WritesBy.written_eq {s s' : OnDisk τ} {paths : List Path}
    (h : WritesBy DiskHost.write s paths s') : s'.written = s.written ++ paths := by
  induction h with
  | done s => rw [List.append_nil]
  | aside hl _ ih => rw [ih, hl]
  | wrote hw _ ih =>
    rw [ih, DiskHost.written_of_write_ok hw, List.append_assoc, List.singleton_append]
  | refused hw _ ih => rw [ih, DiskHost.written_of_write_error hw]

/-! ## Entry points -/

/-- The emitter at the bottom leaves the log to the host. -/
def EntryPoint.WritesThroughHost : EntryPoint ρ (OnDisk τ) → Prop
  | .emitter _ run => ∀ call host s, ∃ paths, WritesBy host.write s paths (run call host s).2
  | .fanOut _ inner _ _ => inner.WritesThroughHost

theorem emitEach_writes {emit : EmitCall ρ → Host (OnDisk τ) → World (OnDisk τ) →
      Except BuildError EmitResult × World (OnDisk τ)}
    (he : ∀ call host w, ∃ paths, WritesBy host.write w.state paths (emit call host w).2.state)
    (call : EmitCall ρ) (host : Host (OnDisk τ)) (vs : List ResolvedVariant)
    (w : World (OnDisk τ)) :
    ∃ paths, WritesBy host.write w.state paths (emitEach emit call host vs w).2.state := by
  induction vs generalizing w with
  | nil => exact ⟨[], .done _⟩
  | cons v rest ih =>
    obtain ⟨paths, hpaths⟩ := he (call.forVariant v) (host.withOptions v.options) w
    unfold emitEach
    split
    · rename_i e u hv
      rw [hv] at hpaths
      exact ⟨paths, hpaths⟩
    · rename_i r u hv
      rw [hv] at hpaths
      obtain ⟨more, hmore⟩ := ih u
      refine ⟨paths ++ more, hpaths.append ?_⟩
      split <;> rename_i hrest <;> rwa [hrest] at hmore

theorem World.state_record {σ : Type} (w : World σ) (sink : Option Sink) (target : Option Path) :
    (w.record sink target).state = w.state := by
  unfold World.record
  split <;> rfl

/-- Fan-outs write what the entry points that they wrap write. -/
theorem EntryPoint.WritesThroughHost.emit {e : EntryPoint ρ (OnDisk τ)}
    (he : e.WritesThroughHost) (call : EmitCall ρ) (host : Host (OnDisk τ))
    (w : World (OnDisk τ)) :
    ∃ paths, WritesBy host.write w.state paths (e.emit call host w).2.state := by
  induction e generalizing call host w with
  | emitter address run => exact he call host w.state
  | fanOut address inner registry sink ih =>
    rw [EntryPoint.emit]
    split
    · exact ih he call host w
    · obtain ⟨paths, hpaths⟩ :=
        emitEach_writes (ih he) call host registry.variants (w.record sink call.target)
      rw [World.state_record] at hpaths
      refine ⟨paths, ?_⟩
      split <;> rename_i hemit <;> rwa [hemit] at hpaths

/-! ## Runs -/

/-- The paths that a call wrote through its host. -/
def Invocation.Wrote (i : Invocation ρ (OnDisk τ)) (paths : List Path) : Prop :=
  WritesBy i.host.write i.before.state paths i.after.state

/-- **A run logs the writes of its calls, one call after the other.** -/
theorem EntryPoint.Runs.written_eq {e : EntryPoint ρ (OnDisk τ)} (he : e.WritesThroughHost)
    {moves : World (OnDisk τ) → World (OnDisk τ) → Prop}
    (hm : ∀ {u v}, moves u v → v.state.written = u.state.written) {w w' : World (OnDisk τ)}
    {calls : List (Invocation ρ (OnDisk τ))} (h : e.Runs moves w calls w')
    (hh : ∀ i ∈ calls, i.host.write = DiskHost.write) :
    ∃ written, List.Forall₂ Invocation.Wrote calls written ∧
      w'.state.written = w.state.written ++ written.flatten := by
  induction h with
  | done w => exact ⟨[], .nil, by simp⟩
  | aside hmv _ ih =>
    obtain ⟨written, hwrote, heq⟩ := ih hh
    exact ⟨written, hwrote, by rw [heq, hm hmv]⟩
  | @call i calls w hemit _ ih =>
    obtain ⟨written, hwrote, heq⟩ := ih fun j hj => hh j (List.mem_cons_of_mem _ hj)
    obtain ⟨paths, hpaths⟩ := he.emit i.call i.host i.before
    rw [hemit] at hpaths
    have hlog : i.after.state.written = i.before.state.written ++ paths := by
      rw [hh i List.mem_cons_self] at hpaths
      exact hpaths.written_eq
    exact ⟨paths :: written, .cons hpaths hwrote, by rw [heq, hlog]; simp⟩

end Fanout
