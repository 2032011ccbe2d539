import Fanout.Emission.EntryPoint

/-!
# Calls of an entry point

An `Invocation` is a call of an entry point on record, with the worlds before and after it.
`EntryPoint.Runs` says that a world becomes another through a list of calls of one entry point,
made one after the other, with nothing but moves of a given kind in between.

* `Runs.append` puts one run after another, and `Runs.mono` allows more moves in between.
* `Runs.cons_emit` puts a call before a run, and `Runs.of_emit` is the run of that call alone.

A run by `Never` moves is the composition of its calls and of nothing else, so it tells how often
the entry point was called: an emitter acts on a state of any kind, also on one that counts calls.
-/

set_option autoImplicit false

namespace Fanout

variable {ρ σ : Type}

/-- A call of an entry point on record. -/
structure Invocation (ρ σ : Type) where
  call : EmitCall ρ
  host : Host σ
  before : World σ
  result : Except BuildError EmitResult
  after : World σ

/-- What an entry point was asked for, and the host it was given. -/
def Invocation.request (i : Invocation ρ σ) : EmitCall ρ × Host σ := (i.call, i.host)

/-- Calls that gave these results went well. -/
theorem well_of_results {calls : List (Invocation ρ σ)} {results : List EmitResult}
    (h : calls.map Invocation.result = results.map .ok) : ∀ i ∈ calls, ∃ r, i.result = .ok r := by
  intro i hi
  have hmem : i.result ∈ results.map Except.ok := h ▸ List.mem_map_of_mem hi
  obtain ⟨r, -, hr⟩ := List.mem_map.mp hmem
  exact ⟨r, hr.symm⟩

/-- No move at all. -/
def Never (_ _ : World σ) : Prop := False

/-- A world becomes another through calls of an entry point, with other moves in between. -/
inductive EntryPoint.Runs (e : EntryPoint ρ σ) (moves : World σ → World σ → Prop) :
    World σ → List (Invocation ρ σ) → World σ → Prop
  | done (w : World σ) : Runs e moves w [] w
  | aside {w w' w'' : World σ} {calls : List (Invocation ρ σ)} :
      moves w w' → Runs e moves w' calls w'' → Runs e moves w calls w''
  | call {i : Invocation ρ σ} {calls : List (Invocation ρ σ)} {w : World σ} :
      e.emit i.call i.host i.before = (i.result, i.after) → Runs e moves i.after calls w →
        Runs e moves i.before (i :: calls) w

namespace EntryPoint.Runs

variable {e : EntryPoint ρ σ} {moves : World σ → World σ → Prop}

theorem append {u v w : World σ} {calls more : List (Invocation ρ σ)}
    (h : e.Runs moves u calls v) (h' : e.Runs moves v more w) :
    e.Runs moves u (calls ++ more) w := by
  induction h with
  | done => exact h'
  | aside hm _ ih => exact .aside hm (ih h')
  | call he _ ih => exact .call he (ih h')

theorem mono {moves' : World σ → World σ → Prop} (hm : ∀ {w w'}, moves w w' → moves' w w')
    {u v : World σ} {calls : List (Invocation ρ σ)} (h : e.Runs moves u calls v) :
    e.Runs moves' u calls v := by
  induction h with
  | done w => exact .done w
  | aside hmv _ ih => exact .aside (hm hmv) ih
  | call he _ ih => exact .call he ih

theorem cons_emit {call : EmitCall ρ} {host : Host σ} {w w' w'' : World σ}
    {result : Except BuildError EmitResult} {calls : List (Invocation ρ σ)}
    (h : e.emit call host w = (result, w')) (hr : e.Runs moves w' calls w'') :
    e.Runs moves w (⟨call, host, w, result, w'⟩ :: calls) w'' :=
  .call (i := ⟨call, host, w, result, w'⟩) h hr

theorem of_emit {call : EmitCall ρ} {host : Host σ} {w w' : World σ}
    {result : Except BuildError EmitResult} (h : e.emit call host w = (result, w')) :
    e.Runs moves w [⟨call, host, w, result, w'⟩] w' :=
  cons_emit h (.done w')

theorem emit_of_mem {w w' : World σ} {calls : List (Invocation ρ σ)}
    (h : e.Runs moves w calls w') :
    ∀ i ∈ calls, e.emit i.call i.host i.before = (i.result, i.after) := by
  induction h with
  | done => exact List.forall_mem_nil _
  | aside _ _ ih => exact ih
  | call he _ ih => exact List.forall_mem_cons.mpr ⟨he, ih⟩

end EntryPoint.Runs

end Fanout
