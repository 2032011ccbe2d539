import Fanout.Proofs.Emission.FanOut

/-!
# Calls that pass through fan-outs

`EntryPoint.within` wraps an entry point in fan-outs, any number of them, with any registries and
any sinks.  A call for declarations alone or for the incremental state alone goes through all of
them to the entry point inside:

* `emit_within_of_passThrough`: the chain does with such a call what the entry point inside does.
* `sinks_emit_of_passThrough`: nobody puts such a call on record.
* `emit_within_runs`: a call of the chain, whatever it is for, becomes calls of the entry point
  inside with the same flags, so that a source call never turns into one of the others.

The main result, `runs_within`, is about any number of calls one after the other.
-/

set_option autoImplicit false

namespace Fanout

variable {ρ σ : Type}

/-- What a fan-out adds to the entry point that it wraps. -/
structure Wrapper where
  address : Nat
  registry : Registry
  sink : Option Sink

namespace EntryPoint

/-- An entry point inside fan-outs, the outermost one first. -/
def within (e : EntryPoint ρ σ) : List Wrapper → EntryPoint ρ σ
  | [] => e
  | x :: inner => .fanOut x.address (e.within inner) x.registry x.sink

/-- The fan-outs of a chain put a target on record. -/
def Records (wrappers : List Wrapper) (u v : World σ) : Prop :=
  ∃ x ∈ wrappers, Registry.Recording x.sink u v

/-! ## One call -/

theorem emit_within_of_passThrough (e : EntryPoint ρ σ) (wrappers : List Wrapper)
    {call : EmitCall ρ} (hp : call.flags.isPassThrough = true) (host : Host σ) (w : World σ) :
    (e.within wrappers).emit call host w = e.emit call host w := by
  induction wrappers with
  | nil => rfl
  | cons x inner ih =>
    unfold within
    rw [Registry.emit_passThrough hp, ih]

theorem sinks_emit_of_passThrough (e : EntryPoint ρ σ) {call : EmitCall ρ}
    (hp : call.flags.isPassThrough = true) (host : Host σ) (w : World σ) :
    (e.emit call host w).2.sinks = w.sinks := by
  induction e with
  | emitter address run => rfl
  | fanOut address inner registry sink ih =>
    rw [Registry.emit_passThrough hp]
    exact ih

/-- A loop over variants makes the calls that the calls for its variants make. -/
theorem emitEach_runs {e : EntryPoint ρ σ} {moves : World σ → World σ → Prop}
    {emit : EmitCall ρ → Host σ → World σ → Except BuildError EmitResult × World σ}
    (he : ∀ call host w, ∃ made, e.Runs moves w made (emit call host w).2 ∧
      ∀ j ∈ made, j.call.flags = call.flags)
    (call : EmitCall ρ) (host : Host σ) (vs : List ResolvedVariant) (w : World σ) :
    ∃ made, e.Runs moves w made (emitEach emit call host vs w).2 ∧
      ∀ j ∈ made, j.call.flags = call.flags := by
  induction vs generalizing w with
  | nil => exact ⟨[], .done w, List.forall_mem_nil _⟩
  | cons v rest ih =>
    obtain ⟨made, hmade, hflags⟩ := he (call.forVariant v) (host.withOptions v.options) w
    unfold emitEach
    split
    · rename_i fault u hv
      rw [hv] at hmade
      exact ⟨made, hmade, hflags⟩
    · rename_i r u hv
      rw [hv] at hmade
      obtain ⟨more, hmore, hflags'⟩ := ih u
      refine ⟨made ++ more, hmade.append ?_, List.forall_mem_append.mpr ⟨hflags, hflags'⟩⟩
      split <;> rename_i hrest <;> rwa [hrest] at hmore

/-- A call of a chain becomes calls of the entry point inside, all with the flags of that call. -/
theorem emit_within_runs (e : EntryPoint ρ σ) (wrappers : List Wrapper) (call : EmitCall ρ)
    (host : Host σ) (w : World σ) :
    ∃ made, e.Runs (Records wrappers) w made ((e.within wrappers).emit call host w).2 ∧
      ∀ j ∈ made, j.call.flags = call.flags := by
  induction wrappers generalizing call host w with
  | nil => exact ⟨_, .of_emit rfl, List.forall_mem_singleton.mpr rfl⟩
  | cons x inner ih =>
    have hmoves : ∀ {u v : World σ}, Records inner u v → Records (x :: inner) u v := by
      rintro u v ⟨y, hy, hrec⟩
      exact ⟨y, List.mem_cons_of_mem x hy, hrec⟩
    have hinner : ∀ call host w, ∃ made,
        e.Runs (Records (x :: inner)) w made ((e.within inner).emit call host w).2 ∧
          ∀ j ∈ made, j.call.flags = call.flags := by
      intro call host w
      obtain ⟨made, hruns, hflags⟩ := ih call host w
      exact ⟨made, hruns.mono hmoves, hflags⟩
    unfold within
    rw [EntryPoint.emit]
    split
    · exact hinner call host w
    · obtain ⟨made, hruns, hflags⟩ :=
        emitEach_runs hinner call host x.registry.variants (w.record x.sink call.target)
      have hrec : Records (x :: inner) w (w.record x.sink call.target) :=
        ⟨x, List.mem_cons_self, _, rfl⟩
      refine ⟨made, .aside hrec ?_, hflags⟩
      split <;> rename_i heach <;> rwa [heach] at hruns

/-! ## Any number of calls -/

/-- The calls that an entry point inside gets for a call of the chain around it: that very call if
it passes through, and else none that does. -/
def Relays (i : Invocation ρ σ) (made : List (Invocation ρ σ)) : Prop :=
  if i.call.flags.isPassThrough then made = [i]
  else ∀ j ∈ made, j.call.flags.isPassThrough = false

/-- **Calls that pass through reach the entry point inside exactly once.**  Let calls of any kind be
made of a chain of fan-outs, some of which may fail, with moves of any kind in between.  The entry
point inside then runs through one group of calls for each, and does nothing else.  For a call for
declarations alone or for the incremental state alone, whatever else its flags say, the group is
that call and no other: with the resolver, target, pipeline and flags that were given, with the
host that was given and its options, from the world before the call to the world after it, with the
result that the chain gave, and without a record in any sink.  A source call makes no such call. -/
theorem runs_within (e : EntryPoint ρ σ) (wrappers : List Wrapper)
    {moves : World σ → World σ → Prop} {w w' : World σ} {calls : List (Invocation ρ σ)}
    (h : (e.within wrappers).Runs moves w calls w') :
    ∃ groups, e.Runs (fun u v => moves u v ∨ Records wrappers u v) w groups.flatten w' ∧
      List.Forall₂ Relays calls groups ∧
      ∀ i ∈ calls, i.call.flags.declarationsOnly = true ∨ i.call.flags.buildInfoOnly = true →
        e.emit i.call i.host i.before = (i.result, i.after) ∧
          i.after.sinks = i.before.sinks := by
  induction h with
  | done w => exact ⟨[], .done w, .nil, List.forall_mem_nil _⟩
  | aside hm _ ih =>
    obtain ⟨groups, hruns, hrelays, hthrough⟩ := ih
    exact ⟨groups, .aside (Or.inl hm) hruns, hrelays, hthrough⟩
  | @call i calls w he _ ih =>
    obtain ⟨groups, hruns, hrelays, hthrough⟩ := ih
    cases hp : i.call.flags.isPassThrough with
    | true =>
      rw [emit_within_of_passThrough e wrappers hp] at he
      have hsinks : i.after.sinks = i.before.sinks := by
        have := sinks_emit_of_passThrough e hp i.host i.before
        rwa [he] at this
      refine ⟨[i] :: groups, .call he hruns, .cons ?_ hrelays, ?_⟩
      · simp [Relays, hp]
      · exact List.forall_mem_cons.mpr ⟨fun _ => ⟨he, hsinks⟩, hthrough⟩
    | false =>
      obtain ⟨made, hmade, hflags⟩ := emit_within_runs e wrappers i.call i.host i.before
      rw [he] at hmade
      refine ⟨made :: groups, (hmade.mono Or.inr).append hruns, .cons ?_ hrelays, ?_⟩
      · unfold Relays
        rw [hp, if_neg Bool.false_ne_true]
        intro j hj
        rw [hflags j hj, hp]
      · refine List.forall_mem_cons.mpr ⟨fun hthrough => ?_, hthrough⟩
        rw [EmitFlags.isPassThrough, Bool.or_eq_false_iff] at hp
        simp [hp.1, hp.2] at hthrough

/-- A source call fails in the second variant of the inner of two fan-outs, and both fan-outs have
its unit on record.  The call for declarations that follows, which also forces them, is the third of
the emitter: it goes well and records nothing. -/
theorem runs_within_pair :
    let emitter : EntryPoint Unit Nat := .emitter 0 Registry.countingEmitter
    let wrappers : List Wrapper := [⟨2, .pair, some ⟨1⟩⟩, ⟨1, .pair, some ⟨0⟩⟩]
    let source : EmitCall Unit := ⟨(), some ⟨"a.ts"⟩, .derive {} none false, {}⟩
    let forced : EmitCall Unit :=
      { source with
        target := some ⟨"b.ts"⟩
        flags := { declarationsOnly := true, forceDeclarations := true } }
    let w : World Nat := ⟨⟨[.empty, .empty]⟩, 0⟩
    let w' : World Nat := ⟨⟨[⟨[⟨"a.ts"⟩]⟩, ⟨[⟨"a.ts"⟩]⟩]⟩, 3⟩
    ∃ calls groups : List _, (emitter.within wrappers).Runs Never w calls w' ∧
      calls.map (·.call) = [source, forced] ∧
      calls.map (·.result) =
        [.error (.inVariant .commonJs (.inVariant .esNext (.emit "no modules"))), .ok {}] ∧
      emitter.Runs (fun u v => Never u v ∨ Records wrappers u v) w groups.flatten w' ∧
      List.Forall₂ Relays calls groups := by
  intro emitter wrappers source forced w w'
  have hruns : (emitter.within wrappers).Runs Never w
      [⟨source, Registry.silentHost, w, _, _⟩, ⟨forced, Registry.silentHost, _, _, _⟩] w' :=
    .cons_emit rfl (.of_emit rfl)
  obtain ⟨groups, hinner, hrelays, -⟩ := runs_within emitter wrappers hruns
  exact ⟨_, groups, hruns, rfl, rfl, hinner, hrelays⟩

end EntryPoint

end Fanout
