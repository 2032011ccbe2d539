import Fanout.Proofs.Changed.UnitSet
import Fanout.Proofs.Emission.Invocation

/-!
# What calls put on record

A fan-out with a sink records the target of a call, unless the call is for artifacts that exist once
(`EmitCall.recorded?`).  The entry point below may be a fan-out again, with any sink and also with
the same one; but as it is called for the same target, it records nothing else.

* `Ordered.step`: holders of sinks keep the sets in order.
* `emit_mayRecord`: a call of any entry point leaves a sink alone or records the target there.
* `get?_emit_fanOut`: a call of a fan-out records its target in the sink of the fan-out, even where
  the emission of a variant fails.
* `Runs.get?_sink`: a run of a fan-out leaves in its sink what was there and what its calls
  recorded.
-/

set_option autoImplicit false

namespace Fanout

variable {ρ σ : Type}

namespace Sinks

/-- The set behind a sink, if there is one. -/
def get? (s : Sinks) (k : Sink) : Option UnitSet := s.sets[k.index]?

theorem get_eq (s : Sinks) (k : Sink) : s.get k = (s.get? k).getD .empty :=
  List.getD_eq_getElem?_getD

theorem get_of_get? {s : Sinks} {k : Sink} {set : UnitSet} (h : s.get? k = some set) :
    s.get k = set := by
  rw [get_eq, h, Option.getD_some]

theorem get?_record (s : Sinks) (k j : Sink) (u : Path) :
    (s.record j u).get? k = if j = k then (s.get? k).map (·.insert u) else s.get? k := by
  unfold get? record put
  rw [List.getElem?_set]
  by_cases h : j = k
  · subst h
    cases hset : s.sets[j.index]? with
    | none =>
      have hge : ¬j.index < s.sets.length := by simpa using hset
      simp [hge]
    | some set =>
      have hlt := (List.getElem?_eq_some_iff.mp hset).1
      simp [hlt, get_of_get? (show s.get? j = some set from hset)]
  · have hne : j.index ≠ k.index := fun hi => h (by cases j; cases k; simpa using hi)
    simp [h, hne]

theorem get?_fresh (s : Sinks) : s.fresh.2.get? s.fresh.1 = some .empty := by
  simp [fresh, get?]

/-- Whoever has a hold on the sink sees this set, and so does whoever gets a copy of the hold. -/
def Shows (s : Sinks) (k : Sink) (set : UnitSet) : Prop :=
  ∀ (h : Holds) (place : Nat), h.sinks = s → h.holds[place]? = some k →
    (h.step (.snapshot place)).1 = .units set.units ∧
      (∀ unit, (h.step (.contains place unit)).1 = .truth (set.contains unit)) ∧
      ((h.step (.copy place)).2.step (.snapshot h.holds.length)).1 = .units set.units

theorem shows_of_get? {s : Sinks} {k : Sink} {set : UnitSet} (hk : s.get? k = some set) :
    s.Shows k set := by
  rintro h place rfl hplace
  have hset : h.set place = set := by
    rw [Holds.set, Holds.sinkAt, List.getD_eq_getElem?_getD, hplace]
    exact get_of_get? hk
  -- a copy is the last of the holds
  have hlast : (h.step (.copy place)).2.sinkAt h.holds.length = h.sinkAt place := by
    simp [Holds.step, Holds.sinkAt, List.getD_eq_getElem?_getD]
  have hcopy : (h.step (.copy place)).2.set h.holds.length = set :=
    (congrArg h.sinks.get hlast).trans hset
  refine ⟨?_, fun unit => ?_, ?_⟩
  · rw [← hset, Holds.step]
  · rw [← hset, Holds.step]
  · rw [← hcopy, Holds.step]

/-! ### Order -/

/-- The units of all sets come in order. -/
def Ordered (s : Sinks) : Prop := ∀ set ∈ s.sets, set.Ordered

variable {s : Sinks}

theorem Ordered.get (h : s.Ordered) (k : Sink) : (s.get k).Ordered := by
  rw [Sinks.get, List.getD_eq_getElem?_getD]
  cases hset : s.sets[k.index]? with
  | none => exact UnitSet.ordered_empty
  | some set => exact h set (List.mem_of_getElem? hset)

theorem Ordered.put (h : s.Ordered) (k : Sink) {set : UnitSet} (hs : set.Ordered) :
    (s.put k set).Ordered := by
  intro t ht
  rcases List.mem_or_eq_of_mem_set ht with ht | rfl
  · exact h t ht
  · exact hs

/-- Whatever holders do, the sets stay in order. -/
theorem Ordered.step {h : Holds} (ho : h.sinks.Ordered) (st : Step) :
    (h.step st).2.sinks.Ordered := by
  cases st with
  | record place unit => exact ho.put _ ((ho.get _).insert unit)
  | take place => exact ho.put _ UnitSet.ordered_empty
  | new =>
    exact List.forall_mem_append.mpr ⟨ho, List.forall_mem_singleton.mpr UnitSet.ordered_empty⟩
  | contains | size | isEmpty | snapshot | copy => exact ho

end Sinks

/-- What a call is to put on record: its target, unless it is for artifacts that exist once. -/
def EmitCall.recorded? (c : EmitCall ρ) : Option Path :=
  if c.flags.isPassThrough then none else c.target

theorem EmitCall.recorded?_eq_some_iff {c : EmitCall ρ} {unit : Path} :
    c.recorded? = some unit ↔
      c.flags.declarationsOnly = false ∧ c.flags.buildInfoOnly = false ∧ c.target = some unit := by
  unfold recorded? EmitFlags.isPassThrough
  split
  · rename_i hpass
    rw [Bool.or_eq_true] at hpass
    rcases hpass with h | h <;> simp [h]
  · rename_i hsource
    rw [Bool.not_eq_true, Bool.or_eq_false_iff] at hsource
    simp [hsource]

/-- What happens to a sink if a unit may be recorded there: nothing else. -/
def MayRecord (k : Sink) (unit? : Option Path) (w w' : World σ) : Prop :=
  w'.sinks.get? k = w.sinks.get? k ∨
    w'.sinks.get? k = (w.sinks.get? k).map (·.insertAll unit?.toList)

namespace MayRecord

variable {k : Sink} {unit? : Option Path} {u v w : World σ}

/-- A unit that is on record is not recorded again. -/
theorem of_recorded (h : MayRecord k unit? v w)
    (hv : v.sinks.get? k = (u.sinks.get? k).map (·.insertAll unit?.toList)) :
    w.sinks.get? k = (u.sinks.get? k).map (·.insertAll unit?.toList) := by
  rcases h with h | h
  · rw [h, hv]
  · rw [h, hv, Option.map_map]
    cases unit? <;> simp [Function.comp_def, UnitSet.insertAll]

theorem trans (h : MayRecord k unit? u v) (h' : MayRecord k unit? v w) :
    MayRecord k unit? u w := by
  rcases h with h | h
  · unfold MayRecord at h' ⊢
    rwa [← h]
  · exact Or.inr (h'.of_recorded h)

end MayRecord

/-! ## Calls -/

theorem World.get?_record (w : World σ) (sink : Option Sink) (target : Option Path) (k : Sink) :
    (w.record sink target).sinks.get? k =
      if sink = some k then (w.sinks.get? k).map (·.insertAll target.toList)
      else w.sinks.get? k := by
  unfold World.record
  split
  · rename_i j unit
    rw [Sinks.get?_record]
    simp [UnitSet.insertAll]
  · rename_i hnone
    cases sink with
    | none => simp
    | some j =>
      cases target with
      | none => simp [UnitSet.insertAll]
      | some unit => exact absurd rfl (hnone j unit rfl)

theorem World.record_mayRecord (w : World σ) (sink : Option Sink) (target : Option Path)
    (k : Sink) : MayRecord k target w (w.record sink target) := by
  rw [MayRecord, get?_record]
  split
  · exact Or.inr rfl
  · exact Or.inl rfl

section Emit

variable {k : Sink}

theorem emitEach_mayRecord {emit : EmitCall ρ → Host σ → World σ →
      Except BuildError EmitResult × World σ}
    (he : ∀ call host w, MayRecord k call.recorded? w (emit call host w).2) (call : EmitCall ρ)
    (host : Host σ) (vs : List ResolvedVariant) (w : World σ) :
    MayRecord k call.recorded? w (emitEach emit call host vs w).2 := by
  induction vs generalizing w with
  | nil => exact Or.inl rfl
  | cons v rest ih =>
    -- the call for a variant is to record what the call itself is
    have hv := he (call.forVariant v) (host.withOptions v.options) w
    unfold emitEach
    split
    · rename_i e w' hemit
      rw [hemit] at hv
      exact hv
    · rename_i r w' hemit
      rw [hemit] at hv
      refine hv.trans ?_
      have hrest := ih w'
      split <;> rename_i heq <;> rwa [heq] at hrest

/-- **A call records its target or nothing,** whatever fan-outs the entry point is made of. -/
theorem EntryPoint.emit_mayRecord (e : EntryPoint ρ σ) (call : EmitCall ρ) (host : Host σ)
    (w : World σ) : MayRecord k call.recorded? w (e.emit call host w).2 := by
  induction e generalizing call host w with
  | emitter address run => exact Or.inl rfl
  | fanOut address inner registry sink ih =>
    rw [EntryPoint.emit]
    split
    · exact ih call host w
    · rename_i hsource
      have hrecorded : call.recorded? = call.target := if_neg hsource
      have heach := emitEach_mayRecord ih call host registry.variants (w.record sink call.target)
      have hall := (hrecorded ▸ w.record_mayRecord sink call.target k :
        MayRecord k call.recorded? w _).trans heach
      split <;> rename_i heq <;> rwa [heq] at hall

/-- A call of a fan-out puts its target on record, also where it fails. -/
theorem EntryPoint.get?_emit_fanOut (address : Nat) (inner : EntryPoint ρ σ) (r : Registry)
    (call : EmitCall ρ) (host : Host σ) (w : World σ) :
    ((EntryPoint.fanOut address inner r (some k)).emit call host w).2.sinks.get? k =
      (w.sinks.get? k).map (·.insertAll call.recorded?.toList) := by
  rw [EntryPoint.emit]
  split
  · rename_i hpass
    have hrecorded : call.recorded? = none := if_pos hpass
    have hinner := inner.emit_mayRecord (k := k) call host w
    rw [hrecorded] at hinner ⊢
    rcases hinner with h | h
    · rw [h]
      simp [UnitSet.insertAll]
    · exact h
  · rename_i hsource
    have hrecorded : call.recorded? = call.target := if_neg hsource
    have heach := emitEach_mayRecord (fun call host w => inner.emit_mayRecord (k := k) call host w)
      call host r.variants (w.record (some k) call.target)
    have hall := heach.of_recorded (u := w) (by rw [World.get?_record, if_pos rfl, hrecorded])
    split <;> rename_i heq <;> rwa [heq] at hall

/-! ## Runs -/

/-- **A run of a fan-out leaves in its sink what its calls recorded,** as long as nothing else
touches the sink. -/
theorem EntryPoint.Runs.get?_sink {address : Nat} {inner : EntryPoint ρ σ} {r : Registry}
    {moves : World σ → World σ → Prop}
    (hm : ∀ {u v}, moves u v → v.sinks.get? k = u.sinks.get? k) {w w' : World σ}
    {calls : List (Invocation ρ σ)}
    (h : (EntryPoint.fanOut address inner r (some k)).Runs moves w calls w') :
    w'.sinks.get? k =
      (w.sinks.get? k).map (·.insertAll (calls.filterMap (·.call.recorded?))) := by
  induction h with
  | done w => simp [UnitSet.insertAll]
  | aside hmv _ ih => rw [ih, hm hmv]
  | @call i calls w hemit _ ih =>
    have hcall := get?_emit_fanOut (k := k) address inner r i.call i.host i.before
    rw [hemit] at hcall
    rw [ih, hcall, Option.map_map]
    congr 1
    funext set
    cases hrec : i.call.recorded? <;> simp [UnitSet.insertAll, hrec]

end Emit

end Fanout
