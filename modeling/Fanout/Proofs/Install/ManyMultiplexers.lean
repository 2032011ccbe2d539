import Fanout.Proofs.Install.Transitions
import Fanout.Proofs.Install.Visits
import Fanout.Proofs.Variant.Resolution

/-!
# Many multiplexers on many compilers

On a bench of several multiplexers, one comes to a compiler when its active handle becomes that of
the compiler, and leaves it when it stops being so; `Bench.visits` reads this off a history.  These
are the installations and uninstallations that are not refused (`visitsTo_install`,
`visitsTo_uninstall`).  `Tracked` relates a bench to the visits that one of its compilers has had,
as `Visited` describes them; a regular step keeps it (`Tracked.moved`), and so does a whole history
(`Tracked.run`).

* `run_restores_iff_balanced`: after any history a compiler holds the entry point that it started
  with exactly if its visits are balanced, and otherwise a fan-out that somebody left around it.
* `interleaved_leaves_fanOut`: two multiplexers that leave in the order in which they came are such
  a case, with nobody left to take the fan-out away.
-/

set_option autoImplicit false

namespace Fanout

variable {ρ σ : Type}

/-- What a multiplexer has saved of the compiler with a handle. -/
def Multiplexer.savedOf (handle : Handle) : Multiplexer ρ σ → Option (EntryPoint ρ σ)
  | uninstalled => none
  | installed h saved _ => if h = handle then some saved else none

/-- The visit that shows in whether a multiplexer was and is on a compiler. -/
def Visit.seen? (mux : Nat) : Bool → Bool → Option Visit
  | false, true => some (.came mux)
  | true, false => some (.left mux)
  | _, _ => none

namespace Bench

/-- Whether the multiplexer at a place is installed on the compiler with a handle. -/
def isOn (b : Bench ρ σ) (handle : Handle) (mux : Nat) : Bool :=
  b.multiplexers[mux]?.bind (·.handle?) == some handle

/-- The visits to the compiler with a handle between two states. -/
def visitsTo (before after : Bench ρ σ) (handle : Handle) : List Visit :=
  (List.range before.multiplexers.length).filterMap fun mux =>
    Visit.seen? mux (before.isOn handle mux) (after.isOn handle mux)

/-- The visits to the compiler with a handle in a history. -/
def visits (b : Bench ρ σ) (handle : Handle) : List (Step ρ σ) → List Visit
  | [] => []
  | s :: rest => b.visitsTo (b.step s).2 handle ++ (b.step s).2.visits handle rest

/-- What every multiplexer has saved of the compiler with a handle. -/
def savedOf (b : Bench ρ σ) (handle : Handle) (mux : Nat) : Option (EntryPoint ρ σ) :=
  b.multiplexers[mux]?.bind (·.savedOf handle)

/-! ## What a step shows -/

theorem isOn_eq (b : Bench ρ σ) (handle : Handle) (mux : Nat) :
    b.isOn handle mux = (b.savedOf handle mux).isSome := by
  unfold isOn savedOf
  cases b.multiplexers[mux]? with
  | none => rfl
  | some m =>
    cases m with
    | uninstalled => rfl
    | installed h saved registry =>
      by_cases hh : h = handle <;> simp [Multiplexer.handle?, Multiplexer.savedOf, hh]

theorem savedOf_set {b b' : Bench ρ σ} {mux : Nat} {m m' : Multiplexer ρ σ}
    (hm : b.multiplexers[mux]? = some m) (hb : b'.multiplexers = b.multiplexers.set mux m')
    (handle : Handle) :
    b'.savedOf handle = Function.update (b.savedOf handle) mux (m'.savedOf handle) := by
  have hlt := (List.getElem?_eq_some_iff.mp hm).1
  funext other
  unfold savedOf
  rw [hb]
  by_cases ho : other = mux
  · subst ho
    simp [List.getElem?_set_self hlt]
  · rw [Function.update_of_ne ho, List.getElem?_set_ne (Ne.symm ho)]

/-- Where one place in a range counts, it is the only one found. -/
theorem filterMap_range_single {α : Type} {f : Nat → Option α} {k n : Nat} (hk : k < n)
    (hf : ∀ i, i ≠ k → f i = none) : (List.range n).filterMap f = (f k).toList := by
  induction n with
  | zero => omega
  | succ n ih =>
    rw [List.range_succ, List.filterMap_append]
    by_cases hn : k = n
    · subst hn
      have hnone : (List.range k).filterMap f = [] := by
        rw [List.filterMap_eq_nil_iff]
        intro i hi
        exact hf i (Nat.ne_of_lt (List.mem_range.mp hi))
      rw [hnone]
      cases hfk : f k <;> simp [hfk]
    · rw [ih (by omega)]
      simp [hf n (Ne.symm hn)]

theorem visitsTo_of_update {b b' : Bench ρ σ} {handle : Handle} {mux : Nat}
    {m : Multiplexer ρ σ} {saved? : Option (EntryPoint ρ σ)}
    (hm : b.multiplexers[mux]? = some m)
    (hb : b'.savedOf handle = Function.update (b.savedOf handle) mux saved?) :
    b.visitsTo b' handle =
      (Visit.seen? mux (b.savedOf handle mux).isSome saved?.isSome).toList := by
  unfold visitsTo
  rw [filterMap_range_single (List.getElem?_eq_some_iff.mp hm).1]
  · rw [isOn_eq, isOn_eq, hb, Function.update_self]
  · intro other ho
    rw [isOn_eq, isOn_eq, hb, Function.update_of_ne ho]
    cases b.savedOf handle other <;> rfl

theorem visitsTo_of_eq {b b' : Bench ρ σ} {handle : Handle}
    (hb : b'.savedOf handle = b.savedOf handle) : b.visitsTo b' handle = [] := by
  unfold visitsTo
  rw [List.filterMap_eq_nil_iff]
  intro mux _
  rw [isOn_eq, isOn_eq, hb]
  cases b.savedOf handle mux <;> rfl

/-- An installation that is not refused is how a multiplexer comes to a compiler. -/
theorem visitsTo_install {b : Bench ρ σ} {mux place : Nat} {c : Compiler ρ σ}
    (free : b.multiplexers[mux]? = some .uninstalled) (found : b.compilers[place]? = some c)
    (registry : Registry) (sink : Option Sink) (handle : Handle) :
    b.visitsTo (b.step (.install mux place registry sink)).2 handle =
      if c.handle = handle then [.came mux] else [] := by
  have hms : (b.step (.install mux place registry sink)).2.multiplexers =
      b.multiplexers.set mux (.installed c.handle c.slot registry) := by
    rw [step_install_of_free free found]
    rfl
  have hfree : b.savedOf handle mux = none := by
    rw [savedOf, free]
    rfl
  rw [visitsTo_of_update free (savedOf_set free hms handle), hfree, Multiplexer.savedOf]
  split <;> rfl

/-- An uninstallation that is not refused is how it leaves. -/
theorem visitsTo_uninstall {b : Bench ρ σ} {mux place : Nat} {c : Compiler ρ σ}
    {saved : EntryPoint ρ σ} {registry : Registry}
    (active : b.multiplexers[mux]? = some (.installed c.handle saved registry))
    (found : b.compilers[place]? = some c) (handle : Handle) :
    b.visitsTo (b.step (.uninstall mux place)).2 handle =
      if c.handle = handle then [.left mux] else [] := by
  have hms : (b.step (.uninstall mux place)).2.multiplexers =
      b.multiplexers.set mux .uninstalled := by
    rw [step_uninstall_of_installed active found]
    rfl
  have hactive : b.savedOf handle mux = if c.handle = handle then some saved else none := by
    rw [savedOf, active]
    rfl
  rw [visitsTo_of_update active (savedOf_set active hms handle), hactive]
  split <;> rfl

/-! ## The visits of a history -/

/-- A bench, seen from the compiler at a place, after visits. -/
structure Tracked (start : Bench ρ σ) (place : Nat) (c₀ : Compiler ρ σ) (vs : List Visit)
    (b : Bench ρ σ) : Prop where
  handles : b.compilers.map (·.handle) = start.compilers.map (·.handle)
  visited : ∃ c, b.compilers[place]? = some c ∧ c.handle = c₀.handle ∧
    Visited c₀.slot vs c.slot (b.savedOf c₀.handle)

/-- A step that does nothing to the compiler is no visit. -/
theorem Tracked.unvisited {start b b' : Bench ρ σ} {place : Nat} {c₀ : Compiler ρ σ}
    {vs : List Visit} (h : Tracked start place c₀ vs b)
    (handles : b'.compilers.map (·.handle) = b.compilers.map (·.handle))
    (same : b'.compilers[place]? = b.compilers[place]?)
    (saved : b'.savedOf c₀.handle = b.savedOf c₀.handle) :
    Tracked start place c₀ (vs ++ b.visitsTo b' c₀.handle) b' := by
  obtain ⟨c, hc, hh, hv⟩ := h.visited
  refine ⟨handles.trans h.handles, c, same.trans hc, hh, ?_⟩
  rw [visitsTo_of_eq saved, List.append_nil, saved]
  exact hv

/-- **What one step does is a visit or leaves the compiler alone.** -/
theorem Tracked.moved {start b b' : Bench ρ σ} {place : Nat} {c₀ : Compiler ρ σ}
    {vs : List Visit} (hd : (start.compilers.map (·.handle)).Nodup) (hm : b.Moved b')
    (h : Tracked start place c₀ vs b) :
    Tracked start place c₀ (vs ++ b.visitsTo b' c₀.handle) b' := by
  obtain ⟨c, hc, hh, hv⟩ := h.visited
  have hdb : (b.compilers.map (·.handle)).Nodup := h.handles ▸ hd
  cases hm with
  | kept hcs hms hn =>
    refine h.unvisited (by rw [hcs]) (by rw [hcs]) ?_
    funext mux
    rw [savedOf, savedOf, hms]
  | @installed mux compiler d registry sink free found hcs hms hn =>
    have hsaved := savedOf_set free hms c₀.handle
    have hhandles := hcs ▸ map_handle_set found (.fanOut b.nextAddress d.slot registry sink)
    have hfree : b.savedOf c₀.handle mux = none := by
      rw [savedOf, free]
      rfl
    by_cases hp : compiler = place
    · subst hp
      obtain rfl : d = c := Option.some.inj (found.symm.trans hc)
      have hkeeps : (Multiplexer.installed d.handle d.slot registry).savedOf c₀.handle =
          some d.slot := if_pos hh
      rw [hkeeps] at hsaved
      rw [visitsTo_of_update free hsaved, hfree]
      refine ⟨hhandles.trans h.handles,
        { d with slot := .fanOut b.nextAddress d.slot registry sink }, ?_, hh, ?_⟩
      · rw [hcs, List.getElem?_set_self (List.getElem?_eq_some_iff.mp found).1]
      · rw [hsaved]
        exact hv.came hfree b.nextAddress registry sink
    · -- the multiplexer has come to another compiler, which its handle tells
      have hother : d.handle ≠ c₀.handle :=
        fun he => hp (place_eq_of_handle hdb found hc (he.trans hh.symm))
      have hkeeps : (Multiplexer.installed d.handle d.slot registry).savedOf c₀.handle = none :=
        if_neg hother
      refine h.unvisited hhandles (by rw [hcs, List.getElem?_set_ne hp]) ?_
      rw [hsaved, hkeeps, ← hfree, Function.update_eq_self]
  | @restored mux compiler d kept registry active found hcs hms hn =>
    have hsaved := savedOf_set active hms c₀.handle
    have hhandles := hcs ▸ map_handle_set found kept
    by_cases hp : compiler = place
    · subst hp
      obtain rfl : d = c := Option.some.inj (found.symm.trans hc)
      have hholds : b.savedOf c₀.handle mux = some kept := by
        rw [savedOf, active]
        exact if_pos hh
      rw [visitsTo_of_update active hsaved, hholds]
      refine ⟨hhandles.trans h.handles, { d with slot := kept }, ?_, hh, ?_⟩
      · rw [hcs, List.getElem?_set_self (List.getElem?_eq_some_iff.mp found).1]
      · rw [hsaved]
        exact hv.left hholds
    · have hother : d.handle ≠ c₀.handle :=
        fun he => hp (place_eq_of_handle hdb found hc (he.trans hh.symm))
      have hnothing : b.savedOf c₀.handle mux = none := by
        rw [savedOf, active]
        exact if_neg hother
      refine h.unvisited hhandles (by rw [hcs, List.getElem?_set_ne hp]) ?_
      rw [hsaved]
      exact (congrArg _ hnothing.symm).trans (Function.update_eq_self mux _)

theorem Tracked.run {start b : Bench ρ σ} {place : Nat} {c₀ : Compiler ρ σ} {vs : List Visit}
    (hd : (start.compilers.map (·.handle)).Nodup) {steps : List (Step ρ σ)}
    (hs : ∀ s ∈ steps, s.Regular) (h : Tracked start place c₀ vs b) :
    Tracked start place c₀ (vs ++ b.visits c₀.handle steps) (b.run steps).2 := by
  induction steps generalizing b vs with
  | nil =>
    rw [visits, List.append_nil]
    exact h
  | cons s rest ih =>
    have hstep := h.moved hd (b.step_moved (hs s List.mem_cons_self))
    have hrest := ih (fun t ht => hs t (List.mem_cons_of_mem _ ht)) hstep
    rw [List.append_assoc] at hrest
    exact hrest

/-- **A compiler is restored exactly by balanced visits.**  Whatever several multiplexers do on
several compilers, in any order: a compiler keeps its handle, and its slot holds the entry point
that it started with, inside no, one or more fan-outs.  There is no fan-out left exactly if the
visits of the multiplexers to it fall into stretches, each from the coming of one multiplexer to its
next leaving. -/
theorem run_restores_iff_balanced {start : Bench ρ σ} {steps : List (Step ρ σ)}
    (hm : ∀ m ∈ start.multiplexers, m = .uninstalled)
    (hd : (start.compilers.map (·.handle)).Nodup) (hs : ∀ s ∈ steps, s.Regular)
    {place : Nat} {c₀ : Compiler ρ σ} (hc : start.compilers[place]? = some c₀) :
    ∃ c, (start.run steps).2.compilers[place]? = some c ∧ c.handle = c₀.handle ∧
      c₀.slot.Around c.slot ∧ (c.slot = c₀.slot ↔ Balanced (start.visits c₀.handle steps)) := by
  have hnothing : start.savedOf c₀.handle = fun _ => none := by
    funext mux
    unfold savedOf
    cases hmux : start.multiplexers[mux]? with
    | none => rfl
    | some m =>
      rw [hm m (List.mem_of_getElem? hmux)]
      rfl
  have hstart : Tracked start place c₀ [] start := ⟨rfl, c₀, hc, rfl, hnothing ▸ .start⟩
  obtain ⟨c, hfound, hh, hv⟩ := (hstart.run hd hs).visited
  exact ⟨c, hfound, hh, hv.around, hv.eq_iff_balanced⟩

/-- A compiler with an entry point that does nothing, and two multiplexers. -/
def twoMultiplexers : Bench Unit Unit where
  compilers := [⟨⟨1⟩, .emitter 0 fun _ _ s => (.ok {}, s)⟩]
  multiplexers := [.uninstalled, .uninstalled]
  world := ⟨{}, ()⟩
  nextAddress := 1

/-- The second multiplexer comes while the first is there, and leaves before it. -/
def nested : List (Step Unit Unit) :=
  [.install 0 0 .pair none, .install 1 0 .pair none, .uninstall 1 0, .uninstall 0 0]

/-- The second multiplexer comes while the first is there, and leaves after it. -/
def interleaved : List (Step Unit Unit) :=
  [.install 0 0 .pair none, .install 1 0 .pair none, .uninstall 0 0, .uninstall 1 0]

/-- Whoever comes last leaves first: the compiler is as it was. -/
theorem run_nested :
    (∀ m ∈ twoMultiplexers.multiplexers, m = .uninstalled) ∧
      (twoMultiplexers.compilers.map (·.handle)).Nodup ∧ (∀ s ∈ nested, s.Regular) ∧
      ∃ c₀ c, twoMultiplexers.compilers[0]? = some c₀ ∧
        (twoMultiplexers.run nested).2.compilers[0]? = some c ∧ c.slot = c₀.slot := by
  have hm : ∀ m ∈ twoMultiplexers.multiplexers, m = .uninstalled := by simp [twoMultiplexers]
  have hd : (twoMultiplexers.compilers.map (·.handle)).Nodup := by decide
  have hs : ∀ s ∈ nested, s.Regular := by simp [nested, Step.Regular]
  have hstart : twoMultiplexers.compilers[0]? =
      some ⟨⟨1⟩, .emitter 0 fun _ _ s => (.ok {}, s)⟩ := rfl
  have hvisits : twoMultiplexers.visits ⟨1⟩ nested =
      [.came 0, .came 1, .left 1, .left 0] := by decide
  have haway : ∀ v ∈ [Visit.came 1, .left 1], v.mux ≠ 0 := by decide
  have hbalanced : Balanced (twoMultiplexers.visits ⟨1⟩ nested) := by
    rw [hvisits]
    exact .stretch .nil haway
  obtain ⟨c, hc, -, -, hiff⟩ := run_restores_iff_balanced hm hd hs hstart
  exact ⟨hm, hd, hs, _, c, hstart, hc, hiff.mpr hbalanced⟩

/-- Whoever comes first leaves first: no multiplexer is installed any more, and the compiler is
left with the fan-out of the first. -/
theorem interleaved_leaves_fanOut :
    (∀ m ∈ twoMultiplexers.multiplexers, m = .uninstalled) ∧
      (twoMultiplexers.compilers.map (·.handle)).Nodup ∧ (∀ s ∈ interleaved, s.Regular) ∧
      (∀ m ∈ (twoMultiplexers.run interleaved).2.multiplexers, m.handle? = none) ∧
      ∃ c₀ c, twoMultiplexers.compilers[0]? = some c₀ ∧
        (twoMultiplexers.run interleaved).2.compilers[0]? = some c ∧
        c.handle = c₀.handle ∧ c.slot ≠ c₀.slot := by
  have hlast : (twoMultiplexers.run interleaved).2.multiplexers =
      [.uninstalled, .uninstalled] := rfl
  refine ⟨by simp [twoMultiplexers], by decide, by simp [interleaved, Step.Regular], ?_,
    _, _, rfl, rfl, rfl, nofun⟩
  rw [hlast]
  simp [Multiplexer.handle?]

end Bench

end Fanout
