import Fanout.Proofs.Changed.Recording
import Mathlib.Data.Finset.Card
import Mathlib.Data.List.Sort

/-!
# Sinks as groups that share a log

`Groups` is what holders of sinks may think of: each of them belongs to a group, and a group has a
log of the units that its holders recorded since one of them took them.  A copy joins the group of
the hold that was copied, and a new hold starts a group.  `Groups.Answers` tells from the log how a
step is answered:

* a unit is known if a spelling of it is in the log, and it is new if none is;
* there are as many units as different lists of components (`unitCount`);
* units are listed in the order of their components, each as it was spelled first (`Lists`).

A step looks at the log of one group and changes no other.  `Matches` relates such groups to holds
and the sets behind them, and `Matches.step` is what one step keeps.  The main result,
`answers_iff_follows`, says that every history of holds is answered so, and not otherwise.
-/

set_option autoImplicit false

namespace Fanout.Sinks

/-! ## Logs -/

/-- This spelling of a unit is in a log, and no other spelling of the unit was recorded before. -/
def FirstSpelling (log : List Path) (p : Path) : Prop :=
  ∃ before after, log = before ++ p :: after ∧ ∀ q ∈ before, q.same p = false

/-- The units of a log in order, each as it was spelled first. -/
structure Lists (log units : List Path) : Prop where
  ordered : units.Pairwise fun p q => p.Before q ∧ p.same q = false
  mem_iff : ∀ p, p ∈ units ↔ FirstSpelling log p

/-- How many units are in a log, spellings of one unit counting as one. -/
def unitCount (log : List Path) : Nat := (log.map Path.components).toFinset.card

variable {log : List Path} {p u : Path}

theorem FirstSpelling.mem (h : FirstSpelling log p) : p ∈ log := by
  obtain ⟨before, after, rfl, -⟩ := h
  exact List.mem_append_right _ List.mem_cons_self

theorem firstSpelling_concat_iff :
    FirstSpelling (log ++ [u]) p ↔
      FirstSpelling log p ∨ p = u ∧ ∀ q ∈ log, q.same u = false := by
  constructor
  · rintro ⟨before, after, hlog, hnew⟩
    rcases List.eq_nil_or_concat after with rfl | ⟨init, x, rfl⟩
    · obtain ⟨rfl, hu⟩ := List.append_inj' hlog rfl
      obtain rfl : u = p := by simpa using hu
      exact Or.inr ⟨rfl, hnew⟩
    · left
      rw [List.concat_eq_append, ← List.cons_append, ← List.append_assoc] at hlog
      exact ⟨before, init, (List.append_inj' hlog rfl).1, hnew⟩
  · rintro (⟨before, after, rfl, hnew⟩ | ⟨rfl, hnew⟩)
    · exact ⟨before, after ++ [u], by simp, hnew⟩
    · exact ⟨log, [], rfl, hnew⟩

theorem contains_insertAll_empty_iff :
    (UnitSet.empty.insertAll log).contains u = true ↔ ∃ q ∈ log, q.same u = true := by
  rw [UnitSet.contains_insertAll_iff]
  exact ⟨fun h => h.resolve_left (by simp [UnitSet.contains]), Or.inr⟩

theorem isEmpty_insertAll_empty_iff :
    (UnitSet.empty.insertAll log).isEmpty = true ↔ log = [] := by
  constructor
  · intro hbare
    have hunits : (UnitSet.empty.insertAll log).units = [] := List.isEmpty_iff.mp hbare
    rw [List.eq_nil_iff_forall_not_mem]
    intro u hu
    have hknown := contains_insertAll_empty_iff.mpr ⟨u, hu, beq_self_eq_true u.components⟩
    rw [UnitSet.contains, hunits] at hknown
    cases hknown
  · rintro rfl
    rfl

/-- Inserting one after the other keeps the first spellings. -/
theorem mem_insertAll_empty_iff :
    p ∈ (UnitSet.empty.insertAll log).units ↔ FirstSpelling log p := by
  induction log using List.reverseRecOn with
  | nil =>
    constructor
    · intro h
      simp [UnitSet.insertAll] at h
    · intro h
      exact absurd h.mem List.not_mem_nil
  | append_singleton log u ih =>
    have hnew : (UnitSet.empty.insertAll log).contains u = false ↔
        ∀ q ∈ log, q.same u = false := by
      rw [← Bool.not_eq_true, contains_insertAll_empty_iff]
      simp
    rw [UnitSet.insertAll_concat, (UnitSet.ordered_empty.insertAll log).mem_insert_iff, ih, hnew,
      firstSpelling_concat_iff]

theorem lists_insertAll_empty (log : List Path) :
    Lists log (UnitSet.empty.insertAll log).units where
  ordered := (UnitSet.ordered_empty.insertAll log).imp fun {p q} hlt =>
    ⟨Path.compare_eq_lt_iff.mp hlt, by
      rw [Bool.eq_false_iff, Ne, ← Path.compare_eq_iff, hlt]
      nofun⟩
  mem_iff _ := mem_insertAll_empty_iff

/-- A log is listed in one way. -/
theorem Lists.unique {units units' : List Path} (h : Lists log units) (h' : Lists log units') :
    units = units' := by
  have hordered : units.Pairwise Path.Before := h.ordered.imp fun hpq => hpq.1
  have hordered' : units'.Pairwise Path.Before := h'.ordered.imp fun hpq => hpq.1
  apply hordered.eq_of_mem_iff hordered'
  intro p
  rw [h.mem_iff, h'.mem_iff]

/-- As many units are listed as there are. -/
theorem Lists.length_eq {units : List Path} (h : Lists log units) :
    units.length = unitCount log := by
  have hnodup : (units.map Path.components).Nodup := by
    refine (List.pairwise_map.mpr (h.ordered.imp fun hpq heq => ?_))
    simp [Path.same, heq] at hpq
  have hset : (units.map Path.components).toFinset = (log.map Path.components).toFinset := by
    ext c
    simp only [List.mem_toFinset, List.mem_map]
    constructor
    · rintro ⟨p, hp, rfl⟩
      exact ⟨p, ((h.mem_iff p).mp hp).mem, rfl⟩
    · rintro ⟨q, hq, rfl⟩
      -- the unit is in the set under some spelling, and the set lists what is listed here
      have hknown : (UnitSet.empty.insertAll log).contains q = true :=
        contains_insertAll_empty_iff.mpr ⟨q, hq, beq_self_eq_true _⟩
      obtain ⟨p, hp, hsame⟩ := List.any_eq_true.mp hknown
      rw [(lists_insertAll_empty log).unique h] at hp
      have hqp := Path.compare_eq_iff.mp (beq_iff_eq.mp hsame)
      exact ⟨p, hp, (beq_iff_eq.mp hqp).symm⟩
  rw [unitCount, ← hset, List.toFinset_card_of_nodup hnodup, List.length_map]

/-! ## Groups -/

/-- Holders, each in a group, and what the holders of each group recorded. -/
structure Groups where
  /-- The group of each holder. -/
  groupOf : List Nat
  /-- The number of groups. -/
  count : Nat
  /-- The units that a group recorded since they were taken, oldest first. -/
  log : Nat → List Path

namespace Groups

/-- One holder in a group that recorded nothing. -/
def initial : Groups := ⟨[0], 1, fun _ => []⟩

def groupAt (g : Groups) (place : Nat) : Nat := g.groupOf.getD place 0

def logAt (g : Groups) (place : Nat) : List Path := g.log (g.groupAt place)

def step (g : Groups) : Step → Groups
  | .record place unit =>
    { g with log := Function.update g.log (g.groupAt place) (g.logAt place ++ [unit]) }
  | .take place => { g with log := Function.update g.log (g.groupAt place) [] }
  | .copy place => { g with groupOf := g.groupOf ++ [g.groupAt place] }
  | .new =>
    { groupOf := g.groupOf ++ [g.count]
      count := g.count + 1
      log := Function.update g.log g.count [] }
  | .contains _ _ | .size _ | .isEmpty _ | .snapshot _ => g

/-- What a step is answered. -/
def Answers (g : Groups) (answer : Answer) : Step → Prop
  | .record place unit => ∃ new, answer = .truth new ∧
      (new = true ↔ ∀ q ∈ g.logAt place, q.same unit = false)
  | .contains place unit => ∃ known, answer = .truth known ∧
      (known = true ↔ ∃ q ∈ g.logAt place, q.same unit = true)
  | .size place => answer = .count (unitCount (g.logAt place))
  | .isEmpty place => ∃ bare, answer = .truth bare ∧ (bare = true ↔ g.logAt place = [])
  | .snapshot place | .take place => ∃ units, answer = .units units ∧ Lists (g.logAt place) units
  | .copy _ | .new => answer = .done

/-- What the steps of a history are answered one after the other. -/
inductive Follows : Groups → List Step → List Answer → Prop
  | nil (g : Groups) : g.Follows [] []
  | cons {g : Groups} {st : Step} {steps : List Step} {answer : Answer} {answers : List Answer}
      (first : g.Answers answer st) (rest : (g.step st).Follows steps answers) :
      g.Follows (st :: steps) (answer :: answers)

/-- A step has one answer. -/
theorem Answers.unique {g : Groups} {st : Step} {a b : Answer} (ha : g.Answers a st)
    (hb : g.Answers b st) : a = b := by
  cases st with
  | record | contains | isEmpty =>
    obtain ⟨s, rfl, hs⟩ := ha
    obtain ⟨t, rfl, ht⟩ := hb
    rw [Bool.eq_iff_iff.mpr (hs.trans ht.symm)]
  | snapshot | take =>
    obtain ⟨us, rfl, hus⟩ := ha
    obtain ⟨vs, rfl, hvs⟩ := hb
    rw [hus.unique hvs]
  | size | copy | new => exact Eq.trans ha (Eq.symm hb)

/-- A history has one list of answers. -/
theorem Follows.unique {g : Groups} {steps : List Step} {as bs : List Answer}
    (ha : g.Follows steps as) (hb : g.Follows steps bs) : as = bs := by
  induction ha generalizing bs with
  | nil g =>
    cases hb
    rfl
  | cons first _ ih =>
    cases hb with
    | cons first' rest' => rw [first.unique first', ih rest']

end Groups

/-! ## Holds and groups -/

/-- The holds are those of the groups, and each set has what the log of its group amounts to. -/
structure Matches (h : Holds) (g : Groups) : Prop where
  holds : h.holds = g.groupOf.map Sink.mk
  sets : h.sinks.sets = (List.range g.count).map fun k => UnitSet.empty.insertAll (g.log k)
  groupAt_lt : ∀ place, g.groupAt place < g.count

theorem Matches.initial : Matches Holds.initial Groups.initial where
  holds := rfl
  sets := rfl
  groupAt_lt place := by
    cases place <;> simp [Groups.groupAt, Groups.initial]

section Step

variable {h : Holds} {g : Groups}

theorem Matches.sinkAt_eq (hm : Matches h g) (place : Nat) :
    h.sinkAt place = ⟨g.groupAt place⟩ := by
  unfold Holds.sinkAt Groups.groupAt
  rw [hm.holds, List.getD_eq_getElem?_getD, List.getD_eq_getElem?_getD, List.getElem?_map]
  cases g.groupOf[place]? <;> rfl

theorem Matches.set_eq (hm : Matches h g) (place : Nat) :
    h.set place = UnitSet.empty.insertAll (g.logAt place) := by
  have hlt := hm.groupAt_lt place
  unfold Holds.set Sinks.get
  rw [hm.sinkAt_eq, hm.sets]
  simp [List.getD_eq_getElem?_getD, hlt, Groups.logAt]

/-- What is put in the place of one set is the log of one group, and no other. -/
theorem Matches.put (hm : Matches h g) (place : Nat) (log : List Path) :
    (h.sinks.put (h.sinkAt place) (UnitSet.empty.insertAll log)).sets =
      (List.range g.count).map fun k =>
        UnitSet.empty.insertAll (Function.update g.log (g.groupAt place) log k) := by
  unfold Sinks.put
  rw [hm.sinkAt_eq, hm.sets]
  apply List.ext_getElem?
  intro k
  rw [List.getElem?_set, List.length_map, List.length_range, List.getElem?_map,
    List.getElem?_map]
  by_cases hk : g.groupAt place = k
  · subst hk
    simp [hm.groupAt_lt place]
  · have hne : k ≠ g.groupAt place := fun heq => hk heq.symm
    simp only [if_neg hk]
    cases hr : (List.range g.count)[k]? with
    | none => rfl
    | some j =>
      obtain rfl : j = k := by
        obtain ⟨_, hj⟩ := List.getElem?_eq_some_iff.mp hr
        simpa using hj.symm
      simp [Function.update_of_ne hne]

/-- A holder that comes in addition is in a group that there is. -/
theorem Groups.groupAt_concat_lt {groupOf : List Nat} {count n : Nat} {log : Nat → List Path}
    (hlt : ∀ place, groupOf.getD place 0 < count) (hn : n < count) (place : Nat) :
    Groups.groupAt ⟨groupOf ++ [n], count, log⟩ place < count := by
  unfold Groups.groupAt
  rw [List.getD_eq_getElem?_getD, List.getElem?_append]
  split
  · rw [← List.getD_eq_getElem?_getD]
    exact hlt place
  · have hpos : 0 < count := by omega
    cases place - groupOf.length <;> simp [hn, hpos]

/-- **One step of holds is one step of groups,** and it is answered as the log says. -/
theorem Matches.step (hm : Matches h g) (st : Step) :
    g.Answers (h.step st).1 st ∧ Matches (h.step st).2 (g.step st) := by
  cases st with
  | record place unit =>
    refine ⟨⟨_, rfl, ?_⟩, ?_⟩
    · rw [hm.set_eq, Bool.not_eq_true', ← Bool.not_eq_true, contains_insertAll_empty_iff]
      simp
    · have hset : (h.sinks.get (h.sinkAt place)).insert unit =
          UnitSet.empty.insertAll (g.logAt place ++ [unit]) := by
        rw [UnitSet.insertAll_concat, ← hm.set_eq, Holds.set]
      refine ⟨hm.holds, ?_, hm.groupAt_lt⟩
      show (h.sinks.put _ ((h.sinks.get (h.sinkAt place)).insert unit)).sets = _
      rw [hset]
      exact hm.put place _
  | contains place unit =>
    refine ⟨⟨_, rfl, ?_⟩, hm⟩
    rw [hm.set_eq, contains_insertAll_empty_iff]
  | size place =>
    refine ⟨?_, hm⟩
    show Answer.count (h.set place).units.length = _
    rw [hm.set_eq, (lists_insertAll_empty _).length_eq]
  | isEmpty place =>
    refine ⟨⟨_, rfl, ?_⟩, hm⟩
    rw [hm.set_eq]
    exact isEmpty_insertAll_empty_iff
  | snapshot place =>
    refine ⟨⟨_, rfl, ?_⟩, hm⟩
    rw [hm.set_eq]
    exact lists_insertAll_empty _
  | take place =>
    refine ⟨⟨_, rfl, ?_⟩, hm.holds, hm.put place [], hm.groupAt_lt⟩
    show Lists _ (h.set place).units
    rw [hm.set_eq]
    exact lists_insertAll_empty _
  | copy place =>
    refine ⟨rfl, ?_, hm.sets, Groups.groupAt_concat_lt hm.groupAt_lt (hm.groupAt_lt place)⟩
    show h.holds ++ [h.sinkAt place] = (g.groupOf ++ [g.groupAt place]).map Sink.mk
    rw [hm.holds, hm.sinkAt_eq, List.map_append]
    rfl
  | new =>
    refine ⟨rfl, ?_, ?_, ?_⟩
    · show h.holds ++ [⟨h.sinks.sets.length⟩] = (g.groupOf ++ [g.count]).map Sink.mk
      simp [hm.holds, hm.sets]
    · show h.sinks.sets ++ [UnitSet.empty] = (List.range (g.count + 1)).map _
      rw [hm.sets, List.range_succ, List.map_append]
      refine congrArg₂ _ (List.map_congr_left fun k hk => ?_) ?_
      · have hne : k ≠ g.count := (List.mem_range.mp hk).ne
        simp [Groups.step, hne]
      · simp [Groups.step, UnitSet.insertAll]
    · exact Groups.groupAt_concat_lt (fun p => (hm.groupAt_lt p).trans (Nat.lt_succ_self _))
        (Nat.lt_succ_self _)

end Step

/-! ## Histories -/

/-- The answers to a history, and the holds after it. -/
def Holds.run (h : Holds) : List Step → List Answer × Holds
  | [] => ([], h)
  | st :: steps =>
    let (answer, h) := h.step st
    let (answers, h) := h.run steps
    (answer :: answers, h)

theorem Matches.follows {h : Holds} {g : Groups} (hm : Matches h g) (steps : List Step) :
    g.Follows steps (h.run steps).1 := by
  induction steps generalizing h g with
  | nil => exact .nil g
  | cons st steps ih =>
    obtain ⟨hanswer, hm'⟩ := hm.step st
    exact .cons hanswer (ih hm')

/-- **Sharing sinks is sharing logs:** whatever holders do, each answer is what the log of the
group says, and no other answers would do. -/
theorem answers_iff_follows (steps : List Step) (answers : List Answer) :
    Groups.initial.Follows steps answers ↔ answers = (Holds.initial.run steps).1 := by
  have hfollows := Matches.initial.follows steps
  constructor
  · intro h
    exact h.unique hfollows
  · rintro rfl
    exact hfollows

end Fanout.Sinks
