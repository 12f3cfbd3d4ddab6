import Mathlib.Tactic.Choose
import ReleaseWeaver.Proofs.Tracking.Handover
import ReleaseWeaver.Proofs.Tracking.Releasing

/-
  The order in which containers are released. Where each teardown but the first hands over to the
  one before it, a run that leaves the last of them has released the containers of all of them, the
  first one's first, each in one step and with all its entries. Main statement:
  `Program.Passes.drainsInOrder`.
-/

namespace ReleaseWeaver

/-- Only the last instruction returns. -/
def Body.LeavesLast (b : Body) : Prop := ∀ i ∈ b.instrs.dropLast, i.isRet = false

instance (b : Body) : Decidable b.LeavesLast :=
  inferInstanceAs (Decidable (∀ i ∈ b.instrs.dropLast, i.isRet = false))

namespace Machine

open Program

variable {p : Program} {memory m : Memory} {request : Request} {states : List State}
  {progress start : Progress} {s s' : State} {i : Nat}

theorem Frame.last_of_ret {f : Frame} (leaves : f.body.LeavesLast)
    (here : f.current? = some .ret) : f.position + 1 = f.body.length := by
  obtain ⟨name, line⟩ := Frame.current?_eq_some.1 here
  obtain ⟨inside, _⟩ := List.getElem?_eq_some_iff.1 line
  have inside : f.position < f.body.length := inside
  by_contra early
  have listed : Instr.ret ∈ f.body.instrs.dropLast := by
    refine List.mem_of_getElem? (i := f.position) ?_
    rw [List.getElem?_dropLast, if_pos, Body.instrs, List.getElem?_map, line]
    · rfl
    · rw [Body.instrs, List.length_map]
      show f.position < f.body.length - 1
      omega
  cases leaves _ listed

/-! ## Steps of a run -/

theorem Program.Passes.head {rest : List State} (passes : p.Passes start (s :: rest) progress) :
    start = .running s := by
  have parts : s :: rest = [] ++ s :: rest := rfl
  obtain ⟨first, _⟩ := passes.split parts
  generalize same : Progress.running s = last at first
  generalize none : ([] : List State) = states at first
  cases first with
  | start => rfl
  | step => simp at none

theorem Program.Passes.next (passes : p.Passes start states progress)
    (here : states[i]? = some s) (there : states[i + 1]? = some s') : p.step s = .running s' := by
  obtain ⟨inside, eq⟩ := List.getElem?_eq_some_iff.1 here
  obtain ⟨inside', eq'⟩ := List.getElem?_eq_some_iff.1 there
  have parts : states = states.take i ++ s :: s' :: states.drop (i + 2) := by
    rw [← eq, ← eq', List.getElem_cons_drop, List.getElem_cons_drop, List.take_append_drop]
  exact (passes.split parts).2.head

theorem Program.Passes.last (passes : p.Passes start states progress)
    (here : states.getLast? = some s) : progress = p.step s := by
  cases passes with
  | start => cases here
  | step =>
    rw [List.getLast?_concat] at here
    cases here
    rfl

/-- What is not so at first and lasts begins somewhere. -/
theorem exists_turn {α : Type} (holds : α → Prop) {l : List α}
    (first : ∀ a ∈ l.head?, ¬holds a)
    (lasts : ∀ (i : Nat) a b, l[i]? = some a → l[i + 1]? = some b → holds a → holds b) :
    ∃ time, ∀ (i : Nat) a, l[i]? = some a → (holds a ↔ time < i) := by
  induction l with
  | nil => exact ⟨0, nofun⟩
  | cons a rest ih =>
    have before : ¬holds a := first a rfl
    by_cases turns : ∃ b ∈ rest.head?, holds b
    · obtain ⟨b, next, now⟩ := turns
      have later (i : Nat) : ∀ c, rest[i]? = some c → holds c := by
        induction i with
        | zero =>
          intro c there
          rw [← List.head?_eq_getElem?, next] at there
          cases there
          exact now
        | succ i ih =>
          intro c there
          obtain ⟨inside, _⟩ := List.getElem?_eq_some_iff.1 there
          have previous := List.getElem?_eq_getElem (Nat.lt_of_succ_lt inside)
          exact lasts (i + 1) _ c previous there (ih _ previous)
      refine ⟨0, fun i c there => ?_⟩
      cases i with
      | zero =>
        cases there
        simp [before]
      | succ i => simp [later i c there]
    · push Not at turns
      obtain ⟨time, spec⟩ := ih turns fun i => lasts (i + 1)
      refine ⟨time + 1, fun i c there => ?_⟩
      cases i with
      | zero =>
        cases there
        simp [before]
      | succ i =>
        rw [spec i c there]
        omega

/-! ## One container in a run -/

variable {w : Watch} {role : MethodKey → Handle → Role} {o n : Nat} {entries : List Value}

/-- Every state of a run tends the container of an object, as long as nothing else is stored in
its place. -/
theorem Program.Passes.tends (passes : p.Passes start states progress)
    (staging : Staging p.module w role) (library : p.natives = Reactive.natives)
    (dispatches : p.Dispatches) (spares : start.Spares w.field)
    (tends : p.Tends w role o n entries start)
    (quiet : ∀ s ∈ states, ∀ v, s.stores? w.field ≠ some (o, v))
    (alive : ∀ s ∈ states, s.isAlive = true) :
    (progress.Spares w.field ∧ p.Tends w role o n entries progress) ∧
      ∀ s ∈ states, s.Spares w.field ∧ p.Tends w role o n entries (.running s) := by
  induction passes with
  | start => exact ⟨⟨spares, tends⟩, nofun⟩
  | @step states s _ ih =>
    obtain ⟨quiet, stores⟩ := List.forall_mem_append.1 quiet
    obtain ⟨alive, living⟩ := List.forall_mem_append.1 alive
    obtain ⟨⟨spares', tends'⟩, each⟩ := ih quiet alive
    have here := List.mem_singleton_self s
    refine ⟨⟨(step_spares (p.spares_of_library library _) spares').1, ?_⟩,
      List.forall_mem_append.2 ⟨each, List.forall_mem_singleton.2 ⟨spares', tends'⟩⟩⟩
    exact tends'.step (living s here) staging library dispatches spares' (stores s here)

/-- The container in the field of the object is released. -/
def Heap.Drained (field : String) (o : Nat) (h : Heap) : Prop :=
  ∃ entries, h.tracking? field o = some (entries, true)

namespace Program.Tends

theorem drained_iff (tends : p.Tends w role o n entries progress) :
    progress.heap.Drained w.field o ↔ progress.heap.Released n := by
  constructor
  · rintro ⟨entries', tracked⟩
    obtain ⟨k, tracks, holds⟩ := Heap.tracking?_eq_some.1 tracked
    exact ⟨entries', tracks.unique tends.tracks ▸ holds⟩
  · rintro ⟨entries', holds⟩
    exact ⟨entries', Heap.tracking?_eq_some.2 ⟨n, tends.tracks, holds⟩⟩

/-- The field holds a container, released or not. -/
theorem tracking? (tends : p.Tends w role o n entries progress)
    (alive : progress.isAlive = true) : ∃ entries' released,
      progress.heap.tracking? w.field o = some (entries', released) := by
  obtain ⟨entries', holds⟩ | ⟨entries', holds⟩ := tends.holds alive
  · exact ⟨entries', false, Heap.tracking?_eq_some.2 ⟨n, tends.tracks, holds⟩⟩
  · exact ⟨entries', true, Heap.tracking?_eq_some.2 ⟨n, tends.tracks, holds⟩⟩

end Program.Tends

/-! ## The containers of an object -/

/-- A run that a watch can be kept on: the containers in the tracking fields are kept apart when it
starts, that of the object is not released and stays in its place, and the teardown leaves by its
last instruction only. -/
structure Program.Observes (p : Program) (memory : Memory) (request : Request)
    (states : List State) (o : Nat) (w : Watch) : Prop where
  staging : ∃ role, Staging p.module w role
  ordered : memory.heap.Ordered w.field none
  tracked : ∃ entries, memory.heap.tracking? w.field o = some (entries, false)
  free : ∀ v ∈ request.values, memory.heap.IsFree w.field none v
  quiet : ∀ s ∈ states, ∀ v, s.stores? w.field ≠ some (o, v)
  leaves : ∀ d b, HasBody p.module w.teardown d b → b.LeavesLast

section Observed

variable {result : Option Value} {w' : Watch} {time time' : Nat}
  (library : p.natives = Reactive.natives) (dispatches : p.Dispatches)
  (passes : p.Passes (p.perform memory [] request) states (.finished m (.ok result)))

include library dispatches passes

namespace Program.Observes

variable (observes : p.Observes memory request states o w)

include observes

/-- The container is tended in every state and at the end. -/
theorem tends : ∃ role n entries, Staging p.module w role ∧
    memory.heap.Tracks w.field o n ∧ memory.heap.Holds n entries false ∧
    p.Tends w role o n entries (.finished m (.ok result)) ∧ ∀ s ∈ states,
      s.isAlive = true ∧ s.Spares w.field ∧ p.Tends w role o n entries (.running s) := by
  obtain ⟨⟨role, staging⟩, ordered, ⟨entries, tracked⟩, free, quiet, _⟩ := observes
  obtain ⟨n, tracks, holds⟩ := Heap.tracking?_eq_some.1 tracked
  have alive := passes.isAlive_of_finished (relays_of_library library)
  have spares := ((p.enters_perform memory [] request).spares
    (p.spares_of_library library w.field) nofun).1
  obtain ⟨⟨_, last⟩, each⟩ := passes.tends staging library dispatches spares
    (.start staging library ordered tracks holds free) quiet alive
  exact ⟨role, n, entries, staging, tracks, holds, last, fun s here => ⟨alive s here, each s here⟩⟩

theorem drained_next {i : Nat} (here : states[i]? = some s) (there : states[i + 1]? = some s')
    (drained : s.memory.heap.Drained w.field o) : s'.memory.heap.Drained w.field o := by
  obtain ⟨role, n, entries, staging, _, _, _, each⟩ := observes.tends library dispatches passes
  obtain ⟨alive, spares, tends⟩ := each s (List.mem_of_getElem? here)
  obtain ⟨alive', _, tends'⟩ := each s' (List.mem_of_getElem? there)
  have next := passes.next here there
  have released := tends.released_step alive staging library dispatches spares
    (observes.quiet s (List.mem_of_getElem? here)) (tends.drained_iff.1 drained)
  rw [next] at released
  exact tends'.drained_iff.2 (released alive')

/-- There is one step at which the container is released. -/
theorem exists_time : ∃ time, ∀ (i : Nat) (s : State), states[i]? = some s → ∃ entries,
    s.memory.heap.tracking? w.field o = some (entries, decide (time < i)) := by
  have first : ∀ s ∈ states.head?, ¬s.memory.heap.Drained w.field o := by
    intro s head drained
    obtain ⟨rest, rfl⟩ : ∃ rest, states = s :: rest := List.head?_eq_some_iff.1 head
    obtain ⟨role, n, entries, _, tracks, holds, _, each⟩ :=
      observes.tends library dispatches passes
    obtain ⟨_, _, tends⟩ := each s List.mem_cons_self
    have apart : request.values.head? ≠ some (.object n) := fun same =>
      (observes.free _ (List.mem_of_head? same)).ne tracks rfl
    have unreleased : (p.perform memory [] request).heap.Unreleased n :=
      unreleased_perform library ⟨entries, holds⟩ apart
    rw [passes.head] at unreleased
    obtain ⟨_, still⟩ := unreleased
    obtain ⟨_, already⟩ := tends.drained_iff.1 drained
    cases (still.unique already).2
  obtain ⟨time, spec⟩ := exists_turn (fun s => s.memory.heap.Drained w.field o) first
    fun i s s' here there => observes.drained_next library dispatches passes here there
  refine ⟨time, fun i s here => ?_⟩
  obtain ⟨role, n, entries, staging, _, _, _, each⟩ := observes.tends library dispatches passes
  obtain ⟨alive, _, tends⟩ := each s (List.mem_of_getElem? here)
  obtain ⟨entries', released, tracked⟩ := tends.tracking? alive
  have same : released = decide (time < i) := by
    rw [Bool.eq_iff_iff, decide_eq_true_iff, ← spec i s here]
    refine ⟨fun now => ⟨entries', now ▸ tracked⟩, fun ⟨_, drained⟩ => ?_⟩
    have tracked' : s.memory.heap.tracking? w.field o = _ := tracked
    rw [tracked'] at drained
    exact (Prod.mk.inj (Option.some.inj drained)).2
  exact ⟨entries', same ▸ tracked⟩

/-- Whoever releases the container is the teardown on the object. -/
theorem releasing {i : Nat} (here : states[i]? = some s) (there : states[i + 1]? = some s')
    (before : ¬s.memory.heap.Drained w.field o) (after : s'.memory.heap.Drained w.field o) :
    ∃ f release, s.active = .frame f ∧ f.RunsOn w.teardown o ∧
      f.current? = some (.callvirt release) := by
  obtain ⟨role, n, entries, staging, _, _, _, each⟩ := observes.tends library dispatches passes
  obtain ⟨alive, _, tends⟩ := each s (List.mem_of_getElem? here)
  obtain ⟨_, _, tends'⟩ := each s' (List.mem_of_getElem? there)
  have unreleased := (tends.holds alive).resolve_right fun now => before (tends.drained_iff.2 now)
  obtain still | ⟨f, release, working, key, receiver, current⟩ :=
    tends.unreleased_step alive staging library unreleased
  · rw [passes.next here there] at still
    obtain ⟨_, still⟩ := still
    obtain ⟨_, now⟩ := tends'.drained_iff.1 after
    cases (still.unique now).2
  · exact ⟨f, release, working, ⟨key, receiver⟩, current⟩

/-- The teardown leaves the object with the container released. -/
theorem drained_of_exit (here : s ∈ states) {f : Frame} (working : s.active = .frame f)
    (runs : f.RunsOn w.teardown o) (current : f.current? = some .ret) :
    s.memory.heap.Drained w.field o := by
  obtain ⟨role, n, entries, staging, _, _, _, each⟩ := observes.tends library dispatches passes
  obtain ⟨alive, _, tends⟩ := each s here
  obtain ⟨d, known⟩ := tends.known alive working
  have last := Frame.last_of_ret (observes.leaves d _ (runs.1 ▸ known)) current
  exact tends.drained_iff.2
    (tends.released_of_exit alive staging working runs.1 runs.2 current last)

/-- A container that is released in the last state is released with all its entries. -/
theorem complete (last : states.getLast? = some s) (drained : s.memory.heap.Drained w.field o) :
    ∃ entries entries', memory.heap.tracking? w.field o = some (entries, false) ∧
      m.heap.tracking? w.field o = some (entries', true) ∧ entries <+: entries' ∧
      ∀ v ∈ entries', m.heap.isOpen v = false := by
  obtain ⟨role, n, entries, staging, tracks, holds, final, each⟩ :=
    observes.tends library dispatches passes
  have here := List.mem_of_getLast? last
  obtain ⟨alive, spares, tends⟩ := each s here
  have released := tends.released_step alive staging library dispatches spares
    (observes.quiet s here) (tends.drained_iff.1 drained)
  rw [← passes.last last] at released
  obtain ⟨entries', tracked, all, closed⟩ := final.finished (released rfl)
  exact ⟨entries, entries', Heap.tracking?_eq_some.2 ⟨n, tracks, holds⟩, tracked, all, closed⟩

end Program.Observes

/-! ## Two containers of an object -/

variable (observes : p.Observes memory request states o w)
  (observes' : p.Observes memory request states o w')
  (handing : p.HandsOver w.teardown w'.teardown)

include observes handing

/-- In every state, the teardown that hands over is past its call only with the first container
released. -/
theorem Program.Passes.hands (i : Nat) : ∀ s, states[i]? = some s →
    s.Hands p w.teardown w'.teardown o (s.memory.heap.Drained w.field o) := by
  have alive := passes.isAlive_of_finished (relays_of_library library)
  induction i with
  | zero =>
    intro s here
    obtain ⟨rest, rfl⟩ : ∃ rest, states = s :: rest := List.head?_eq_some_iff.1
      (List.head?_eq_getElem?.trans here)
    exact (p.enters_perform memory [] request).hands trivial passes.head
      (alive s List.mem_cons_self)
  | succ i ih =>
    intro s' there
    obtain ⟨inside, _⟩ := List.getElem?_eq_some_iff.1 there
    have here := List.getElem?_eq_getElem (Nat.lt_of_succ_lt inside)
    exact (ih _ here).step handing (observes.drained_next library dispatches passes here there)
      (fun f => observes.drained_of_exit library dispatches passes (List.mem_of_getElem? here))
      (alive _ (List.mem_of_getElem? here)) (passes.next here there)
      (alive _ (List.mem_of_getElem? there))

include observes'

/-- The first container is released in an earlier step. -/
theorem Program.Passes.time_lt
    (first : ∀ (i : Nat) (s : State), states[i]? = some s → ∃ entries,
      s.memory.heap.tracking? w.field o = some (entries, decide (time < i)))
    (second : ∀ (i : Nat) (s : State), states[i]? = some s → ∃ entries,
      s.memory.heap.tracking? w'.field o = some (entries, decide (time' < i)))
    (inside : time' + 1 < states.length) : time < time' := by
  have here := List.getElem?_eq_getElem (Nat.lt_of_succ_lt inside)
  have there := List.getElem?_eq_getElem inside
  obtain ⟨entries, before⟩ := second _ _ here
  obtain ⟨entries', after⟩ := second _ _ there
  rw [decide_eq_false (Nat.lt_irrefl time')] at before
  rw [decide_eq_true (Nat.lt_succ_self time')] at after
  obtain ⟨f, release, working, runs, current⟩ := observes'.releasing library dispatches passes
    here there (by rintro ⟨_, drained⟩; rw [before] at drained; cases drained) ⟨_, after⟩
  have works := (passes.hands library dispatches observes handing time' _ here).works f working runs
  obtain ⟨_, impossible⟩ | ⟨_, _, impossible, _⟩ | past := works.current handing current
  · cases impossible
  · cases impossible
  · obtain ⟨_, drained⟩ := works.behind past
    obtain ⟨_, tracked⟩ := first _ _ here
    rw [tracked] at drained
    exact of_decide_eq_true (Prod.mk.inj (Option.some.inj drained)).2

end Observed

/-- The container in a field of the object is released by the step with this number, for good, and
with all the entries that it had at first. -/
structure Drains (field : String) (o : Nat) (before : Heap) (states : List State) (after : Heap)
    (time : Nat) : Prop where
  inside : time + 1 < states.length
  each : ∀ (i : Nat) (s : State), states[i]? = some s → ∃ entries,
    s.memory.heap.tracking? field o = some (entries, decide (time < i))
  complete : ∃ entries entries', before.tracking? field o = some (entries, false) ∧
    after.tracking? field o = some (entries', true) ∧ entries <+: entries' ∧
    ∀ v ∈ entries', after.isOpen v = false

/-- The containers in these fields of the object are released one after the other. -/
def DrainsInOrder (fields : List String) (o : Nat) (before : Heap) (states : List State)
    (after : Heap) : Prop :=
  ∃ times : List Nat, times.Pairwise (· < ·) ∧
    List.Forall₂ (fun field time => Drains field o before states after time) fields times

section Checking

variable {field : String} {fields : List String} {before after : Heap}

instance (time : Nat) : Decidable (Drains field o before states after time) :=
  decidable_of_iff (time + 1 < states.length ∧
      (∀ i : Fin states.length, (states[i].memory.heap.tracking? field o).map Prod.snd =
        some (decide (time < i))) ∧
      ∃ first ∈ before.tracking? field o, first.2 = false ∧
        ∃ last ∈ after.tracking? field o, last.2 = true ∧ first.1 <+: last.1 ∧
          ∀ v ∈ last.1, after.isOpen v = false) <| by
    constructor
    · rintro ⟨inside, each, ⟨first, _⟩, here, rfl, ⟨last, _⟩, there, rfl, grows, closed⟩
      refine ⟨inside, fun i s passed => ?_, first, last, here, there, grows, closed⟩
      obtain ⟨bound, rfl⟩ := List.getElem?_eq_some_iff.1 passed
      obtain ⟨⟨entries, _⟩, tracked, same⟩ := Option.map_eq_some_iff.1 (each ⟨i, bound⟩)
      exact ⟨entries, tracked.trans (congrArg (fun b => some (entries, b)) same)⟩
    · rintro ⟨inside, each, first, last, here, there, grows, closed⟩
      refine ⟨inside, fun i => ?_, _, here, rfl, _, there, rfl, grows, closed⟩
      obtain ⟨entries, tracked⟩ := each i _ (List.getElem?_eq_getElem i.isLt)
      exact Option.map_eq_some_iff.2 ⟨_, tracked, rfl⟩

/-- The number of the last state ahead of the first one in which the container is released. -/
def drainTime (o : Nat) (states : List State) (field : String) : Nat :=
  states.findIdx (fun s => (s.memory.heap.tracking? field o).any Prod.snd) - 1

theorem Drains.time_eq {time : Nat} (drains : Drains field o before states after time) :
    time = drainTime o states field := by
  obtain ⟨inside, each, _⟩ := drains
  have found : states.findIdx (fun s => (s.memory.heap.tracking? field o).any Prod.snd) =
      time + 1 := by
    refine (List.findIdx_eq inside).2 ⟨?_, fun i earlier => ?_⟩
    · obtain ⟨_, tracked⟩ := each _ _ (List.getElem?_eq_getElem inside)
      rw [tracked, Option.any_some, decide_eq_true_eq]
      exact Nat.lt_succ_self time
    · obtain ⟨_, tracked⟩ := each _ _ (List.getElem?_eq_getElem (earlier.trans inside))
      rw [tracked, Option.any_some, decide_eq_false_iff_not]
      exact Nat.not_lt_of_ge (Nat.le_of_lt_succ earlier)
  rw [drainTime, found, Nat.add_sub_cancel]

theorem drainsInOrder_iff : DrainsInOrder fields o before states after ↔
    (fields.map (drainTime o states)).Pairwise (· < ·) ∧
      ∀ field ∈ fields, Drains field o before states after (drainTime o states field) := by
  constructor
  · rintro ⟨times, increasing, drains⟩
    have same : List.Forall₂ Eq times (fields.map (drainTime o states)) :=
      List.forall₂_map_right_iff.2 (drains.flip.imp fun _ _ drained => drained.time_eq)
    rw [List.forall₂_eq_eq_eq] at same
    subst same
    rw [List.forall₂_map_right_iff, List.forall₂_same] at drains
    exact ⟨increasing, drains⟩
  · rintro ⟨increasing, drains⟩
    exact ⟨_, increasing, List.forall₂_map_right_iff.2 (List.forall₂_same.2 drains)⟩

instance : Decidable (DrainsInOrder fields o before states after) :=
  decidable_of_iff _ drainsInOrder_iff.symm

end Checking

/-! ## All containers of an object -/

section Chain

variable {result : Option Value} {ws : List Watch}
  (library : p.natives = Reactive.natives) (dispatches : p.Dispatches)
  (passes : p.Passes (p.perform memory [] request) states (.finished m (.ok result)))

include library dispatches passes

/-- A request that comes to the body of a teardown ends with the container released. -/
theorem Program.Observes.drained_last {memory' : Memory} {f : Frame}
    (observes : p.Observes memory request states o w)
    (enters : p.perform memory [] request = .running ⟨memory', .frame f, []⟩)
    (runs : f.RunsOn w.teardown o) :
    ∃ s, states.getLast? = some s ∧ s.memory.heap.Drained w.field o := by
  have alive := passes.isAlive_of_finished (relays_of_library library)
  obtain rfl | ⟨before, s, rfl⟩ := List.eq_nil_or_concat states
  · rw [enters] at passes
    generalize none : ([] : List State) = states at passes
    generalize same : Progress.finished m (.ok result) = progress at passes
    cases passes with
    | start => cases same
    | step => simp at none
  rw [List.concat_eq_append] at *
  have last : (before ++ [s]).getLast? = some s := List.getLast?_concat
  have here : s ∈ before ++ [s] := by simp
  obtain ⟨bottom, ends⟩ := ends_of_finished (passes.last last).symm
  have parts : before ++ [s] = before ++ s :: [] := rfl
  have first := (passes.split parts).1
  rw [enters] at first
  let good (a : Activation) (_ : List Handle) : Prop := a.frame.RunsOn w.teardown o
  have begins : good (.working f) [] := runs
  obtain ⟨a, stands, runs'⟩ | ⟨e, failing, _⟩ := first.activation begins
    (fun _ _ _ _ runs goes => goes.runsOn.2 runs) (fun _ _ => Nat.zero_le _) s rfl (Nat.zero_le _)
  · obtain ⟨g, working, rfl⟩ := stands.working_of_length (by rw [bottom])
    refine ⟨s, last, observes.drained_of_exit library dispatches passes here working runs' ?_⟩
    obtain ⟨_, _, _⟩ := s
    cases working
    cases ends with
    | left current executes =>
      cases executes
      exact current
  · have living := alive s here
    rw [State.isAlive, failing] at living
    cases living

/-- Where each teardown but the first hands over to the one before it, a request that comes to the
last teardown releases the containers of all of them, the first one's first. -/
theorem Program.Passes.drainsInOrder
    (each : ∀ w ∈ ws, p.Observes memory request states o w)
    (chain : ws.IsChain fun w w' => p.HandsOver w.teardown w'.teardown)
    (enters : ∀ w ∈ ws.getLast?, ∃ memory' f,
      p.perform memory [] request = .running ⟨memory', .frame f, []⟩ ∧ f.RunsOn w.teardown o) :
    DrainsInOrder (ws.map Watch.field) o memory.heap states m.heap := by
  have times : ∀ w ∈ ws, ∃ time, ∀ (i : Nat) (s : State), states[i]? = some s → ∃ entries,
      s.memory.heap.tracking? w.field o = some (entries, decide (time < i)) :=
    fun w listed => (each w listed).exists_time library dispatches passes
  choose! time spec using times
  have inside (w : Watch) (listed : w ∈ ws) {s : State} (last : states.getLast? = some s)
      (drained : s.memory.heap.Drained w.field o) : time w + 1 < states.length := by
    rw [List.getLast?_eq_getElem?] at last
    obtain ⟨_, tracked⟩ := spec w listed _ s last
    obtain ⟨_, drained⟩ := drained
    rw [tracked] at drained
    have before : time w < states.length - 1 :=
      of_decide_eq_true (Prod.mk.inj (Option.some.inj drained)).2
    omega
  -- From the last teardown upwards, each container is released before the next one.
  have order : ∀ l : List Watch, (∀ w ∈ l, w ∈ ws) →
      (l.IsChain fun w w' => p.HandsOver w.teardown w'.teardown) →
      (∀ w ∈ l.getLast?, time w + 1 < states.length) →
      (∀ w ∈ l, time w + 1 < states.length) ∧ l.IsChain fun w w' => time w < time w' := by
    intro l
    induction l with
    | nil => exact fun _ _ _ => ⟨nofun, .nil⟩
    | cons w rest ih =>
      intro within chain last
      cases rest with
      | nil => exact ⟨List.forall_mem_singleton.2 (last w rfl), .singleton w⟩
      | cons w' rest =>
        obtain ⟨handing, chain⟩ := List.isChain_cons_cons.1 chain
        obtain ⟨ins, increasing⟩ := ih (fun w listed => within w (List.mem_cons_of_mem _ listed))
          chain last
        have listed := within w List.mem_cons_self
        have listed' := within w' (List.mem_cons_of_mem _ List.mem_cons_self)
        have before := passes.time_lt library dispatches (each w listed) (each w' listed') handing
          (spec w listed) (spec w' listed') (ins w' List.mem_cons_self)
        refine ⟨List.forall_mem_cons.2 ⟨?_, ins⟩, List.isChain_cons_cons.2 ⟨before, increasing⟩⟩
        have := ins w' List.mem_cons_self
        omega
  obtain ⟨ins, increasing⟩ := order ws (fun _ => id) chain fun w last => by
    obtain ⟨_, f, entered, runs⟩ := enters w last
    have listed := List.mem_of_getLast? last
    obtain ⟨s, final, drained⟩ :=
      (each w listed).drained_last library dispatches passes entered runs
    exact inside w listed final drained
  refine ⟨ws.map time, List.isChain_iff_pairwise.1 ((List.isChain_map time).2 increasing), ?_⟩
  rw [List.forall₂_map_left_iff, List.forall₂_map_right_iff, List.forall₂_same]
  intro w listed
  have bound := ins w listed
  refine ⟨bound, spec w listed, ?_⟩
  have final : states[states.length - 1]? = some states[states.length - 1] :=
    List.getElem?_eq_getElem (by omega)
  obtain ⟨entries, tracked⟩ := spec w listed _ _ final
  rw [decide_eq_true (by omega)] at tracked
  exact (each w listed).complete library dispatches passes
    (List.getLast?_eq_getElem?.trans final) ⟨entries, tracked⟩

end Chain

end Machine

end ReleaseWeaver
