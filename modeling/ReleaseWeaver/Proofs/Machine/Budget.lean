import Mathlib.Algebra.GroupWithZero.Nat
import Mathlib.Data.Prod.Lex
import ReleaseWeaver.Proofs.Machine.Settling
import ReleaseWeaver.Proofs.Tracking.Sparing

/-
  Every request ends. Only instructions are counted, and the native code of the reactive library
  runs without any: it releases entries of containers, which may release entries in turn, and
  containers may be entries of one another or of themselves. What ends this is that a container
  hands its entries on only once: after that, fewer containers are left to release. So a state
  comes down with every step, first in the instructions that are left, then in the containers that
  are not released, then in what the code at work and the code that waits have still to do. A
  failure is passed on by all code that waits, so nothing is executed after it. Main statement: a
  request ends on any heap and in any module, after at most as many instructions as are left and
  one more, the one that the limit refuses.
-/

namespace ReleaseWeaver.Machine

open Reactive

variable {p : Program} {m : Memory} {h : Heap} {callers : List Caller} {ks : List Nat}
  {e : ExecError} {s s' : State} {states : List State} {start progress : Progress}

/-! ## Containers that are not released -/

/-- A container that has still to be released. -/
def Object.isUnreleased (o : Object) : Bool :=
  match o.native with
  | .container _ released => !released
  | _ => false

def Heap.unreleased (h : Heap) : Nat := h.objects.toList.countP Object.isUnreleased

theorem Heap.unreleased_modify {n : Nat} {o : Object} (there : h.get? n = some o)
    (f : Object → Object) : (h.modify f n).unreleased + o.isUnreleased.toNat =
      h.unreleased + (f o).isUnreleased.toNat := by
  cases n with
  | zero => cases there
  | succ n =>
    obtain ⟨inside, same⟩ := Array.getElem?_eq_some_iff.1 there
    have inside' : n < h.objects.toList.length := inside
    have here : h.objects.toList[n] = o := same
    show (h.objects.modify n f).toList.countP _ + _ = h.objects.toList.countP _ + _
    rw [Array.toList_modify, List.modify_eq_take_cons_drop inside', here]
    conv_rhs => rw [← List.take_append_drop n h.objects.toList,
      List.drop_eq_getElem_cons inside', here]
    simp only [List.countP_append, List.countP_cons]
    cases o.isUnreleased <;> cases (f o).isUnreleased <;> simp <;> omega

theorem Heap.unreleased_release {n : Nat} {o : Object} {entries : List Value}
    (there : h.get? n = some o) (native : o.native = .container entries false) :
    (h.modify (setNative (.container entries true)) n).unreleased < h.unreleased := by
  have count := unreleased_modify there (setNative (.container entries true))
  have before : o.isUnreleased = true := by
    rw [Object.isUnreleased, native]
    rfl
  have after : (setNative (.container entries true) o).isUnreleased = false := rfl
  rw [before, after, Bool.toNat_true, Bool.toNat_false] at count
  omega

/-- A subscription is no container. -/
theorem Heap.unreleased_setHandle {n : Nat} {o : Object} {b : Bool} (there : h.get? n = some o)
    (native : o.native = .handle b) (b' : Bool) :
    (h.modify (setNative (.handle b')) n).unreleased = h.unreleased := by
  have count := unreleased_modify there (setNative (.handle b'))
  have before : o.isUnreleased = false := by rw [Object.isUnreleased, native]
  have after : (setNative (.handle b') o).isUnreleased = false := rfl
  rw [before, after] at count
  exact Nat.add_right_cancel count

/-! ## What is left to do -/

/-- The instructions that are left, the containers that are not released, and the steps that native
code takes with no more of either. -/
abbrev Cost : Type := Nat ×ₗ Nat ×ₗ Nat

def cost (instructions containers rest : Nat) : Cost :=
  toLex (instructions, toLex (containers, rest))

theorem cost_lt {i c r i' c' r' : Nat} :
    cost i c r < cost i' c' r' ↔ i < i' ∨ i = i' ∧ (c < c' ∨ c = c' ∧ r < r') := by
  refine Prod.Lex.toLex_lt_toLex.trans (or_congr_right (and_congr_right fun _ => ?_))
  exact Prod.Lex.toLex_lt_toLex

/-- What code that waits has to do when it goes on. A release takes at most four steps: it is asked
for, it is found, it ends, and its caller goes on. -/
inductive Caller.Left : Caller → Nat → Prop where
  | frame (f : Frame) (takesResult : Bool) : Left (.frame f takesResult) 2
  | constructing (this : Value) : Left (.constructing this) 2
  | native (result : Option Value) (rest : List Value) :
      Left (.native (afterRelease result rest)) (4 * rest.length + 2)

inductive Active.Left : Active → Nat → Prop where
  | frame (f : Frame) : Left (.frame f) 2
  | native (result : Option Value) (values : List Value) :
      Left (.native (releaseAll result values)) (4 * values.length + 1)

/-- A failure is on its way. -/
def Active.Carries (active : Active) (e : ExecError) : Prop :=
  active = .failure e ∨ active = .native (.done (.error e))

def State.Carries (s : State) (e : ExecError) : Prop := s.active.Carries e

/-- What is left to do under a limit. A failure has only to be passed on. -/
inductive State.Left (limit : Nat) : State → Cost → Prop where
  | failing {memory active callers ks e} : active.Carries e →
      List.Forall₂ Caller.Left callers ks →
      Left limit ⟨memory, active, callers⟩ (cost 0 0 callers.length)
  | going {memory active callers k ks} : active.Left k → List.Forall₂ Caller.Left callers ks →
      Left limit ⟨memory, active, callers⟩
        (cost (limit - memory.steps + 1) memory.heap.unreleased (k + ks.sum))

/-- A progress that is at its end, or has less left to do than the bound. -/
inductive Progress.Below (limit : Nat) (bound : Cost) : Progress → Prop where
  | running {s c} : s.Left limit c → c < bound → Below limit bound (.running s)
  | finished (m : Memory) (outcome : Outcome) : Below limit bound (.finished m outcome)

/-! ## Failures -/

theorem State.Carries.not_executes (carries : s.Carries e) : s.executes = false := by
  obtain ⟨memory, active, callers⟩ := s
  obtain rfl | rfl := carries <;> rfl

/-- A failure comes to the end, or goes on to less code that waits. -/
theorem unwind_left (left : List.Forall₂ Caller.Left callers ks) (m : Memory) (e : ExecError) :
    unwind m e callers = .finished m (.error e) ∨ ∃ active rest ks', active.Carries e ∧
      unwind m e callers = .running ⟨m, active, rest⟩ ∧ List.Forall₂ Caller.Left rest ks' ∧
      rest.length < callers.length := by
  cases left with
  | nil => exact .inl rfl
  | @cons caller k rest ks first left =>
    refine .inr ?_
    cases first with
    | frame | constructing =>
      exact ⟨.failure e, rest, ks, .inl rfl, rfl, left, Nat.lt_succ_self _⟩
    | native result values =>
      exact ⟨.native (.done (.error e)), rest, ks, .inr rfl, rfl, left, Nat.lt_succ_self _⟩

theorem step_carries (carries : s.Carries e) : p.step s = unwind s.memory e s.callers := by
  obtain ⟨memory, active, callers⟩ := s
  obtain rfl | rfl := carries <;> rfl

/-- After a failure nothing is executed, and the run ends with it. -/
theorem Program.Passes.carries (passes : p.Passes (.running s) states progress)
    (carries : s.Carries e) (left : List.Forall₂ Caller.Left s.callers ks) :
    (∀ s' ∈ states, s'.executes = false) ∧
      ((∃ s', progress = .running s' ∧ s'.Carries e ∧
          ∃ ks, List.Forall₂ Caller.Left s'.callers ks) ∨
        ∃ m, progress = .finished m (.error e)) := by
  induction passes with
  | start => exact ⟨List.forall_mem_nil _, .inl ⟨s, rfl, carries, ks, left⟩⟩
  | @step states s' _ ih =>
    obtain ⟨quiet, ⟨s'', here, carries', ks', left'⟩ | ⟨m, impossible⟩⟩ := ih
    · cases here
      refine ⟨List.forall_mem_append.2 ⟨quiet, List.forall_mem_singleton.2 carries'.not_executes⟩,
        ?_⟩
      rw [step_carries carries']
      obtain last | ⟨active, rest, ks'', further, goes, left'', _⟩ :=
        unwind_left left' s'.memory e
      · exact .inr ⟨_, last⟩
      · exact .inl ⟨_, goes, further, ks'', left''⟩
    · cases impossible

/-! ## Releases -/

/-- Only containers and subscriptions have native code for a release. -/
theorem Reactive.natives_release {owner : String} {code : NativeCode}
    (known : natives (Program.nativeName owner "Dispose") = some code) :
    code = containerRelease ∨ code = subscriptionRelease := by
  have ending {name : String} (same : Program.nativeName owner "Dispose" = name) :
      name.toList.reverse.take 7 = "Dispose".toList.reverse := by
    subst same
    simp [Program.nativeName]
  unfold natives at known
  split at known
  case h_4 => exact .inl (Option.some.inj known).symm
  case h_8 => exact .inr (Option.some.inj known).symm
  case h_9 => cases known
  all_goals
    next same => exact absurd (ending same) (by decide)

section Left

variable {limit : Nat}

/-- Code that waits goes on with a result. -/
theorem resume_below (left : List.Forall₂ Caller.Left callers ks) (m : Memory)
    (result : Option Value) : (resume m result callers).Below limit
      (cost (limit - m.steps + 1) m.heap.unreleased (1 + ks.sum)) := by
  have lower {active : Active} {k k' : Nat} {rest : List Caller} {ks : List Nat}
      (atWork : active.Left k) (left : List.Forall₂ Caller.Left rest ks) (less : k ≤ k') :
      Progress.Below limit (cost (limit - m.steps + 1) m.heap.unreleased (1 + (k' :: ks).sum))
        (.running ⟨m, active, rest⟩) := by
    refine .running (.going atWork left) (cost_lt.2 (.inr ⟨rfl, .inr ⟨rfl, ?_⟩⟩))
    rw [List.sum_cons]
    omega
  cases left with
  | nil => exact .finished m _
  | cons first left =>
    cases first with
    | frame f takes => exact lower (.frame _) left (Nat.le_refl 2)
    | constructing this => exact lower (.native (some this) []) left (Nat.le_succ 1)
    | native result' rest => exact lower (.native result' rest) left (Nat.le_succ _)

/-- A release that is asked for: code of the module, a container that hands its entries on for the
first time, or the end of it. -/
theorem release_below (library : p.natives = Reactive.natives)
    (left : List.Forall₂ Caller.Left callers ks) (m : Memory) (v : Value) :
    (p.perform m callers (.invoke (release v))).Below limit
      (cost (limit - m.steps + 1) m.heap.unreleased (3 + ks.sum)) := by
  have fails {heap : Heap} {active : Active} (e : ExecError) (carries : active.Carries e) :
      Progress.Below limit (cost (limit - m.steps + 1) m.heap.unreleased (3 + ks.sum))
        (.running ⟨{ m with heap }, active, callers⟩) :=
    .running (.failing carries left) (cost_lt.2 (.inl (Nat.succ_pos _)))
  have ends {heap : Heap} (same : heap.unreleased = m.heap.unreleased) :
      Progress.Below limit (cost (limit - m.steps + 1) m.heap.unreleased (3 + ks.sum))
        (.running ⟨{ m with heap }, .native (releaseAll none []), callers⟩) := by
    refine .running (.going (.native none []) left) (cost_lt.2 (.inr ⟨rfl, .inr ⟨same, ?_⟩⟩))
    rw [List.length_nil]
    omega
  show (p.invoke m callers (release v)).Below _ _
  unfold Program.invoke
  split
  · next callee found =>
    obtain ⟨_, _, found'⟩ := Program.callee_eq_ok found
    obtain ⟨owner, code, rfl, known⟩ | ⟨key, d, b, rfl, _⟩ := Program.lookup_eq_some found'
    · rw [library] at known
      show (runNative m callers (code m.heap [v])).Below _ _
      obtain rfl | rfl := natives_release known
      · obtain ⟨e, same⟩ | ⟨n, object, entries, released, _, there, native, same⟩ :=
          containerRelease_cons m.heap v []
        · rw [same]
          exact fails e (.inr rfl)
        · rw [same]
          cases released with
          | true => exact ends rfl
          | false =>
            exact .running (.going (.native none entries) left)
              (cost_lt.2 (.inr ⟨rfl, .inl (Heap.unreleased_release there native)⟩))
      · obtain ⟨e, same⟩ | ⟨n, object, _, there, ⟨b, native, same⟩ | ⟨_, same⟩⟩ :=
          subscriptionRelease_cons m.heap v []
        · rw [same]
          exact fails e (.inr rfl)
        · rw [same]
          exact ends (Heap.unreleased_setHandle there native true)
        · rw [same]
          exact ends rfl
    · exact .running (.going (.frame _) left) (cost_lt.2 (.inr ⟨rfl, .inr ⟨rfl, by omega⟩⟩))
  · next e _ => exact fails e (.inl rfl)

/-- A request that is made with fewer instructions left. -/
theorem Program.Enters.below {i c r : Nat} (enters : p.Enters m callers progress)
    (library : p.natives = Reactive.natives) (left : List.Forall₂ Caller.Left callers ks)
    (less : limit - m.steps + 1 < i) : progress.Below limit (cost i c r) := by
  have above {m' : Memory} {callers' : List Caller}
      (prepared : Program.Prepares m callers m' callers') :
      m'.steps = m.steps ∧ ∃ ks', List.Forall₂ Caller.Left callers' ks' := by
    cases prepared with
    | called => exact ⟨rfl, ks, left⟩
    | made className => exact ⟨rfl, _, left.cons (.constructing _)⟩
  cases enters with
  | body args prepared _ =>
    obtain ⟨steps, ks', left'⟩ := above prepared
    exact .running (.going (.frame _) left') (cost_lt.2 (.inl (by rw [steps]; exact less)))
  | @native m' callers' name code args prepared known =>
    obtain ⟨steps, ks', left'⟩ := above prepared
    rw [library] at known
    show Progress.Below _ _ (.running ⟨{ m' with heap := _ }, .native _, callers'⟩)
    obtain ⟨_, ⟨e, work⟩ | ⟨result, values, work⟩⟩ := spares_natives known "" m'.heap args
    · rw [work]
      exact .running (.failing (.inr rfl) left') (cost_lt.2 (.inl (by omega)))
    · rw [work]
      refine .running (.going (.native result values) left') (cost_lt.2 (.inl ?_))
      rw [steps]
      exact less
  | failed e prepared => exact .running (.failing (.inl rfl) left) (cost_lt.2 (.inl (by omega)))

end Left

/-! ## Steps and runs -/

namespace Program

variable {c : Cost}

/-- The limit refuses an instruction. -/
theorem step_refused (executes : s.executes = true) (spent : p.stepLimit ≤ s.memory.steps) :
    p.step s = fail { s.memory with steps := s.memory.steps + 1 } s.callers
      (.stepLimitExceeded p.stepLimit) := by
  obtain ⟨memory, active, callers⟩ := s
  cases active with
  | frame f =>
    obtain ⟨i, here⟩ := Option.isSome_iff_exists.1 executes
    show p.stepFrame memory callers f = _
    rw [stepFrame, here]
    exact if_pos (Nat.lt_succ_of_le spent)
  | native | failure => cases executes

/-- With every step less is left to do. -/
theorem step_below (library : p.natives = Reactive.natives) (left : s.Left p.stepLimit c) :
    (p.step s).Below p.stepLimit c := by
  cases left with
  | @failing memory active callers ks e carries left =>
    rw [step_carries (s := ⟨memory, active, callers⟩) carries]
    obtain last | ⟨active, rest, ks', further, goes, left', fewer⟩ := unwind_left left memory e
    · exact last ▸ .finished _ _
    · exact goes ▸ .running (.failing further left')
        (cost_lt.2 (.inr ⟨rfl, .inr ⟨rfl, fewer⟩⟩))
  | @going memory active callers k ks atWork left =>
    cases atWork with
    | native result values =>
      cases values with
      | nil => exact resume_below left memory result
      | cons v rest =>
        have below : Progress.Below p.stepLimit _ _ :=
          release_below library (left.cons (.native result rest)) memory v
        have same :
            3 + ((4 * rest.length + 2) :: ks).sum = 4 * (v :: rest).length + 1 + ks.sum := by
          rw [List.sum_cons, List.length_cons]
          omega
        rw [same] at below
        exact below
    | frame f =>
      have fails {memory' : Memory} (e : ExecError) : (fail memory' callers e).Below p.stepLimit
          (cost (p.stepLimit - memory.steps + 1) memory.heap.unreleased (2 + ks.sum)) :=
        .running (.failing (.inl rfl) left) (cost_lt.2 (.inl (Nat.succ_pos _)))
      show (p.stepFrame memory callers f).Below _ _
      unfold stepFrame
      split
      · exact fails _
      · dsimp only
        split
        · exact fails _
        · next inside =>
          have fewer : p.stepLimit - (memory.steps + 1) + 1 < p.stepLimit - memory.steps + 1 := by
            omega
          split
          · exact fails _
          · exact .running (.going (.frame _) left) (cost_lt.2 (.inl fewer))
          · next f' className args _ =>
            exact (p.enters_perform _ _ (.construct className args)).below library
              (left.cons (.frame f' true)) fewer
          · next f' c _ =>
            exact (p.enters_perform _ _ (.invoke c)).below library (left.cons (.frame f' _)) fewer
          · next result _ =>
            have below : Progress.Below p.stepLimit _ _ :=
              resume_below left { memory with steps := memory.steps + 1 } result
            generalize resume _ result callers = progress at below ⊢
            cases below with
            | running left' less => exact .running left' (less.trans (cost_lt.2 (.inl fewer)))
            | finished m outcome => exact .finished m outcome

theorem Passes.runFor (passes : p.Passes start states progress) :
    p.runFor states.length start = progress := by
  induction states generalizing start with
  | nil => exact passes.of_nil.symm
  | cons s states ih =>
    obtain ⟨rfl, rest⟩ := passes.uncons
    exact ih rest

theorem Passes.steps_eq (passes : p.Passes start states progress) :
    progress.steps = start.steps + states.countP State.executes := by
  induction passes with
  | start => rfl
  | @step states s _ ih =>
    have counted : s.memory.steps = _ := ih
    rw [steps_step_eq, counted, List.countP_append, List.countP_singleton, Nat.add_assoc]
    cases s.executes <;> rfl

/-- What has less and less to do comes to an end. -/
theorem exists_end (library : p.natives = Reactive.natives) (left : s.Left p.stepLimit c) :
    ∃ states m outcome, p.Passes (.running s) states (.finished m outcome) := by
  induction c using WellFoundedLT.induction generalizing s with
  | ind c ih =>
    have below := step_below library left
    generalize next : p.step s = progress at below
    cases below with
    | finished m outcome => exact ⟨[s], m, outcome, next ▸ Passes.start.step⟩
    | @running s' c' left' less =>
      obtain ⟨states, m, outcome, passes⟩ := ih c' less left'
      exact ⟨s :: states, m, outcome, Passes.cons (next ▸ passes)⟩

theorem callers_left {limit : Nat} (left : s.Left limit c) :
    ∃ ks, List.Forall₂ Caller.Left s.callers ks := by
  cases left with
  | failing _ left | going _ left => exact ⟨_, left⟩

variable {outcome : Outcome} {bound : Cost}

/-- After a failure nothing is executed. -/
theorem Passes.quiet (library : p.natives = Reactive.natives)
    (passes : p.Passes start states progress) (below : start.Below p.stepLimit bound) :
    states.Pairwise fun s s' => (∃ e, s.Carries e) → s'.executes = false := by
  induction states generalizing start bound with
  | nil => exact .nil
  | cons s states ih =>
    obtain ⟨rfl, rest⟩ := passes.uncons
    cases below with
    | running left _ =>
      obtain ⟨ks, callers⟩ := callers_left left
      refine .cons (fun s' later ⟨e, carries⟩ => ?_) (ih rest (step_below library left))
      exact (passes.carries carries callers).1 s' (List.mem_cons_of_mem s later)

/-- A failure is what the run ends with. -/
theorem Passes.outcome_eq (library : p.natives = Reactive.natives)
    (passes : p.Passes start states (.finished m outcome)) (below : start.Below p.stepLimit bound) :
    ∀ s ∈ states, ∀ e, s.Carries e → outcome = .error e := by
  induction states generalizing start bound with
  | nil => exact fun s impossible => by cases impossible
  | cons s states ih =>
    obtain ⟨rfl, rest⟩ := passes.uncons
    cases below with
    | running left _ =>
      obtain ⟨ks, callers⟩ := callers_left left
      refine List.forall_mem_cons.2 ⟨fun e carries => ?_, ih rest (step_below library left)⟩
      obtain ⟨_, ⟨s', impossible, _⟩ | ⟨m', last⟩⟩ := passes.carries carries callers
      · cases impossible
      · cases last
        rfl

/-- No more is executed than is left, but for one instruction that the limit refuses. -/
theorem Passes.executes_le (library : p.natives = Reactive.natives)
    (passes : p.Passes start states (.finished m outcome)) (below : start.Below p.stepLimit bound) :
    states.countP State.executes ≤ p.stepLimit - start.steps ∨
      states.countP State.executes = p.stepLimit - start.steps + 1 ∧
        outcome = .error (.stepLimitExceeded p.stepLimit) := by
  induction states generalizing start bound with
  | nil => exact .inl (Nat.zero_le _)
  | cons s states ih =>
    obtain ⟨rfl, rest⟩ := passes.uncons
    cases below with
    | running left _ =>
      have counted := steps_step_eq p s
      have further := ih rest (step_below library left)
      rw [counted] at further
      rw [List.countP_cons]
      show _ ≤ p.stepLimit - s.memory.steps ∨ _ = p.stepLimit - s.memory.steps + 1 ∧ _
      cases executes : s.executes with
      | false =>
        rw [executes] at further
        exact further
      | true =>
        rw [executes, Bool.toNat_true] at further
        by_cases spent : p.stepLimit ≤ s.memory.steps
        · obtain ⟨ks, callers⟩ := callers_left left
          rw [step_refused executes spent] at rest
          obtain ⟨quiet, ⟨s', impossible, _⟩ | ⟨m', last⟩⟩ := rest.carries (.inl rfl) callers
          · cases impossible
          · have none : states.countP State.executes = 0 :=
              List.countP_eq_zero.2 fun s' later => by rw [quiet s' later]; exact Bool.false_ne_true
            cases last
            exact .inr ⟨by rw [none, if_pos rfl]; omega, rfl⟩
        · rw [if_pos rfl]
          obtain within | ⟨more, refused⟩ := further
          · exact .inl (by omega)
          · exact .inr ⟨by omega, refused⟩

end Program

/-- The program of a module with the native code of the reactive library. -/
def Reactive.program (module : Module) (limit : Nat) : Program where
  module := module
  natives := natives
  stepLimit := limit

/-- Every request ends, whatever the module and the heap: after at most as many instructions as
are left, or with the failure of the one that is refused. Nothing is executed after a failure, and
the run ends with it. -/
theorem request_ends_within_limit (module : Module) (limit : Nat) (memory : Memory)
    (request : Request) :
    ∃ states m outcome,
      (program module limit).Passes ((program module limit).perform memory [] request) states
        (.finished m outcome) ∧
      (program module limit).outcome? ((program module limit).perform memory [] request) =
        some (m, outcome) ∧
      m.steps = memory.steps + states.countP State.executes ∧
      states.countP State.executes ≤ limit - memory.steps + 1 ∧
      (limit - memory.steps < states.countP State.executes →
        outcome = .error (.stepLimitExceeded limit)) ∧
      states.Pairwise (fun s s' => (∃ e, s.Carries e) → s'.executes = false) ∧
      ∀ s ∈ states, ∀ e, s.Carries e → outcome = .error e := by
  have enters := (program module limit).enters_perform memory [] request
  have below : ((program module limit).perform memory [] request).Below limit
      (cost (limit - memory.steps + 2) 0 0) :=
    enters.below rfl .nil (Nat.lt_succ_self _)
  obtain ⟨states, m, outcome, passes⟩ : ∃ states m outcome, (program module limit).Passes
      ((program module limit).perform memory [] request) states (.finished m outcome) := by
    obtain ⟨s, running⟩ := enters.running
    rw [running] at below ⊢
    cases below with
    | running left _ => exact Program.exists_end (p := program module limit) rfl left
  have counted := passes.steps_eq
  rw [Program.steps_perform] at counted
  have bound := passes.executes_le rfl below
  rw [Program.steps_perform] at bound
  refine ⟨states, m, outcome, passes, Program.outcome?_eq_some.2 ⟨_, passes.runFor⟩, counted, ?_,
    fun more => ?_, passes.quiet rfl below, passes.outcome_eq rfl below⟩
  · obtain within | ⟨more, _⟩ := bound
    · exact within.trans (Nat.le_succ _)
    · exact more.le
  · obtain within | ⟨_, refused⟩ := bound
    · exact absurd more (Nat.not_lt.2 within)
    · exact refused

end ReleaseWeaver.Machine
