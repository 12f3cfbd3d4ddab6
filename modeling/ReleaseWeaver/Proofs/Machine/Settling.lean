import ReleaseWeaver.Proofs.Machine.Dispatch
import ReleaseWeaver.Proofs.Machine.Returns

/-
  Requests that return if there are steps enough. The limit does nothing but end runs: below it the
  machine takes the same steps under any limit and from any count. So a request that returns within
  one limit returns within any that leaves it room, also when it is made in the course of a longer
  run, and what is known of each part of a run is put together without a count of steps.
  Main statements: `Program.Passes.limited`, `Program.Comes.unique` and `Program.Goes.invoke`.
-/

namespace ReleaseWeaver.Machine

theorem Frame.exec_of_leave {f : Frame} {h : Heap} {i : Instr} {result : Option Value}
    (executes : f.Executes h i (.leave result)) : i = .ret ∧ f.exec h .ret = .ok (.leave result) := by
  cases executes with
  | ret returns none =>
    refine ⟨rfl, ?_⟩
    rw [exec_ret]
    cases value : f.returnsValue with
    | false => rw [none value]; rfl
    | true =>
      obtain ⟨v, rest, stack, rfl⟩ := returns value
      rw [stack]
      rfl

/-- The instruction asks for something, and the activation waits for it. -/
inductive Effect.Asks : Effect → Frame → Bool → Request → Prop where
  | construct {f className args} :
      Asks (.construct f className args) f true (.construct className args)
  | invoke {f c} : Asks (.invoke f c) f c.method.returns.isSome (.invoke c)

/-! ## Counts of steps -/

/-- The memory at a later count. -/
def Memory.later (more : Nat) (m : Memory) : Memory := { m with steps := m.steps + more }

/-- The state at a later count. -/
def State.later (more : Nat) (s : State) : State := { s with memory := s.memory.later more }

/-- The step executes an instruction. -/
def State.executes (s : State) : Bool :=
  match s.active with
  | .frame f => f.current?.isSome
  | _ => false

namespace Progress

/-- The progress at a later count. -/
def later (more : Nat) : Progress → Progress
  | .running s => .running (s.later more)
  | .finished m outcome => .finished (m.later more) outcome

/-- The steps that have been counted. -/
def steps : Progress → Nat
  | .running s => s.memory.steps
  | .finished m _ => m.steps

end Progress

section Steps

variable {m : Memory} {more : Nat} {callers : List Caller}

@[simp] theorem steps_resume (m : Memory) (result : Option Value) (callers : List Caller) :
    (resume m result callers).steps = m.steps := by
  cases callers with
  | nil => rfl
  | cons caller callers => cases caller <;> rfl

@[simp] theorem steps_unwind (m : Memory) (e : ExecError) (callers : List Caller) :
    (unwind m e callers).steps = m.steps := by
  cases callers with
  | nil => rfl
  | cons caller callers => cases caller <;> rfl

theorem later_resume (result : Option Value) (callers : List Caller) :
    resume (m.later more) result callers = (resume m result callers).later more := by
  cases callers with
  | nil => rfl
  | cons caller callers => cases caller <;> rfl

theorem later_unwind (e : ExecError) (callers : List Caller) :
    unwind (m.later more) e callers = (unwind m e callers).later more := by
  cases callers with
  | nil => rfl
  | cons caller callers => cases caller <;> rfl

end Steps

namespace Program

/-- The program under another limit. -/
def within (p : Program) (limit : Nat) : Program := { p with stepLimit := limit }

variable {p : Program} {m : Memory} {more limit : Nat} {callers under : List Caller}
  {request : Request} {s s' s'' : State} {states states' : List State}
  {start middle progress : Progress}

theorem lookup_within (p : Program) (limit : Nat) (className name : String) (params : Nat) :
    (p.within limit).lookup className name params = p.lookup className name params := by
  have lookupIn (count : Nat) (className : String) :
      (p.within limit).lookupIn name params count className =
        p.lookupIn name params count className := by
    induction count generalizing className with
    | zero => rfl
    | succ count ih =>
      rw [Program.lookupIn, Program.lookupIn, funext ih]
      rfl
  exact lookupIn _ _

/-- What a request comes to does not depend on the limit. -/
theorem perform_within (p : Program) (limit : Nat) (m : Memory) (callers : List Caller)
    (request : Request) :
    (p.within limit).perform m callers request = p.perform m callers request := by
  cases request with
  | construct className args =>
    show (p.within limit).construct m callers className args = p.construct m callers className args
    rw [construct, construct, lookup_within]
  | callByName receiver name args =>
    show (p.within limit).callOn m callers receiver name args = p.callOn m callers receiver name args
    simp only [callOn, lookup_within]
  | invoke c =>
    show (p.within limit).invoke m callers c = p.invoke m callers c
    simp only [invoke, Program.callee, lookup_within]
    rfl

theorem steps_enter (callers : List Caller) (callee : Callee) (args : List Value) :
    (enter m callers callee args).steps = m.steps := by
  cases callee <;> rfl

theorem steps_perform (p : Program) (m : Memory) (callers : List Caller) (request : Request) :
    (p.perform m callers request).steps = m.steps := by
  cases request with
  | construct className args =>
    show (p.construct m callers className args).steps = m.steps
    unfold construct
    dsimp only
    split
    · exact steps_enter _ _ _
    · rfl
  | callByName receiver name args =>
    show (p.callOn m callers receiver name args).steps = m.steps
    unfold callOn
    split
    · rfl
    · split
      · exact steps_enter _ _ _
      · rfl
  | invoke c =>
    show (p.invoke m callers c).steps = m.steps
    unfold invoke
    split
    · exact steps_enter _ _ _
    · rfl

theorem later_enter (callers : List Caller) (callee : Callee) (args : List Value) :
    enter (m.later more) callers callee args = (enter m callers callee args).later more := by
  cases callee <;> rfl

theorem later_perform (callers : List Caller) (request : Request) :
    p.perform (m.later more) callers request = (p.perform m callers request).later more := by
  cases request with
  | construct className args =>
    show p.construct _ _ _ _ = (p.construct _ _ _ _).later more
    unfold construct
    dsimp only
    rw [show (m.later more).heap = m.heap from rfl]
    split
    · exact later_enter (m := { m with heap := (m.heap.alloc { className }).1 }) _ _ _
    · rfl
  | callByName receiver name args =>
    show p.callOn _ _ _ _ _ = (p.callOn _ _ _ _ _).later more
    unfold callOn
    rw [show (m.later more).heap = m.heap from rfl]
    split
    · rfl
    · split
      · exact later_enter _ _ _
      · rfl
  | invoke c =>
    show p.invoke _ _ _ = (p.invoke _ _ _).later more
    unfold invoke
    rw [show (m.later more).heap = m.heap from rfl]
    split
    · exact later_enter _ _ _
    · rfl

/-- Only an instruction counts, whatever it comes to. -/
theorem steps_step_eq (p : Program) (s : State) :
    (p.step s).steps = s.memory.steps + s.executes.toNat := by
  obtain ⟨memory, active, callers⟩ := s
  cases active with
  | native work =>
    cases work with
    | ask request next => exact steps_perform p memory (.native next :: callers) request
    | done outcome =>
      cases outcome with
      | ok result => exact steps_resume memory result callers
      | error e => exact steps_unwind memory e callers
  | failure e => exact steps_unwind memory e callers
  | frame f =>
    show (p.stepFrame memory callers f).steps = memory.steps + f.current?.isSome.toNat
    unfold stepFrame
    split
    · next out => rw [out]; rfl
    · next i here =>
      rw [here]
      dsimp only
      split
      · rfl
      · split
        · rfl
        · rfl
        · exact steps_perform p _ _ (.construct _ _)
        · exact steps_perform p _ _ (.invoke _)
        · exact steps_resume _ _ _

theorem steps_step (p : Program) (s : State) : s.memory.steps ≤ (p.step s).steps := by
  rw [steps_step_eq]
  exact Nat.le_add_right _ _

/-- A step that stays below the limit is the same from a later count and under another limit that
it stays below. -/
theorem step_within (s : State) (more limit : Nat) (inside : (p.step s).steps ≤ p.stepLimit)
    (room : (p.step s).steps + more ≤ limit) :
    (p.within limit).step (s.later more) = (p.step s).later more := by
  obtain ⟨memory, active, callers⟩ := s
  cases active with
  | native work =>
    cases work with
    | ask request next =>
      show (p.within limit).perform _ _ _ = _
      rw [perform_within]
      exact later_perform _ _
    | done outcome =>
      cases outcome with
      | ok result => exact later_resume result callers
      | error e => exact later_unwind e callers
  | failure e => exact later_unwind e callers
  | frame f =>
    show (p.within limit).stepFrame (memory.later more) callers f = _
    show _ = (p.stepFrame memory callers f).later more
    cases here : f.current? with
    | none => rw [stepFrame, stepFrame, here]; rfl
    | some i =>
      -- The instruction is counted whatever it does, so neither limit is exceeded.
      have counted : (p.step ⟨memory, .frame f, callers⟩).steps = memory.steps + 1 := by
        rw [steps_step_eq, State.executes]
        dsimp only
        rw [here]
        rfl
      rw [counted] at inside room
      have room' : ¬limit < memory.steps + more + 1 := by omega
      rw [stepFrame, stepFrame, here]
      dsimp only
      rw [if_neg (show ¬(p.within limit).stepLimit < (memory.later more).steps + 1 from room'),
        if_neg (Nat.not_lt.2 inside), show (memory.later more).heap = memory.heap from rfl]
      have next : (⟨memory.heap, memory.steps + more + 1⟩ : Memory) =
          Memory.later more ⟨memory.heap, memory.steps + 1⟩ := by
        rw [Memory.later, Nat.add_right_comm]
      split
      · next e _ =>
        show fail ⟨memory.heap, memory.steps + more + 1⟩ callers e = _
        rw [next]
        rfl
      · next f' heap _ =>
        show Progress.running ⟨⟨heap, memory.steps + more + 1⟩, _, _⟩ =
          .running ⟨⟨heap, memory.steps + 1 + more⟩, _, _⟩
        rw [Nat.add_right_comm]
      · next f' className args _ =>
        show (p.within limit).perform ⟨memory.heap, memory.steps + more + 1⟩
          (.frame f' true :: callers) (.construct className args) = _
        rw [next, perform_within]
        exact later_perform _ _
      · next f' c _ =>
        show (p.within limit).perform ⟨memory.heap, memory.steps + more + 1⟩
          (.frame f' c.method.returns.isSome :: callers) (.invoke c) = _
        rw [next, perform_within]
        exact later_perform _ _
      · next result _ =>
        show resume ⟨memory.heap, memory.steps + more + 1⟩ result callers = _
        rw [next]
        exact later_resume _ _

/-! ## Runs -/

theorem Passes.steps_le (passes : p.Passes start states progress) :
    start.steps ≤ progress.steps := by
  induction passes with
  | start => exact Nat.le_refl _
  | step _ ih => exact ih.trans (steps_step p _)

theorem Passes.trans (first : p.Passes start states middle)
    (further : p.Passes middle states' progress) :
    p.Passes start (states ++ states') progress := by
  induction further with
  | start => rwa [List.append_nil]
  | step _ ih =>
    rw [← List.append_assoc]
    exact .step ih

/-- Nothing comes after the end. -/
theorem Passes.of_finished {outcome : Outcome}
    (passes : p.Passes (.finished m outcome) states progress) : progress = .finished m outcome := by
  induction passes with
  | start => rfl
  | step _ ih => cases ih

theorem Passes.of_running (passes : p.Passes (.running s) states progress) :
    progress = .running s ∨ ∃ states', p.Passes (p.step s) states' progress := by
  induction passes with
  | start => exact .inl rfl
  | step _ ih =>
    obtain here | ⟨states', further⟩ := ih
    · cases here
      exact .inr ⟨[], .start⟩
    · exact .inr ⟨_, further.step⟩

/-- The machine is deterministic: what a run comes to lies on the way to its end. -/
theorem Passes.rest {outcome : Outcome} (first : p.Passes start states middle)
    (whole : p.Passes start states' (.finished m outcome)) :
    ∃ rest, p.Passes middle rest (.finished m outcome) := by
  induction first with
  | start => exact ⟨states', whole⟩
  | step _ ih =>
    obtain ⟨rest, passes⟩ := ih
    obtain impossible | further := passes.of_running
    · cases impossible
    · exact further

theorem Passes.unique {m' : Memory} {outcome outcome' : Outcome}
    (first : p.Passes start states (.finished m outcome))
    (second : p.Passes start states' (.finished m' outcome')) : m = m' ∧ outcome = outcome' := by
  obtain ⟨rest, passes⟩ := first.rest second
  cases passes.of_finished
  exact ⟨rfl, rfl⟩

/-- A run that stays below the limit is the same from a later count and under another limit. -/
theorem Passes.within (passes : p.Passes start states progress) (more limit : Nat)
    (inside : progress.steps ≤ p.stepLimit) (room : progress.steps + more ≤ limit) :
    (p.within limit).Passes (start.later more) (states.map (State.later more))
      (progress.later more) := by
  induction passes with
  | start => exact .start
  | @step states s _ ih =>
    have below : s.memory.steps ≤ (p.step s).steps := steps_step p s
    have before := ih (below.trans inside) ((Nat.add_le_add_right below more).trans room)
    rw [List.map_append, ← step_within s more limit inside room]
    exact .step before

theorem Passes.limited (passes : p.Passes start states progress) (limit : Nat)
    (inside : progress.steps ≤ p.stepLimit) (room : progress.steps ≤ limit) :
    (p.within limit).Passes start states progress := by
  have progress_later (progress : Progress) : progress.later 0 = progress := by
    cases progress <;> rfl
  have states_later : State.later 0 = id := rfl
  have within := passes.within 0 limit inside room
  rwa [progress_later, progress_later, states_later, List.map_id] at within

/-- A run from a later count is one from an earlier count. -/
theorem Passes.earlier (passes : p.Passes (start.later more) states progress)
    (inside : progress.steps ≤ p.stepLimit) :
    ∃ states' progress', progress = progress'.later more ∧ p.Passes start states' progress' := by
  induction passes with
  | start => exact ⟨[], start, rfl, .start⟩
  | @step states s _ ih =>
    obtain ⟨states', progress', same, passes'⟩ := ih ((steps_step p s).trans inside)
    cases progress' with
    | finished m outcome => cases same
    | running s' =>
      cases same
      have counted : (p.step (s'.later more)).steps = (p.step s').steps + more := by
        rw [steps_step_eq, steps_step_eq, Nat.add_right_comm]
        rfl
      rw [counted] at inside
      have step := step_within (p := p) s' more p.stepLimit (Nat.le_of_add_right_le inside) inside
      exact ⟨_, _, step, passes'.step⟩

/-- A run goes on over other callers until it ends. -/
theorem Passes.over {s : State} (passes : p.Passes (.running s) states progress) :
    p.Passes (.running (s.over under)) (states.map (State.over under)) (progress.over under) := by
  induction passes with
  | start => exact .start
  | @step states s' _ ih =>
    rw [List.map_append, ← over_step]
    exact .step ih

/-- Given steps enough, the run comes to this end. -/
def Comes (p : Program) (start : Progress) (h' : Heap) (outcome : Outcome) : Prop :=
  ∃ states cost, (p.within cost).Passes start states (.finished ⟨h', cost⟩ outcome)

/-- Given steps enough, the request comes to this outcome. -/
def Yields (p : Program) (h : Heap) (request : Request) : Heap → Outcome → Prop :=
  p.Comes (p.perform ⟨h, 0⟩ [] request)

/-- The request, made with nothing counted, returns within a limit of the steps that it takes, and
all states that it passes are of the kind. -/
def SettlesBy (p : Program) (kind : State → Prop) (h : Heap) (request : Request) (h' : Heap)
    (result : Option Value) : Prop :=
  ∃ states cost, (p.within cost).Passes (p.perform ⟨h, 0⟩ [] request) states
    (.finished ⟨h', cost⟩ (.ok result)) ∧ ∀ s ∈ states, kind s

/-- Given steps enough, the request returns. -/
def Settles (p : Program) : Heap → Request → Heap → Option Value → Prop :=
  p.SettlesBy fun _ => True

variable {h h' h'' : Heap} {result : Option Value} {cost : Nat}

theorem Settles.of_passes (passes : (p.within cost).Passes (p.perform ⟨h, 0⟩ [] request) states
    (.finished ⟨h', cost⟩ (.ok result))) : p.Settles h request h' result :=
  ⟨states, cost, passes, fun _ _ => trivial⟩

/-- Two runs that come to an end come to the same. -/
theorem Comes.unique {outcome outcome' : Outcome} (first : p.Comes start h' outcome)
    (second : p.Comes start h'' outcome') : h' = h'' ∧ outcome = outcome' := by
  obtain ⟨_, cost, passes⟩ := first
  obtain ⟨_, cost', passes'⟩ := second
  obtain ⟨same, same'⟩ := Passes.unique
    (passes.limited (max cost cost') (Nat.le_refl cost) (Nat.le_max_left _ _))
    (passes'.limited (max cost cost') (Nat.le_refl cost') (Nat.le_max_right _ _))
  exact ⟨congrArg Memory.heap same, same'⟩

theorem Settles.yields (settles : p.Settles h request h' result) :
    p.Yields h request h' (.ok result) := by
  obtain ⟨states, cost, passes, _⟩ := settles
  exact ⟨states, cost, passes⟩

/-- Two requests that settle come to the same. -/
theorem Settles.unique {result' : Option Value} (first : p.Settles h request h' result)
    (second : p.Settles h request h'' result') : h' = h'' ∧ result = result' := by
  obtain ⟨same, same'⟩ := first.yields.unique second.yields
  exact ⟨same, Except.ok.inj same'⟩

/-- Given steps enough, what is at work comes to its end with this result. -/
def Finishes (p : Program) (s : State) (h' : Heap) (result : Option Value) : Prop :=
  ∃ states cost, (p.within cost).Passes (.running s) states (.finished ⟨h', cost⟩ (.ok result))

theorem Finishes.settles (finishes : p.Finishes s h' result)
    (starts : p.perform ⟨h, 0⟩ [] request = .running s) : p.Settles h request h' result := by
  obtain ⟨states, cost, passes⟩ := finishes
  exact .of_passes (starts ▸ passes)

/-- The machine comes from the one state to the other, with a limit of the steps that this takes. -/
def Goes (p : Program) (s s' : State) : Prop :=
  ∃ states, (p.within s'.memory.steps).Passes (.running s) states (.running s')

theorem Goes.refl (s : State) : p.Goes s s := ⟨[], .start⟩

/-- … or with any that is no less. -/
theorem Goes.within (goes : p.Goes s s') (room : s'.memory.steps ≤ limit) :
    ∃ states, (p.within limit).Passes (.running s) states (.running s') := by
  obtain ⟨states, passes⟩ := goes
  exact ⟨states, passes.limited limit (Nat.le_refl _) room⟩

theorem Goes.steps_le (goes : p.Goes s s') : s.memory.steps ≤ s'.memory.steps := by
  obtain ⟨_, passes⟩ := goes
  exact passes.steps_le

theorem Goes.trans (first : p.Goes s s') (further : p.Goes s' s'') : p.Goes s s'' := by
  obtain ⟨states, passes⟩ := first.within further.steps_le
  obtain ⟨states', passes'⟩ := further
  exact ⟨_, passes.trans passes'⟩

theorem Goes.comes {outcome : Outcome} (goes : p.Goes s s')
    (further : p.Comes (.running s') h' outcome) : p.Comes (.running s) h' outcome := by
  obtain ⟨states', cost, passes'⟩ := further
  obtain ⟨states, passes⟩ : ∃ states, (p.within cost).Passes (.running s) states (.running s') :=
    goes.within passes'.steps_le
  exact ⟨_, cost, passes.trans passes'⟩

variable {f f' : Frame} {i : Instr} {c : Call}

/-- An instruction that changes the activation and the heap. -/
theorem Goes.next {heap : Heap} (here : f.current? = some i)
    (run : f.exec m.heap i = .ok (.next f' heap)) :
    p.Goes ⟨m, .frame f, callers⟩ ⟨⟨heap, m.steps + 1⟩, .frame f', callers⟩ := by
  have step : (p.within (m.steps + 1)).step ⟨m, .frame f, callers⟩ = _ :=
    step_next here (Nat.le_refl _) run
  exact ⟨_, step ▸ Passes.start.step⟩

theorem step_leave (here : f.current? = some i) (enough : m.steps + 1 ≤ p.stepLimit)
    (run : f.exec m.heap i = .ok (.leave result)) :
    p.step ⟨m, .frame f, callers⟩ = resume { m with steps := m.steps + 1 } result callers := by
  show p.stepFrame m callers f = _
  rw [stepFrame, here]
  dsimp only
  rw [if_neg (Nat.not_lt.2 enough), run]

theorem step_fell (out : f.current? = none) :
    p.step ⟨m, .frame f, callers⟩ = fail m callers (.fellOffEnd f.methodName) := by
  show p.stepFrame m callers f = _
  rw [stepFrame, out]

theorem step_failed {e : ExecError} (here : f.current? = some i)
    (enough : m.steps + 1 ≤ p.stepLimit) (run : f.exec m.heap i = .error e) :
    p.step ⟨m, .frame f, callers⟩ = fail { m with steps := m.steps + 1 } callers e := by
  show p.stepFrame m callers f = _
  rw [stepFrame, here]
  dsimp only
  rw [if_neg (Nat.not_lt.2 enough), run]

theorem step_asked {effect : Effect} {takes : Bool} (here : f.current? = some i)
    (enough : m.steps + 1 ≤ p.stepLimit) (run : f.exec m.heap i = .ok effect)
    (asks : effect.Asks f' takes request) : p.step ⟨m, .frame f, callers⟩ =
      p.perform { m with steps := m.steps + 1 } (.frame f' takes :: callers) request := by
  show p.stepFrame m callers f = _
  rw [stepFrame, here]
  dsimp only
  rw [if_neg (Nat.not_lt.2 enough), run]
  cases asks <;> rfl

/-- What an activation asks for is handed to it, given steps enough. -/
theorem Yields.delivered {effect : Effect} {takes : Bool} {outcome : Outcome}
    (yields : p.Yields m.heap request h' outcome) (here : f.current? = some i)
    (run : f.exec m.heap i = .ok effect) (asks : effect.Asks f' takes request)
    (callers : List Caller) :
    ∃ states cost, (p.within cost).Passes (.running ⟨m, .frame f, callers⟩) states
      (deliver ⟨h', cost⟩ (.frame f' takes :: callers) outcome) := by
  obtain ⟨states, cost, passes⟩ := yields
  have called := passes.within (m.steps + 1) (cost + (m.steps + 1)) (Nat.le_refl _) (Nat.le_refl _)
  rw [← later_perform] at called
  have counted : (⟨m.heap, 0⟩ : Memory).later (m.steps + 1) = { m with steps := m.steps + 1 } := by
    rw [Memory.later, Nat.zero_add]
  rw [counted] at called
  obtain ⟨s, starts⟩ := (p.enters_perform { m with steps := m.steps + 1 } [] request).running
  rw [starts] at called
  have waited : Passes _ (.running (s.over (.frame f' takes :: callers))) _ _ := called.over
  have step : (p.within (cost + (m.steps + 1))).step ⟨m, .frame f, callers⟩ = _ :=
    step_asked here (show m.steps + 1 ≤ cost + (m.steps + 1) from Nat.le_add_left _ _) run asks
  have entered : (p.within (cost + (m.steps + 1))).perform { m with steps := m.steps + 1 }
      (.frame f' takes :: callers) request =
      .running (s.over (.frame f' takes :: callers)) := by
    show (p.within _).perform _ ([] ++ _) request = _
    rw [perform_within, over_perform, starts]
    rfl
  rw [entered] at step
  have whole := (step ▸ Passes.start.step).trans waited
  cases outcome <;> exact ⟨_, _, whole⟩

/-- An activation that gets what it asks for goes on. -/
theorem Goes.asked {effect : Effect} {takes : Bool} (here : f.current? = some i)
    (run : f.exec m.heap i = .ok effect) (asks : effect.Asks f' takes request)
    (yields : p.Yields m.heap request h' (.ok result)) :
    ∃ steps, p.Goes ⟨m, .frame f, callers⟩
      ⟨⟨h', steps⟩, .frame (f'.accept takes result), callers⟩ := by
  obtain ⟨states, cost, passes⟩ := yields.delivered here run asks callers
  exact ⟨cost, states, passes⟩

/-- A call that settles. -/
theorem Goes.invoke (here : f.current? = some i) (run : f.exec m.heap i = .ok (.invoke f' c))
    (settles : p.Settles m.heap (.invoke c) h' result) :
    ∃ steps, p.Goes ⟨m, .frame f, callers⟩
      ⟨⟨h', steps⟩, .frame (f'.accept c.method.returns.isSome result), callers⟩ :=
  Goes.asked here run .invoke settles.yields

/-- A request that comes to where its code returns. -/
theorem Goes.settles (goes : p.Goes s ⟨m, .frame f, []⟩)
    (starts : p.perform ⟨h, 0⟩ [] request = .running s) (here : f.current? = some i)
    (run : f.exec m.heap i = .ok (.leave result)) : p.Settles h request m.heap result := by
  obtain ⟨states, passes⟩ := goes.within (Nat.le_succ m.steps)
  have last : (p.within (m.steps + 1)).step ⟨m, .frame f, []⟩ = _ :=
    step_leave here (Nat.le_refl _) run
  have returns := passes.step
  rw [last, ← starts] at returns
  exact .of_passes returns

end Program

end ReleaseWeaver.Machine
