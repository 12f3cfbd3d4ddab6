import ReleaseWeaver.Proofs.Machine.Activations

/-
  Requests that return. Code never looks at who waits for it: the machine takes the same steps over
  any callers, and hands its outcome to them at the end. So a request that somebody waits for
  returns exactly if the request of a host does, through the same states but for those who wait.
  Main statement: `Program.Returns.alone`.
-/

namespace ReleaseWeaver.Machine

variable {p : Program} {memory m : Memory} {callers under : List Caller} {request : Request}
  {states : List State} {progress : Progress}

/-- The state with others who wait below. -/
def State.over (under : List Caller) (s : State) : State :=
  { s with callers := s.callers ++ under }

/-- What those below get is the outcome. -/
def Progress.over (under : List Caller) : Progress → Progress
  | .running s => .running (s.over under)
  | .finished m outcome => deliver m under outcome

theorem over_resume (result : Option Value) :
    resume m result (callers ++ under) = (resume m result callers).over under := by
  cases callers with
  | nil => rfl
  | cons caller callers => cases caller <;> rfl

theorem over_unwind (e : ExecError) :
    unwind m e (callers ++ under) = (unwind m e callers).over under := by
  cases callers with
  | nil => rfl
  | cons caller callers => cases caller <;> rfl

namespace Program

theorem over_enter (callers : List Caller) (callee : Callee) (args : List Value) :
    enter m (callers ++ under) callee args = (enter m callers callee args).over under := by
  cases callee <;> rfl

theorem over_perform (callers : List Caller) (request : Request) :
    p.perform m (callers ++ under) request = (p.perform m callers request).over under := by
  cases request with
  | construct className args =>
    show p.construct _ _ _ _ = (p.construct _ _ _ _).over under
    unfold construct
    dsimp only
    split
    · exact over_enter (.constructing _ :: callers) _ _
    · rfl
  | callByName receiver name args =>
    show p.callOn _ _ _ _ _ = (p.callOn _ _ _ _ _).over under
    unfold callOn
    split
    · rfl
    · split
      · exact over_enter callers _ _
      · rfl
  | invoke c =>
    show p.invoke _ _ _ = (p.invoke _ _ _).over under
    unfold invoke
    split
    · exact over_enter callers _ _
    · rfl

/-- A step is the same over any callers. -/
theorem over_step (s : State) : p.step (s.over under) = (p.step s).over under := by
  obtain ⟨memory, active, callers⟩ := s
  cases active with
  | native work =>
    cases work with
    | ask request next => exact over_perform (.native next :: callers) request
    | done outcome =>
      cases outcome with
      | ok result => exact over_resume result
      | error e => exact over_unwind e
  | failure e => exact over_unwind e
  | frame f =>
    show p.stepFrame memory (callers ++ under) f = (p.stepFrame memory callers f).over under
    unfold stepFrame
    split
    · rfl
    · dsimp only
      split
      · rfl
      · split
        · rfl
        · rfl
        · next f' className args _ =>
          exact over_perform (.frame f' true :: callers) (.construct className args)
        · next f' c _ =>
          exact over_perform (.frame f' c.method.returns.isSome :: callers) (.invoke c)
        · exact over_resume _

/-- A request that comes back to those who wait for it: the states that it passes, what it leaves,
and its result. In the last state nothing but them is left of the request's callers, and the code
at work ends. -/
structure Returns (p : Program) (memory : Memory) (under : List Caller) (request : Request)
    (states : List State) (m : Memory) (result : Option Value) : Prop where
  passes : p.Passes (p.perform memory under request) states (resume m result under)
  within : ∀ s ∈ states, under.length ≤ s.callers.length
  ends : ∃ s, states.getLast? = some s ∧ s.callers = under ∧
    p.step { s with callers := [] } = .finished m (.ok result)

variable {result : Option Value}

theorem Returns.of_finished
    (passes : p.Passes (p.perform memory [] request) states (.finished m (.ok result))) :
    p.Returns memory [] request states m result := by
  refine ⟨passes, fun _ _ => Nat.zero_le _, ?_⟩
  obtain ⟨s, running⟩ := (p.enters_perform memory [] request).running
  rw [running] at passes
  generalize same : Progress.finished m (.ok result) = progress at passes
  cases passes with
  | start => cases same
  | @step states s _ =>
    obtain ⟨bottom, _⟩ := ends_of_finished same.symm
    obtain ⟨memory, active, callers⟩ := s
    cases bottom
    exact ⟨_, List.getLast?_concat, rfl, rfl⟩

/-- As long as a run stays over its callers, it is the run without them. -/
theorem Passes.alone {start : Progress} (passes : p.Passes (start.over under) states progress)
    (within : ∀ s ∈ states, under.length ≤ s.callers.length) :
    ∃ states' progress', states = states'.map (State.over under) ∧
      progress = progress'.over under ∧ p.Passes start states' progress' := by
  induction passes with
  | start => exact ⟨[], start, rfl, rfl, .start⟩
  | @step states s _ ih =>
    obtain ⟨within, last⟩ := List.forall_mem_append.1 within
    obtain ⟨states', progress', rfl, same, passes⟩ := ih within
    cases progress' with
    | running s' =>
      cases same
      exact ⟨states' ++ [s'], p.step s', by simp, over_step s', passes.step⟩
    | finished m outcome =>
      -- The run without the callers has ended, so this state is below them.
      have below : s.callers.length < under.length := by
        cases outcome with
        | ok result => exact length_resume same.symm
        | error e => exact length_unwind same.symm
      exact absurd (last s (List.mem_singleton_self s)) (Nat.not_le.2 below)

/-- What returns to those who wait for it returns to a host in the same way. -/
theorem Returns.alone (returns : p.Returns memory under request states m result) :
    ∃ states', states = states'.map (State.over under) ∧
      p.Passes (p.perform memory [] request) states' (.finished m (.ok result)) := by
  obtain ⟨passes, within, s, last, bottom, ends⟩ := returns
  rw [show under = [] ++ under from rfl, over_perform] at passes
  obtain ⟨states', progress', rfl, -, passes'⟩ := passes.alone within
  refine ⟨states', rfl, ?_⟩
  rw [List.getLast?_map] at last
  obtain ⟨s', last', rfl⟩ := Option.map_eq_some_iff.1 last
  cases passes' with
  | start => cases last'
  | @step states s passes₀ =>
    rw [List.getLast?_concat] at last'
    cases last'
    have alone : s'.callers = [] := List.append_left_eq_self.1 bottom
    have same : { s'.over under with callers := [] } = s' := by
      rw [← alone]
      rfl
    rw [same] at ends
    exact ends ▸ passes₀.step

end Program

end ReleaseWeaver.Machine
