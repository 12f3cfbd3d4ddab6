import ReleaseWeaver.Proofs.Machine.Settling

/-
  The trail of an activation: the instructions that it executes, with whatever it asks for taken as
  one step, and the log of what it has asked for and got. Given steps enough, the machine comes
  with an activation to the ends that its trail has, and to no other. So two activations are
  compared by their trails, and what is called is left to the machine. Main statement:
  `Program.comes_iff_fullTrail`.
-/

namespace ReleaseWeaver.Machine

/-- What an activation has asked for, and what that has come to. -/
abbrev Exchange := Request × Outcome

/-- What the next instruction of the activation comes to, if there is one. -/
def Frame.effect? (g : Frame) (h : Heap) : Option (Except ExecError Effect) :=
  g.current?.map (g.exec h)

theorem Frame.effect?_eq_some {g : Frame} {h : Heap} {r : Except ExecError Effect} :
    g.effect? h = some r ↔ ∃ i, g.current? = some i ∧ g.exec h i = r :=
  Option.map_eq_some_iff

theorem Effect.Asks.unique {effect : Effect} {g g' : Frame} {takes takes' : Bool}
    {request request' : Request} (asks : effect.Asks g takes request)
    (asks' : effect.Asks g' takes' request') : g = g' ∧ takes = takes' ∧ request = request' := by
  cases asks <;> cases asks' <;> exact ⟨rfl, rfl, rfl⟩

/-- The next instruction of the activation asks for something. -/
def Frame.AsksFor (g : Frame) (h : Heap) (g' : Frame) (takes : Bool) (request : Request) : Prop :=
  ∃ effect, g.effect? h = some (.ok effect) ∧ effect.Asks g' takes request

theorem Frame.AsksFor.of_effect {g g' : Frame} {h : Heap} {takes : Bool} {request : Request}
    {effect : Effect} (asks : g.AsksFor h g' takes request)
    (next : g.effect? h = some (.ok effect)) : effect.Asks g' takes request := by
  obtain ⟨effect', next', asks'⟩ := asks
  cases next.symm.trans next'
  exact asks'

theorem Frame.AsksFor.unique {g g₁ g₂ : Frame} {h : Heap} {takes₁ takes₂ : Bool}
    {request₁ request₂ : Request} (first : g.AsksFor h g₁ takes₁ request₁)
    (second : g.AsksFor h g₂ takes₂ request₂) :
    g₁ = g₂ ∧ takes₁ = takes₂ ∧ request₁ = request₂ := by
  obtain ⟨effect, next, asks⟩ := second
  exact (first.of_effect next).unique asks

namespace Program

/-- An activation executes an instruction that does not end it. -/
inductive Acts (p : Program) (g : Frame) (h : Heap) : List Exchange → Frame → Heap → Prop where
  | moved {g' h'} : g.effect? h = some (.ok (.next g' h')) → p.Acts g h [] g' h'
  | answered {g' takes request h' result} : g.AsksFor h g' takes request →
      p.Yields h request h' (.ok result) →
      p.Acts g h [(request, .ok result)] (g'.accept takes result) h'

/-- An activation ends at its next instruction, or because there is none. -/
inductive Stops (p : Program) (g : Frame) (h : Heap) : List Exchange → Outcome → Heap → Prop where
  | fell : g.effect? h = none → p.Stops g h [] (.error (.fellOffEnd g.methodName)) h
  | failed {e} : g.effect? h = some (.error e) → p.Stops g h [] (.error e) h
  | left {result} : g.effect? h = some (.ok (.leave result)) → p.Stops g h [] (.ok result) h
  | refused {g' takes request h' e} : g.AsksFor h g' takes request →
      p.Yields h request h' (.error e) →
      p.Stops g h [(request, .error e)] (.error e) h'

/-- An activation on a heap comes to another state of itself and another heap, with a log. -/
inductive Trail (p : Program) (f : Frame) (h : Heap) : List Exchange → Frame → Heap → Prop where
  | start : p.Trail f h [] f h
  | act {log more g h₁ g' h₂} : p.Trail f h log g h₁ → p.Acts g h₁ more g' h₂ →
      p.Trail f h (log ++ more) g' h₂

/-- A trail to the end of the activation. -/
def FullTrail (p : Program) (f : Frame) (h : Heap) (log : List Exchange) (outcome : Outcome)
    (h' : Heap) : Prop :=
  ∃ before last g h₁, p.Trail f h before g h₁ ∧ p.Stops g h₁ last outcome h' ∧ log = before ++ last

/-- Where a run with nothing below the activation is: the activation is at work after a trail, or
waits for what it has asked for, or has ended. -/
inductive Follows (p : Program) (limit : Nat) (f : Frame) (h : Heap) : Progress → Prop where
  | atWork {log g m} : p.Trail f h log g m.heap → Follows p limit f h (.running ⟨m, .frame g, []⟩)
  | waiting {log g h₁ g' takes request k states s} : p.Trail f h log g h₁ →
      g.AsksFor h₁ g' takes request →
      (p.within limit).Passes (p.perform ⟨h₁, k⟩ [] request) states (.running s) →
      Follows p limit f h (.running (s.over [.frame g' takes]))
  | failing {log m e} : p.FullTrail f h log (.error e) m.heap →
      Follows p limit f h (.running ⟨m, .failure e, []⟩)
  | ended {log m outcome} : p.FullTrail f h log outcome m.heap →
      Follows p limit f h (.finished m outcome)

variable {p : Program} {f g g' : Frame} {m : Memory} {h h' h₁ : Heap} {s : State} {limit k : Nat}
  {log more last : List Exchange} {outcome : Outcome} {callers : List Caller} {request : Request}
  {states : List State} {progress : Progress}

theorem Trail.trans {g' : Frame} (first : p.Trail f h log g h₁)
    (further : p.Trail g h₁ more g' h') :
    p.Trail f h (log ++ more) g' h' := by
  induction further with
  | start => rwa [List.append_nil]
  | act _ acts ih => exact List.append_assoc log _ _ ▸ ih.act acts

theorem Acts.trail (acts : p.Acts f h log g h') : p.Trail f h log g h' :=
  .act .start acts

theorem Trail.full (trail : p.Trail f h log g h₁) (stops : p.Stops g h₁ last outcome h') :
    p.FullTrail f h (log ++ last) outcome h' :=
  ⟨log, last, g, h₁, trail, stops, rfl⟩

theorem Acts.unique {more' : List Exchange} {g'' : Frame} {h'' : Heap}
    (first : p.Acts g h more g' h') (second : p.Acts g h more' g'' h'') :
    more = more' ∧ g' = g'' ∧ h' = h'' := by
  cases first with
  | moved next =>
    cases second with
    | moved next' =>
      cases next.symm.trans next'
      exact ⟨rfl, rfl, rfl⟩
    | answered asks' => cases asks'.of_effect next
  | answered asks yields =>
    cases second with
    | moved next' => cases asks.of_effect next'
    | answered asks' yields' =>
      obtain ⟨rfl, rfl, rfl⟩ := asks.unique asks'
      obtain ⟨rfl, same⟩ := yields.unique yields'
      cases same
      exact ⟨rfl, rfl, rfl⟩

/-- An activation that goes on does not end. -/
theorem Acts.not_stops {h'' : Heap} (acts : p.Acts g h more g' h') :
    ¬p.Stops g h last outcome h'' := by
  intro stops
  cases acts with
  | moved next =>
    cases stops with
    | fell next' | failed next' | left next' => cases next.symm.trans next'
    | refused asks' => cases asks'.of_effect next
  | answered asks yields =>
    cases stops with
    | fell next' | failed next' =>
      obtain ⟨_, next, _⟩ := asks
      cases next.symm.trans next'
    | left next' => cases asks.of_effect next'
    | refused asks' yields' =>
      obtain ⟨rfl, rfl, rfl⟩ := asks.unique asks'
      cases (yields.unique yields').2

/-! ## The machine follows a trail -/

theorem Acts.goes (acts : p.Acts g m.heap more g' h') (callers : List Caller) :
    ∃ steps, p.Goes ⟨m, .frame g, callers⟩ ⟨⟨h', steps⟩, .frame g', callers⟩ := by
  cases acts with
  | moved next =>
    obtain ⟨i, here, run⟩ := Frame.effect?_eq_some.1 next
    exact ⟨_, .next here run⟩
  | answered asks yields =>
    obtain ⟨effect, next, asks⟩ := asks
    obtain ⟨i, here, run⟩ := Frame.effect?_eq_some.1 next
    exact Goes.asked here run asks yields

theorem Trail.goes (trail : p.Trail f m.heap log g h') (callers : List Caller) :
    ∃ steps, p.Goes ⟨m, .frame f, callers⟩ ⟨⟨h', steps⟩, .frame g, callers⟩ := by
  induction trail with
  | start => exact ⟨m.steps, .refl _⟩
  | @act _ _ g h₁ _ _ _ acts ih =>
    obtain ⟨steps, goes⟩ := ih
    obtain ⟨steps', goes'⟩ := Acts.goes (m := ⟨h₁, steps⟩) acts callers
    exact ⟨steps', goes.trans goes'⟩

theorem Stops.comes (stops : p.Stops g m.heap last outcome h') :
    p.Comes (.running ⟨m, .frame g, []⟩) h' outcome := by
  -- A failure that nothing waits for is the end.
  have fails {limit : Nat} {m' : Memory} {e : ExecError} {states : List State}
      (passes : (p.within limit).Passes (.running ⟨m, .frame g, []⟩) states (fail m' [] e)) :
      (p.within limit).Passes (.running ⟨m, .frame g, []⟩) (states ++ [⟨m', .failure e, []⟩])
        (.finished m' (.error e)) := passes.step
  have first (limit : Nat) : (p.within limit).Passes (.running ⟨m, .frame g, []⟩) [_] _ :=
    Passes.start.step
  cases stops with
  | fell out =>
    exact ⟨_, m.steps, fails (step_fell (Option.map_eq_none_iff.1 out) ▸ first m.steps)⟩
  | failed next =>
    obtain ⟨i, here, run⟩ := Frame.effect?_eq_some.1 next
    have step : (p.within (m.steps + 1)).step ⟨m, .frame g, []⟩ = _ :=
      step_failed here (Nat.le_refl _) run
    exact ⟨_, m.steps + 1, fails (step ▸ first (m.steps + 1))⟩
  | left next =>
    obtain ⟨i, here, run⟩ := Frame.effect?_eq_some.1 next
    have step : (p.within (m.steps + 1)).step ⟨m, .frame g, []⟩ = _ :=
      step_leave here (Nat.le_refl _) run
    exact ⟨_, m.steps + 1, step ▸ first (m.steps + 1)⟩
  | refused asks yields =>
    obtain ⟨effect, next, asks⟩ := asks
    obtain ⟨i, here, run⟩ := Frame.effect?_eq_some.1 next
    obtain ⟨states, cost, passes⟩ := yields.delivered here run asks []
    exact ⟨_, cost, fails passes⟩

/-! ## A trail follows the machine -/

theorem Yields.of_passes
    (passes : (p.within limit).Passes (p.perform ⟨h, k⟩ [] request) states (.finished m outcome))
    (inside : m.steps ≤ limit) : p.Yields h request m.heap outcome := by
  have later : p.perform ⟨h, k⟩ [] request = (p.perform ⟨h, 0⟩ [] request).later k := by
    rw [← later_perform, Memory.later, Nat.zero_add]
  rw [later] at passes
  obtain ⟨states', progress, same, passes'⟩ := passes.earlier inside
  cases progress with
  | running s => cases same
  | finished m' outcome' =>
    cases same
    exact ⟨states', m'.steps,
      passes'.limited m'.steps (Nat.le_of_add_right_le inside) (Nat.le_refl _)⟩

theorem Trail.follows_stepFrame (trail : p.Trail f h log g m.heap)
    (inside : ((p.within limit).step ⟨m, .frame g, []⟩).steps ≤ limit) :
    p.Follows limit f h ((p.within limit).step ⟨m, .frame g, []⟩) := by
  cases here : g.current? with
  | none =>
    rw [step_fell here]
    exact .failing (trail.full (.fell (Option.map_eq_none_iff.2 here)))
  | some i =>
    have enough : m.steps + 1 ≤ (p.within limit).stepLimit := by
      rw [steps_step_eq, State.executes] at inside
      dsimp only at inside
      rwa [here] at inside
    have next : g.effect? m.heap = some (g.exec m.heap i) := Frame.effect?_eq_some.2 ⟨i, here, rfl⟩
    cases run : g.exec m.heap i with
    | error e =>
      rw [step_failed here enough run]
      exact .failing (trail.full (.failed (run ▸ next)))
    | ok effect =>
      have asked {g' : Frame} {takes : Bool} {request : Request}
          (asks : effect.Asks g' takes request) :
          p.Follows limit f h ((p.within limit).step ⟨m, .frame g, []⟩) := by
        obtain ⟨s, starts⟩ :=
          (p.enters_perform { m with steps := m.steps + 1 } [] request).running
        have step : (p.within limit).step ⟨m, .frame g, []⟩ =
            .running (s.over [.frame g' takes]) := by
          rw [step_asked here enough run asks, perform_within]
          show p.perform _ ([] ++ _) request = _
          rw [over_perform, starts]
          rfl
        have begins : (p.within limit).Passes (p.perform { m with steps := m.steps + 1 } [] request)
            [] (.running s) := starts ▸ .start
        rw [step]
        exact .waiting trail ⟨effect, run ▸ next, asks⟩ begins
      cases effect with
      | next g' h' =>
        rw [step_next here enough run]
        exact .atWork (trail.act (.moved (run ▸ next)))
      | construct g' className args => exact asked .construct
      | invoke g' c => exact asked .invoke
      | leave result =>
        rw [step_leave here enough run]
        exact .ended (trail.full (.left (run ▸ next)))

theorem Follows.step (follows : p.Follows limit f h (.running s))
    (inside : ((p.within limit).step s).steps ≤ limit) :
    p.Follows limit f h ((p.within limit).step s) := by
  cases follows with
  | atWork trail => exact trail.follows_stepFrame inside
  | @waiting log g h₁ g' takes request k states s trail asks passes =>
    have further := passes.step
    rw [over_step] at inside ⊢
    generalize (p.within limit).step s = progress at further inside ⊢
    cases progress with
    | running s' => exact .waiting trail asks further
    | finished m outcome =>
      cases outcome with
      | ok result =>
        have yields : p.Yields h₁ request m.heap (.ok result) := .of_passes further inside
        exact .atWork (trail.act (.answered asks yields))
      | error e =>
        have yields : p.Yields h₁ request m.heap (.error e) := .of_passes further inside
        exact .failing (trail.full (.refused asks yields))
  | failing full => exact .ended full

theorem Passes.follows
    (passes : (p.within limit).Passes (.running ⟨⟨h, k⟩, .frame f, []⟩) states progress)
    (inside : progress.steps ≤ limit) : p.Follows limit f h progress := by
  induction passes with
  | start => exact .atWork .start
  | step _ ih => exact (ih ((steps_step _ _).trans inside)).step inside

/-- The machine comes with an activation to the ends that its trail has. -/
theorem comes_iff_fullTrail :
    p.Comes (.running ⟨⟨h, 0⟩, .frame f, []⟩) h' outcome ↔
      ∃ log, p.FullTrail f h log outcome h' := by
  constructor
  · rintro ⟨states, cost, passes⟩
    cases passes.follows (Nat.le_refl cost) with
    | ended full => exact ⟨_, full⟩
  · rintro ⟨log, before, last, g, h₁, trail, stops, -⟩
    obtain ⟨steps, goes⟩ := Trail.goes (m := ⟨h, 0⟩) trail []
    exact goes.comes (Stops.comes (m := ⟨h₁, steps⟩) stops)

end Program

end ReleaseWeaver.Machine
