import ReleaseWeaver.Proofs.Machine.Settling

/-
  Bodies that go on where others end. One body prolongs another if their lines agree as far as the
  final `ret` of the other one, each branch leading to the same position, and a run of lines stands
  before its own `ret`. An invocation of the one body is followed in lockstep by one of the other:
  it returns early as that does, or comes to the head of the run where the other one would return.
  Main statement: `Program.Finishes.prolonged`.
-/

namespace ReleaseWeaver

/-- The instruction in the one body does what the other does in the other body. -/
inductive Instr.Leads (b b' : Body) : Instr → Instr → Prop where
  | same {i} : i.target? = none → Leads b b' i i
  | branch {on t t'} : (∀ q, b.position? t = some q → b'.position? t' = some q) →
      Leads b b' (.branch on t) (.branch on t')

/-- The lines of `b` before its final `ret`, then the lines of a run, and a `ret`. -/
structure Body.Prolongs (b b' : Body) (run : List Instr) : Prop where
  ends : b.instrs.getLast? = some .ret
  locals : b'.locals = b.locals
  front : ∀ q i, q + 1 < b.length → b.instrs[q]? = some i →
    ∃ i', b'.instrs[q]? = some i' ∧ i.Leads b b' i'
  run : ∀ (k : Nat) i, (run ++ [.ret])[k]? = some i → b'.instrs[b.length - 1 + k]? = some i

namespace Machine

/-! ## Programs that agree -/

namespace Program

/-- What the code at work asks for comes to the same in the other program. -/
def Agrees (p p' : Program) (s : State) : Prop :=
  ∀ m caller request, s.Asks m caller request → p'.perform m [] request = p.perform m [] request

variable {p p' : Program} {m : Memory} {s t : State} {under : List Caller} {caller : Caller}
  {request : Request} {states : List State} {start progress : Progress}

theorem Agrees.within (agrees : p.Agrees p' s) (limit limit' : Nat) :
    (p.within limit).Agrees (p'.within limit') s := by
  intro m caller request asks
  rw [perform_within, perform_within]
  exact agrees m caller request asks

/-- It comes to the same whoever waits for it. -/
theorem Agrees.perform (agrees : p.Agrees p' s) (asks : s.Asks m caller request)
    (callers : List Caller) : p'.perform m callers request = p.perform m callers request := by
  rw [← List.nil_append callers, over_perform, over_perform, agrees m caller request asks]

/-- So does the step. -/
theorem Agrees.step (agrees : p.Agrees p' s) (limit : p'.stepLimit = p.stepLimit) :
    p'.step s = p.step s := by
  obtain ⟨memory, active, callers⟩ := s
  cases active with
  | native work =>
    cases work with
    | ask request next => exact agrees.perform .native (.native next :: callers)
    | done outcome => cases outcome <;> rfl
  | failure e => rfl
  | frame f =>
    show p'.stepFrame memory callers f = p.stepFrame memory callers f
    unfold stepFrame
    rw [limit]
    split
    · rfl
    · next i here =>
      dsimp only
      split
      · rfl
      · split
        · rfl
        · rfl
        · next f' className args run =>
          exact agrees.perform (.construct here (Frame.executes_of_exec run))
            (.frame f' true :: callers)
        · next f' c run =>
          exact agrees.perform (.invoke here (Frame.executes_of_exec run))
            (.frame f' c.method.returns.isSome :: callers)
        · rfl

/-- And so does a whole run, if the programs agree on its states. -/
theorem Passes.agreed (passes : p.Passes start states progress)
    (agree : ∀ s ∈ states, p.Agrees p' s) (limit : p'.stepLimit = p.stepLimit) :
    p'.Passes start states progress := by
  induction passes with
  | start => exact .start
  | @step states s _ ih =>
    obtain ⟨before, last⟩ := List.forall_mem_append.1 agree
    rw [← (last s (List.mem_singleton_self s)).step limit]
    exact (ih before).step

/-- What a request does that the programs answer alike, and so on, it does in both. -/
theorem SettlesBy.agreed {h h' : Heap} {result : Option Value}
    (settles : p.SettlesBy (p.Agrees p') h request h' result)
    (starts : p.perform ⟨h, 0⟩ [] request = .running s) : p'.Finishes s h' result := by
  obtain ⟨states, cost, passes, agree⟩ := settles
  exact ⟨states, cost, starts ▸ passes.agreed
    (fun s listed => (agree s listed).within cost cost) rfl⟩

end Program

/-! ## The same activation in two bodies -/

/-- The activation in another body. -/
def Frame.into (f : Frame) (b : Body) : Frame := { f with body := b }

/-- What an instruction comes to in an activation in another body. -/
def Effect.into (b : Body) : Effect → Effect
  | .next f h => .next (f.into b) h
  | .construct f className args => .construct (f.into b) className args
  | .invoke f c => .invoke (f.into b) c
  | .leave result => .leave result

/-- The activation is one of the same invocation. -/
structure Frame.Continues (f first : Frame) : Prop where
  body : f.body = first.body
  args : f.args = first.args
  returnsValue : f.returnsValue = first.returnsValue

namespace Frame

variable {f f' first : Frame} {b b' : Body} {h h' : Heap} {i i' : Instr} {effect : Effect}

theorem current?_eq (f : Frame) : f.current? = f.body.instrs[f.position]? := by
  rw [current?, Body.instrs, List.getElem?_map]

theorem Continues.trans (further : f'.Continues f) (continues : f.Continues first) :
    f'.Continues first :=
  ⟨further.body.trans continues.body, further.args.trans continues.args,
    further.returnsValue.trans continues.returnsValue⟩

theorem Continues.accept (continues : f.Continues first) (takes : Bool) (result : Option Value) :
    (f.accept takes result).Continues first := by
  cases takes <;> exact ⟨continues.body, continues.args, continues.returnsValue⟩

theorem Executes.continues (executes : f.Executes h i effect) :
    match effect with
    | .next f' _ | .construct f' _ _ | .invoke f' _ => f'.Continues f
    | .leave _ => True := by
  cases executes <;> first | trivial | exact ⟨rfl, rfl, rfl⟩

theorem jump_into {stack : List Value} {t t' : Handle}
    (leads : ∀ q, f.body.position? t = some q → b'.position? t' = some q)
    (jumps : f.jump stack t = .ok f') : (f.into b').jump stack t' = .ok (f'.into b') := by
  obtain ⟨q, there, rfl⟩ := jump_eq_ok jumps
  rw [jump, show (f.into b').body = b' from rfl, leads q there]
  rfl

/-- An instruction without a target does not look at the body. -/
theorem exec_into_straight (straight : i.target? = none) (run : f.exec h i = .ok effect) :
    (f.into b').exec h i = .ok (effect.into b') := by
  have executes := executes_of_exec run
  cases executes with
  | nop | ldint | ldstr | ldnull => rfl
  | ldarg there => rw [exec_ldarg, show (f.into b').args = f.args from rfl, there]; rfl
  | ldloc there => rw [exec_ldloc, show (f.into b').locals = f.locals from rfl, there]; rfl
  | stloc stack inside =>
    rw [exec_stloc (show (f.into b').stack = _ from stack),
      show (f.into b').locals = f.locals from rfl, if_pos inside]
    rfl
  | @ldfld field n o rest stack there =>
    rw [exec_ldfld (show (f.into b').stack = _ from stack) (Value.noConfusion ·)]
    simp only [Heap.field, Heap.object, there]
    rfl
  | stfld stack there =>
    rw [exec_stfld (show (f.into b').stack = _ from stack) (Value.noConfusion ·)]
    simp only [Heap.setField, Heap.object, there]
    rfl
  | newobj all =>
    rw [exec_newobj, show (f.into b').stack = f.stack from rfl, take?, if_pos all]
    rfl
  | invoke all =>
    rw [exec_invoke, show (f.into b').stack = f.stack from rfl, take?, if_pos all]
    rfl
  | dup stack => rw [exec_dup (show (f.into b').stack = _ from stack)]; rfl
  | pop stack => rw [exec_pop (show (f.into b').stack = _ from stack)]; rfl
  | always | taken | passed => cases straight
  | ret value none =>
    rw [exec_ret] at run ⊢
    exact run

/-- In step, the instructions of both bodies come to the same. -/
theorem exec_into (leads : i.Leads f.body b' i') (run : f.exec h i = .ok effect) :
    (f.into b').exec h i' = .ok (effect.into b') := by
  cases leads with
  | same straight => exact exec_into_straight straight run
  | @branch on t t' leads =>
    by_cases always : on = .always
    · subst always
      rw [exec_always] at run ⊢
      obtain ⟨f', jumps, rfl⟩ := map_eq_ok run
      rw [show (f.into b').stack = f.stack from rfl, jump_into leads jumps]
      rfl
    · obtain ⟨v, rest, stack⟩ : ∃ v rest, f.stack = v :: rest := by
        cases stack : f.stack with
        | nil =>
          have short : f.stack.length < (Instr.branch on t).pops f.returnsValue := by
            rw [stack]
            cases on with
            | always => exact absurd rfl always
            | _ => exact Nat.zero_lt_one
          rw [exec_underflow short] at run
          cases run
        | cons v rest => exact ⟨v, rest, rfl⟩
      rw [exec_branch stack always] at run
      rw [exec_branch (show (f.into b').stack = v :: rest from stack) always]
      split at run
      · next taken =>
        obtain ⟨f', jumps, rfl⟩ := map_eq_ok run
        rw [if_pos taken, jump_into leads jumps]
        rfl
      · next passed =>
        cases run
        rw [if_neg passed]
        rfl

end Frame

/-! ## In lockstep -/

/-- The states are the same but for the body of one invocation at the bottom. -/
inductive State.Matches (first : Frame) (b' : Body) : State → State → Prop where
  | working {m} {f : Frame} : f.Continues first →
      Matches first b' ⟨m, .frame f, []⟩ ⟨m, .frame (f.into b'), []⟩
  | waiting {s : State} {f : Frame} {takes} : f.Continues first →
      Matches first b' (s.over [.frame f takes]) (s.over [.frame (f.into b') takes])

/-- A failure that nothing waits for. -/
def State.Failing (s : State) : Prop := ∃ e, s.active = .failure e ∧ s.callers = []

namespace Program

variable {p : Program} {first f : Frame} {b b' : Body} {run : List Instr} {m : Memory}
  {s s' t : State} {states : List State} {progress : Progress}

theorem stuck_of_failing (failing : s.Failing) : ∀ t, p.step s ≠ .running t := by
  obtain ⟨e, active, callers⟩ := failing
  obtain ⟨memory, _, _⟩ := s
  cases active
  cases callers
  exact nofun

/-- What is handed to an invocation that waits at the bottom. -/
theorem matches_deliver (continues : f.Continues first) (takes : Bool) (outcome : Outcome)
    (next : deliver m [.frame f takes] outcome = .running t) : t.Failing ∨
      ∃ t', deliver m [.frame (f.into b') takes] outcome = .running t' ∧
        State.Matches first b' t t' := by
  cases outcome with
  | error e =>
    cases next
    exact .inl ⟨e, rfl, rfl⟩
  | ok result =>
    cases next
    refine .inr ⟨⟨m, .frame ((f.accept takes result).into b'), []⟩, ?_,
      .working (continues.accept takes result)⟩
    cases takes <;> rfl

/-- A request of the invocation is answered alike. -/
theorem matches_perform (request : Request) (continues : f.Continues first) (takes : Bool)
    (next : p.perform m [.frame f takes] request = .running t) :
    ∃ t', p.perform m [.frame (f.into b') takes] request = .running t' ∧
      State.Matches first b' t t' := by
  obtain ⟨s, starts⟩ := (p.enters_perform m [] request).running
  have waited (caller : Caller) :
      p.perform m [caller] request = (p.perform m [] request).over [caller] :=
    over_perform [] request
  rw [waited, starts] at next
  cases next
  rw [waited, starts]
  exact ⟨_, rfl, .waiting continues⟩

/-- A line of the one body is its final `ret`, or there is one in step in the other body. -/
theorem current?_of_prolongs {i : Instr} (prolongs : first.body.Prolongs b' run)
    (continues : f.Continues first) (here : f.current? = some i) :
    i = .ret ∧ f.position + 1 = first.body.length ∨ f.position + 1 < first.body.length ∧
      ∃ i', (f.into b').current? = some i' ∧ i.Leads f.body b' i' := by
  rw [f.current?_eq, continues.body] at here
  obtain ⟨inside, _⟩ := List.getElem?_eq_some_iff.1 here
  rw [Body.instrs, List.length_map] at inside
  obtain last | before : f.position + 1 = first.body.length ∨ f.position + 1 < first.body.length :=
    (Nat.succ_le_of_lt inside).eq_or_lt
  · refine .inl ⟨?_, last⟩
    have ret := prolongs.ends
    rw [List.getLast?_eq_getElem?, Body.instrs, List.length_map,
      show first.body.lines.length - 1 = f.position from Nat.sub_eq_of_eq_add last.symm,
      ← Body.instrs, here] at ret
    exact Option.some.inj ret
  · obtain ⟨i', line, leads⟩ := prolongs.front f.position i before here
    refine .inr ⟨before, i', ?_, continues.body ▸ leads⟩
    rw [Frame.current?_eq]
    exact line

/-- The step of an invocation at the bottom that has a line in step. -/
theorem matches_stepFrame {i i' : Instr} (continues : f.Continues first)
    (here : f.current? = some i) (here' : (f.into b').current? = some i')
    (leads : i.Leads f.body b' i') (next : p.stepFrame m [] f = .running t) :
    t.Failing ∨ ∃ t', p.stepFrame m [] (f.into b') = .running t' ∧
      State.Matches first b' t t' := by
  rw [stepFrame, here] at next
  rw [stepFrame, here']
  dsimp only at next ⊢
  split at next
  · cases next
    exact .inl ⟨_, rfl, rfl⟩
  next enough =>
  rw [if_neg enough]
  split at next
  · cases next
    exact .inl ⟨_, rfl, rfl⟩
  · next f' heap runs =>
    cases next
    rw [Frame.exec_into leads runs]
    have executes := Frame.executes_of_exec runs
    exact .inr ⟨_, rfl, .working (executes.continues.trans continues)⟩
  · next f' className args runs =>
    rw [Frame.exec_into leads runs]
    have executes := Frame.executes_of_exec runs
    exact .inr (matches_perform (.construct className args) (executes.continues.trans continues)
      true next)
  · next f' c runs =>
    rw [Frame.exec_into leads runs]
    have executes := Frame.executes_of_exec runs
    exact .inr (matches_perform (.invoke c) (executes.continues.trans continues)
      c.method.returns.isSome next)
  · cases next

/-- Unless a run comes to its end, a step of the one is a step of the other. -/
theorem matches_step (prolongs : first.body.Prolongs b' run) (together : s.Matches first b' s')
    (next : p.step s = .running t) :
    t.Failing ∨ ∃ t', p.step s' = .running t' ∧ State.Matches first b' t t' := by
  cases together with
  | @waiting s f takes continues =>
    rw [over_step] at next ⊢
    cases step : p.step s with
    | running t₀ =>
      rw [step] at next
      cases next
      exact .inr ⟨_, rfl, .waiting continues⟩
    | finished m outcome =>
      rw [step] at next
      exact matches_deliver continues takes outcome next
  | @working m f continues =>
    have step : p.stepFrame m [] f = .running t := next
    cases here : f.current? with
    | none =>
      rw [stepFrame, here] at step
      cases step
      exact .inl ⟨_, rfl, rfl⟩
    | some i =>
      obtain ⟨rfl, _⟩ | ⟨_, i', here', leads⟩ := current?_of_prolongs prolongs continues here
      · -- A `ret` of the invocation at the bottom ends the run, unless it fails.
        have steps := p.steps ⟨m, .frame f, []⟩
        rw [next] at steps
        generalize same : Progress.running t = progress at steps
        cases steps with
        | moved here' executes =>
          rw [here] at here'
          cases here'
          cases executes
        | asked asks =>
          cases asks with
          | construct here' executes | invoke here' executes =>
            rw [here] at here'
            cases here'
            cases executes
        | ended ends =>
          cases ends
          cases same
        | stuck =>
          cases same
          exact .inl ⟨_, rfl, rfl⟩
      · exact matches_stepFrame continues here here' leads step

/-- As far as a run comes without failing, the other body is followed in step. -/
theorem Passes.matches (prolongs : first.body.Prolongs b' run)
    (passes : p.Passes (.running ⟨m, .frame first, []⟩) states (.running s)) :
    s.Failing ∨ ∃ states' s',
      p.Passes (.running ⟨m, .frame (first.into b'), []⟩) states' (.running s') ∧
        s.Matches first b' s' := by
  generalize same : Progress.running s = progress at passes
  induction passes generalizing s with
  | start =>
    cases same
    exact .inr ⟨[], _, .start, .working ⟨rfl, rfl, rfl⟩⟩
  | @step states before passes ih =>
    obtain failing | ⟨states', before', passes', together⟩ := ih rfl
    · exact absurd same.symm (stuck_of_failing failing s)
    · obtain failing | ⟨s', next, together'⟩ := matches_step prolongs together same.symm
      · exact .inl failing
      · exact .inr ⟨_, s', next ▸ passes'.step, together'⟩

/-- The invocation at the bottom is left before the last line of its body. -/
def LeavesEarly (p : Program) (s : State) : Prop :=
  ∃ m f, p.Goes s ⟨m, .frame f, []⟩ ∧ f.current? = some .ret ∧ f.position + 1 < f.body.length

/-- Where an invocation of a body returns, one of a body that prolongs it returns early as well, or
comes to the head of the run with all that the first one returns from. -/
theorem Finishes.prolonged {h' : Heap} {result : Option Value}
    (finishes : p.Finishes ⟨m, .frame first, []⟩ h' result)
    (prolongs : first.body.Prolongs b' run) :
    p.LeavesEarly ⟨m, .frame first, []⟩ ∧ p.Finishes ⟨m, .frame (first.into b'), []⟩ h' result ∨
      ∃ (steps : Nat) (f : Frame), p.Goes ⟨m, .frame (first.into b'), []⟩
          ⟨⟨h', steps⟩, .frame (f.into b'), []⟩ ∧ f.Continues first ∧
        f.position + 1 = first.body.length ∧ (f.returnsValue = true → f.stack ≠ []) := by
  obtain ⟨states, cost, passes⟩ := finishes
  generalize ended : Progress.finished _ _ = progress at passes
  cases passes with
  | start => cases ended
  | @step states last passes =>
    obtain ⟨bottom, ends⟩ := ends_of_finished ended.symm
    obtain failing | ⟨states', last', passes', together⟩ := passes.matches prolongs
    · obtain ⟨e, active, _⟩ := failing
      obtain ⟨_, _, _⟩ := last
      cases active
      cases ends
    cases together with
    | waiting => cases List.append_eq_nil_iff.1 bottom |>.2
    | @working m f continues =>
      cases ends with
      | @left _ _ i _ _ here executes =>
        obtain ⟨_, final⟩ | ⟨before, i', here', leads⟩ :=
          current?_of_prolongs prolongs continues here
        · refine .inr ⟨m.steps, f, ?_, continues, final, fun value => ?_⟩
          · exact ⟨states', passes'.limited m.steps (Nat.le_succ m.steps) (Nat.le_refl m.steps)⟩
          · cases executes with
            | ret returns _ =>
              obtain ⟨v, rest, stack, _⟩ := returns value
              rw [stack]
              exact List.cons_ne_nil v rest
        · obtain ⟨rfl, runs⟩ := Frame.exec_of_leave executes
          cases leads
          have left : (p.within (m.steps + 1)).step ⟨m, .frame (f.into b'), []⟩ = _ :=
            step_leave here' (Nat.le_refl _) (Frame.exec_into (.same rfl) runs)
          have comes : p.Goes ⟨_, .frame first, []⟩ ⟨m, .frame f, []⟩ :=
            ⟨states, passes.limited m.steps (Nat.le_succ m.steps) (Nat.le_refl m.steps)⟩
          have returns := passes'.step
          rw [left] at returns
          exact .inl ⟨⟨m, f, comes, here, continues.body ▸ before⟩, _, _, returns⟩

end Program

end Machine

end ReleaseWeaver
