import ReleaseWeaver.Proofs.Machine.Exec

/-
  What a step of the machine can do, said once. The code at work moves on, asks for something and
  waits, comes to an end, or gets stuck; and a request comes to a body at its first line, to native
  code, or to a failure. From this follows what a step does to one activation of a body, wherever
  on the stack it stands: it executes an instruction, waits, takes the result that it waits for,
  or is over. A run is kept with the states that it passes.
-/

namespace ReleaseWeaver.Machine

/-! ## One step -/

/-- The code at work asks for something, and waits for it as this caller. -/
inductive State.Asks : State → Memory → Caller → Request → Prop where
  | construct {memory f i f' className args callers} : f.current? = some i →
      f.Executes memory.heap i (.construct f' className args) →
      Asks ⟨memory, .frame f, callers⟩ { memory with steps := memory.steps + 1 } (.frame f' true)
        (.construct className args)
  | invoke {memory f i f' c callers} : f.current? = some i →
      f.Executes memory.heap i (.invoke f' c) →
      Asks ⟨memory, .frame f, callers⟩ { memory with steps := memory.steps + 1 }
        (.frame f' c.method.returns.isSome) (.invoke c)
  | native {memory request next callers} :
      Asks ⟨memory, .native (.ask request next), callers⟩ memory (.native next) request

/-- The code at work comes to an end. -/
inductive State.Ends : State → Memory → Outcome → Prop where
  | left {memory f i result callers} : f.current? = some i →
      f.Executes memory.heap i (.leave result) →
      Ends ⟨memory, .frame f, callers⟩ { memory with steps := memory.steps + 1 } (.ok result)
  | done {memory outcome callers} : Ends ⟨memory, .native (.done outcome), callers⟩ memory outcome
  | failed {memory e callers} : Ends ⟨memory, .failure e, callers⟩ memory (.error e)

/-- Hand an outcome to the innermost caller. -/
def deliver (m : Memory) (callers : List Caller) : Outcome → Progress
  | .ok result => resume m result callers
  | .error e => unwind m e callers

namespace Program

/-- What a step can come to. -/
inductive Steps (p : Program) : State → Progress → Prop where
  | moved {memory f i f' heap callers} : f.current? = some i →
      f.Executes memory.heap i (.next f' heap) →
      p.Steps ⟨memory, .frame f, callers⟩
        (.running ⟨⟨heap, memory.steps + 1⟩, .frame f', callers⟩)
  | asked {s m caller request} : s.Asks m caller request →
      p.Steps s (p.perform m (caller :: s.callers) request)
  | ended {s m outcome} : s.Ends m outcome → p.Steps s (deliver m s.callers outcome)
  | stuck {memory f callers} (steps : Nat) (e : ExecError) :
      p.Steps ⟨memory, .frame f, callers⟩ (fail { memory with steps } callers e)

variable {p : Program}

theorem steps (p : Program) (s : State) : p.Steps s (p.step s) := by
  obtain ⟨memory, active, callers⟩ := s
  cases active with
  | native work =>
    cases work with
    | ask request next => exact .asked .native
    | done outcome =>
      have ended : p.Steps _ (deliver memory callers outcome) :=
        .ended (s := ⟨memory, .native (.done outcome), callers⟩) .done
      cases outcome <;> exact ended
  | failure e => exact .ended (s := ⟨memory, .failure e, callers⟩) .failed
  | frame f =>
    show p.Steps _ (p.stepFrame memory callers f)
    unfold stepFrame
    split
    · exact .stuck memory.steps _
    · next i here =>
      dsimp only
      split
      · exact .stuck _ _
      · split
        · exact .stuck _ _
        · next run => exact .moved here (Frame.executes_of_exec run)
        · next run =>
          exact .asked (s := ⟨memory, .frame f, callers⟩)
            (.construct here (Frame.executes_of_exec run))
        · next run =>
          exact .asked (s := ⟨memory, .frame f, callers⟩) (.invoke here (Frame.executes_of_exec run))
        · next run =>
          exact .ended (s := ⟨memory, .frame f, callers⟩) (.left here (Frame.executes_of_exec run))

/-! ## What a request comes to -/

/-- The memory and the callers that code is entered with: those of the request, or those with a
new object under construction. -/
inductive Prepares (m : Memory) (callers : List Caller) : Memory → List Caller → Prop where
  | called : Prepares m callers m callers
  | made (className : String) : Prepares m callers { m with heap := (m.heap.alloc { className }).1 }
      (.constructing (m.heap.alloc { className }).2 :: callers)

/-- What a request can come to. -/
inductive Enters (p : Program) (m : Memory) (callers : List Caller) : Progress → Prop where
  | body {m' callers' key d b} (args : List Value) : Prepares m callers m' callers' →
      HasBody p.module key d b →
      Enters p m callers (.running ⟨m', .frame (Frame.start key d b args), callers'⟩)
  | native {m' callers' name code} (args : List Value) : Prepares m callers m' callers' →
      p.natives name = some code →
      Enters p m callers (runNative m' callers' (code m'.heap args))
  | failed {m' callers'} (e : ExecError) : Prepares m callers m' callers' →
      Enters p m callers (fail m' callers e)

variable {m m' : Memory} {callers callers' : List Caller}

theorem enters_lookup {className name : String} {params : Nat} {callee : Callee}
    (found : p.lookup className name params = some callee) (args : List Value)
    (prepared : Prepares m callers m' callers') :
    p.Enters m callers (enter m' callers' callee args) := by
  obtain ⟨owner, code, rfl, known⟩ | ⟨key, d, b, rfl, known⟩ := lookup_eq_some found
  · exact .native args prepared known
  · exact .body args prepared known

theorem enters_perform (p : Program) (m : Memory) (callers : List Caller) (request : Request) :
    p.Enters m callers (p.perform m callers request) := by
  cases request with
  | construct className args =>
    show p.Enters m callers (p.construct m callers className args)
    unfold construct
    dsimp only
    split
    · next callee found => exact enters_lookup found _ (.made className)
    · exact .failed _ (.made className)
  | callByName receiver name args =>
    show p.Enters m callers (p.callOn m callers receiver name args)
    unfold callOn
    split
    · exact .failed _ .called
    · split
      · next callee found => exact enters_lookup found _ .called
      · exact .failed _ .called
  | invoke c =>
    show p.Enters m callers (p.invoke m callers c)
    unfold invoke
    split
    · next callee found =>
      obtain ⟨_, _, found'⟩ := callee_eq_ok found
      exact enters_lookup found' _ .called
    · exact .failed _ .called

theorem Enters.running {progress : Progress} (enters : p.Enters m callers progress) :
    ∃ s, progress = .running s := by
  cases enters <;> exact ⟨_, rfl⟩

/-- Only the end of the code at work ends a run. -/
theorem ends_of_finished {s : State} {outcome : Outcome} (last : p.step s = .finished m outcome) :
    s.callers = [] ∧ s.Ends m outcome := by
  have step := p.steps s
  generalize p.step s = progress at step last
  cases step with
  | moved => cases last
  | asked asks =>
    obtain ⟨s', running⟩ := (p.enters_perform _ _ _).running
    rw [running] at last
    cases last
  | stuck => cases last
  | @ended _ m' outcome' ends =>
    cases empty : s.callers with
    | nil =>
      rw [empty] at last
      cases outcome' <;> cases last <;> exact ⟨rfl, ends⟩
    | cons caller callers =>
      obtain ⟨s', running⟩ : ∃ s', deliver m' (caller :: callers) outcome' = .running s' := by
        cases outcome' <;> cases caller <;> exact ⟨_, rfl⟩
      rw [empty, running] at last
      cases last

end Program

/-! ## One activation -/

/-- A body at work, or waiting for a call. -/
inductive Activation where
  | working (f : Frame)
  | waiting (f : Frame) (takesResult : Bool)

namespace Activation

def frame : Activation → Frame
  | working f | waiting f _ => f

/-- What becomes of an activation in a step that does not end it. -/
inductive Goes (h : Heap) : Activation → Activation → Prop where
  | moved {f i f' h'} : f.current? = some i → f.Executes h i (.next f' h') →
      Goes h (.working f) (.working f')
  | made {f i f' className args} : f.current? = some i →
      f.Executes h i (.construct f' className args) → Goes h (.working f) (.waiting f' true)
  | called {f i f' c} : f.current? = some i → f.Executes h i (.invoke f' c) →
      Goes h (.working f) (.waiting f' c.method.returns.isSome)
  | waited {f takesResult} : Goes h (.waiting f takesResult) (.waiting f takesResult)
  | resumed {f takesResult} (result : Option Value) :
      Goes h (.waiting f takesResult) (.working (f.accept takesResult result))

variable {h : Heap} {a a' : Activation} {f : Frame}

/-- An activation stays one of the same call. -/
theorem Goes.same (goes : a.Goes h a') : a'.frame.key = a.frame.key ∧
    a'.frame.body = a.frame.body ∧ a'.frame.args = a.frame.args := by
  cases goes with
  | moved _ executes =>
    obtain ⟨key, body, args, _⟩ := executes.next_position
    exact ⟨key, body, args⟩
  | made _ executes | called _ executes =>
    cases executes
    exact ⟨rfl, rfl, rfl⟩
  | waited => exact ⟨rfl, rfl, rfl⟩
  | @resumed f takesResult result => cases takesResult <;> exact ⟨rfl, rfl, rfl⟩

/-- Where an activation at work comes to. -/
theorem Goes.position_working (goes : (working f).Goes h a') : ∃ i, f.current? = some i ∧
    i.isRet = false ∧ (a'.frame.position = f.position + 1 ∨
      ∃ t, i.target? = some t ∧ f.body.position? t = some a'.frame.position) := by
  cases goes with
  | @moved _ i _ _ here executes =>
    refine ⟨i, here, ?_, executes.next_position.2.2.2⟩
    cases executes <;> rfl
  | made here executes | called here executes =>
    cases executes
    exact ⟨_, here, rfl, .inl rfl⟩

theorem Goes.position_waiting {takes : Bool} (goes : (waiting f takes).Goes h a') :
    a'.frame.position = f.position := by
  cases goes with
  | waited => rfl
  | resumed result => cases takes <;> rfl

end Activation

/-- The activation stands on the stack, over some callers; what is over it is of some kind. -/
inductive State.Stands (kind : Activation → Prop) (under : List Caller) :
    State → Activation → Prop where
  | working (memory : Memory) (f : Frame) : Stands kind under ⟨memory, .frame f, under⟩ (.working f)
  | waiting {active upper} (memory : Memory) (f : Frame) (takesResult : Bool) :
      (∀ g, active = .frame g → kind (.working g)) →
      (∀ g takes, .frame g takes ∈ upper → kind (.waiting g takes)) →
      Stands kind under ⟨memory, active, upper ++ .frame f takesResult :: under⟩
        (.waiting f takesResult)

theorem State.Stands.working_of_length {kind : Activation → Prop} {under : List Caller} {s : State}
    {a : Activation} (stands : s.Stands kind under a)
    (top : s.callers.length = under.length) : ∃ f, s.active = .frame f ∧ a = .working f := by
  cases stands with
  | working memory f => exact ⟨f, rfl, rfl⟩
  | waiting =>
    rw [List.length_append, List.length_cons] at top
    omega

/-- What a step leaves of an activation. -/
inductive Program.Leaves (p : Program) (kind : Activation → Prop) (under : List Caller) (s : State) :
    Activation → Progress → Prop where
  | goes {a a' s'} : a.Goes s.memory.heap a' → s'.Stands kind under a' →
      Leaves p kind under s a (.running s')
  | left {f i m result} : s = ⟨s.memory, .frame f, under⟩ → f.current? = some i →
      f.Executes s.memory.heap i (.leave result) → m.heap = s.memory.heap →
      Leaves p kind under s (.working f) (resume m result under)
  | failed {a} (m : Memory) (e : ExecError) : Leaves p kind under s a (fail m under e)

namespace Program

variable {p : Program} {kind : Activation → Prop} {under : List Caller} {s : State} {a : Activation}

/-- A request of the activation, or of what stands over it, leaves it waiting. -/
theorem Enters.leaves {upper : List Caller} {m : Memory} {f : Frame} {takes : Bool}
    {progress : Progress} (enters : p.Enters m (upper ++ .frame f takes :: under) progress)
    (goes : a.Goes s.memory.heap (.waiting f takes))
    (kinds : ∀ g takes, .frame g takes ∈ upper → kind (.waiting g takes))
    (opens : ∀ m' key d b args callers', HasBody p.module key d b →
      progress = .running ⟨m', .frame (Frame.start key d b args), callers'⟩ →
      kind (.working (Frame.start key d b args))) :
    p.Leaves kind under s a progress := by
  have above {m' : Memory} {callers' : List Caller}
      (prepared : Prepares m (upper ++ .frame f takes :: under) m' callers') :
      ∃ upper', callers' = upper' ++ .frame f takes :: under ∧
        ∀ g takes, .frame g takes ∈ upper' → kind (.waiting g takes) := by
    cases prepared with
    | called => exact ⟨upper, rfl, kinds⟩
    | made className =>
      refine ⟨_ :: upper, rfl, fun g takes listed => ?_⟩
      obtain impossible | listed := List.mem_cons.1 listed
      · cases impossible
      · exact kinds g takes listed
  cases enters with
  | body args prepared known =>
    obtain ⟨upper', rfl, kinds'⟩ := above prepared
    refine .goes goes (.waiting _ f takes (fun g same => ?_) kinds')
    cases same
    exact opens _ _ _ _ _ _ known rfl
  | native args prepared known =>
    obtain ⟨upper', rfl, kinds'⟩ := above prepared
    exact .goes goes (.waiting _ f takes (fun g impossible => by cases impossible) kinds')
  | failed e prepared =>
    exact .goes goes (.waiting _ f takes (fun g impossible => by cases impossible) kinds)

/-- An outcome goes to the activation, or to what stands over it. -/
theorem leaves_deliver {upper : List Caller} {m : Memory} {f : Frame} {takes : Bool}
    (kinds : ∀ g takes, .frame g takes ∈ upper → kind (.waiting g takes))
    (keeps : ∀ h b b', kind b → b.Goes h b' → kind b') (outcome : Outcome) :
    p.Leaves kind under s (.waiting f takes)
      (deliver m (upper ++ .frame f takes :: under) outcome) := by
  cases upper with
  | nil =>
    cases outcome with
    | ok result => exact .goes (.resumed result) (.working m _)
    | error e => exact .failed m e
  | cons caller upper =>
    have rest : ∀ g takes, .frame g takes ∈ upper → kind (.waiting g takes) :=
      fun g takes listed => kinds g takes (List.mem_cons_of_mem caller listed)
    have stays {m' : Memory} {active : Active} (fits : ∀ g, active = .frame g → kind (.working g)) :
        p.Leaves kind under s (.waiting f takes)
          (.running ⟨m', active, upper ++ .frame f takes :: under⟩) :=
      .goes .waited (.waiting m' f takes fits rest)
    cases outcome with
    | ok result =>
      cases caller with
      | frame g takes' =>
        refine stays fun g' same => ?_
        cases same
        exact keeps m.heap _ _ (kinds g takes' List.mem_cons_self) (.resumed result)
      | constructing this => exact stays fun g impossible => by cases impossible
      | native next => exact stays fun g impossible => by cases impossible
    | error e => cases caller <;> exact stays fun g impossible => by cases impossible

/-- What a step does to an activation that stands on the stack, if what stands over it stays of
its kind and every body that is entered is of the kind. -/
theorem leaves_step (stands : s.Stands kind under a)
    (keeps : ∀ h b b', kind b → b.Goes h b' → kind b')
    (opens : ∀ m' key d b args callers', HasBody p.module key d b →
      p.step s = .running ⟨m', .frame (Frame.start key d b args), callers'⟩ →
      kind (.working (Frame.start key d b args))) :
    p.Leaves kind under s a (p.step s) := by
  have nothing : ∀ g takes, .frame g takes ∈ ([] : List Caller) → kind (.waiting g takes) :=
    fun g takes impossible => by cases impossible
  have step := p.steps s
  generalize p.step s = progress at step opens
  cases stands with
  | working memory f =>
    cases step with
    | moved here executes => exact .goes (.moved here executes) (.working _ _)
    | asked asks =>
      cases asks with
      | construct here executes =>
        exact (p.enters_perform _ _ _).leaves (.made here executes) nothing opens
      | invoke here executes =>
        exact (p.enters_perform _ _ _).leaves (.called here executes) nothing opens
    | ended ends =>
      cases ends with
      | left here executes => exact .left rfl here executes rfl
    | stuck steps e => exact .failed _ e
  | @waiting active upper memory f takes fits kinds =>
    cases step with
    | moved here executes =>
      refine .goes .waited (.waiting _ f takes (fun g same => ?_) kinds)
      cases same
      exact keeps _ _ _ (fits _ rfl) (.moved here executes)
    | @asked _ m caller request asks =>
      have kinds' : ∀ g takes, .frame g takes ∈ caller :: upper → kind (.waiting g takes) := by
        intro g takes listed
        obtain rfl | listed := List.mem_cons.1 listed
        · cases asks with
          | construct here executes => exact keeps _ _ _ (fits _ rfl) (.made here executes)
          | invoke here executes => exact keeps _ _ _ (fits _ rfl) (.called here executes)
        · exact kinds g takes listed
      exact (p.enters_perform m _ request).leaves .waited kinds' opens
    | ended ends => exact leaves_deliver kinds keeps _
    | stuck steps e =>
      exact .goes .waited (.waiting _ f takes (fun g impossible => by cases impossible) kinds)

/-! ## Runs with their states -/

theorem length_resume {m : Memory} {result : Option Value} {callers : List Caller}
    (next : resume m result callers = .running s) : s.callers.length < callers.length := by
  cases callers with
  | nil => cases next
  | cons caller callers => cases caller <;> cases next <;> exact Nat.lt_succ_self _

theorem length_unwind {m : Memory} {e : ExecError} {callers : List Caller}
    (next : unwind m e callers = .running s) : s.callers.length < callers.length := by
  cases callers with
  | nil => cases next
  | cons caller callers => cases caller <;> cases next <;> exact Nat.lt_succ_self _

/-- A run, with the states that it passes before it comes to some progress. -/
inductive Passes (p : Program) (start : Progress) : List State → Progress → Prop where
  | start : p.Passes start [] start
  | step {states s} : p.Passes start states (.running s) →
      p.Passes start (states ++ [s]) (p.step s)

/-- The states of the first so many steps. -/
def trace (p : Program) : Nat → Progress → List State
  | count + 1, .running s => s :: p.trace count (p.step s)
  | _, _ => []

theorem Passes.cons {states : List State} {progress : Progress}
    (passes : p.Passes (p.step s) states progress) :
    p.Passes (.running s) (s :: states) progress := by
  induction passes with
  | start => exact .step .start
  | step _ ih => exact .step ih

/-- A run can be cut at every state that it passes. -/
theorem Passes.split {states before after : List State} {start progress : Progress}
    (passes : p.Passes start states progress) (same : states = before ++ s :: after) :
    p.Passes start before (.running s) ∧ p.Passes (p.step s) after progress := by
  induction passes generalizing after with
  | start =>
    have nonempty := congrArg List.length same
    rw [List.length_append, List.length_cons] at nonempty
    simp at nonempty
  | @step states last passes ih =>
    obtain rfl | ⟨after', x, rfl⟩ := List.eq_nil_or_concat after
    · obtain ⟨rfl, eq⟩ := List.append_inj' same rfl
      cases eq
      exact ⟨passes, .start⟩
    · rw [List.concat_eq_append, ← List.cons_append, ← List.append_assoc] at same
      obtain ⟨rfl, eq⟩ := List.append_inj' same rfl
      cases eq
      obtain ⟨first, second⟩ := ih rfl
      rw [List.concat_eq_append]
      exact ⟨first, second.step⟩

theorem Passes.of_nil {start progress : Progress} (passes : p.Passes start [] progress) :
    progress = start := by
  generalize none : ([] : List State) = states at passes
  cases passes with
  | start => rfl
  | step => simp at none

theorem Passes.uncons {states : List State} {start progress : Progress}
    (passes : p.Passes start (s :: states) progress) :
    start = .running s ∧ p.Passes (p.step s) states progress := by
  obtain ⟨first, rest⟩ := passes.split (List.nil_append _).symm
  exact ⟨first.of_nil.symm, rest⟩

theorem passes_trace (p : Program) (count : Nat) (start : Progress) :
    p.Passes start (p.trace count start) (p.runFor count start) := by
  induction count generalizing start with
  | zero => exact .start
  | succ count ih =>
    cases start with
    | running s => exact (ih (p.step s)).cons
    | finished m outcome => exact .start

end Program

/-! ## One activation in a run -/

/-- The line that an activation executes next. -/
def Activation.next : Activation → List Handle
  | working f => (f.body.at? f.position).toList
  | waiting _ _ => []

/-- The line that a body over so many callers executes next. -/
def State.next (depth : Nat) (s : State) : List Handle :=
  match s.active with
  | .frame f => if s.callers.length = depth then (Activation.working f).next else []
  | _ => []

theorem State.Stands.next {kind : Activation → Prop} {under : List Caller} {s : State}
    {a : Activation} (stands : s.Stands kind under a) : s.next under.length = a.next := by
  cases stands with
  | working memory f => exact if_pos rfl
  | @waiting active upper memory f takes =>
    have deeper : (upper ++ .frame f takes :: under).length ≠ under.length := by
      rw [List.length_append, List.length_cons]
      omega
    cases active with
    | frame g => exact if_neg deeper
    | native | failure => rfl

/-- What every step keeps of an activation and of what it has executed holds of the activation as
long as the run does not return below it. -/
theorem Program.Passes.activation {p : Program} {under : List Caller} {memory : Memory} {f : Frame}
    {states : List State} {progress : Progress} {good : Activation → List Handle → Prop}
    (passes : p.Passes (.running ⟨memory, .frame f, under⟩) states progress)
    (start : good (.working f) [])
    (keep : ∀ h a a' executed, good a executed → a.Goes h a' → good a' (executed ++ a.next))
    (within : ∀ s ∈ states, under.length ≤ s.callers.length) (s : State)
    (here : progress = .running s) (above : under.length ≤ s.callers.length) :
    (∃ a, s.Stands (fun _ => True) under a ∧ good a (states.flatMap (State.next under.length))) ∨
      ∃ e, s.active = .failure e ∧ s.callers = under := by
  induction passes generalizing s with
  | start =>
    cases here
    exact .inl ⟨_, .working memory f, start⟩
  | @step states before passes ih =>
    obtain ⟨within, last⟩ := List.forall_mem_append.1 within
    obtain ⟨a, stands, kept⟩ | ⟨e, failing, bottom⟩ := ih within before rfl (last before (by simp))
    · have leaves := p.leaves_step stands (fun _ _ _ _ _ => trivial) fun _ _ _ _ _ _ _ _ => trivial
      rw [here] at leaves
      generalize same : Progress.running s = progress at leaves
      cases leaves with
      | goes goes stands' =>
        cases same
        refine .inl ⟨_, stands', ?_⟩
        rw [List.flatMap_append, List.flatMap_singleton, stands.next]
        exact keep _ _ _ _ kept goes
      | left =>
        have below := Program.length_resume same.symm
        exact absurd above (Nat.not_le.2 below)
      | failed m e =>
        cases same
        exact .inr ⟨e, rfl, rfl⟩
    · have unwinds : p.step before = unwind before.memory e before.callers := by
        obtain ⟨_, _, _⟩ := before
        cases failing
        rfl
      rw [unwinds, bottom] at here
      exact absurd above (Nat.not_le.2 (Program.length_unwind here))

end ReleaseWeaver.Machine
