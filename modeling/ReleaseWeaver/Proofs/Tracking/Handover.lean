import ReleaseWeaver.Proofs.Machine.Activations
import ReleaseWeaver.Proofs.Machine.Dispatch
import ReleaseWeaver.Proofs.Tracking.Events

/-
  Overrides that hand over first. A body that begins with a call of another body on its own object
  waits for that body and goes on only once it has returned. So whatever holds when the other body
  leaves, and lasts, holds in every state in which the first body is past its call. Main statement:
  `State.Hands.step`.
-/

namespace ReleaseWeaver.Machine

open Program

/-- The frame is one of a body that runs on the object. -/
def Frame.RunsOn (key : MethodKey) (o : Nat) (f : Frame) : Prop :=
  f.key = key ∧ f.receiver? = some o

/-- The body of one method calls the body of another one on its own object first of all, and has
no branches. -/
structure Program.HandsOver (p : Program) (upper lower : MethodKey) : Prop where
  straight : ∀ d b, HasBody p.module lower d b → ∀ i ∈ b.instrs, i.target? = none
  calls : ∀ d b, HasBody p.module lower d b → ∃ call more,
    b.instrs = .ldarg 0 :: .invoke call false :: more ∧ call.arity = 1 ∧
      ∃ d' b', p.lookup call.declaring.definitionName call.name call.params.length =
        some (.body upper d' b')

section

variable (p : Program) (upper lower : MethodKey) (o : Nat) (done : Prop)

/-- A body at work on its object calls the other body on the object; past the call, the other body
is done. -/
structure Frame.Works (f : Frame) : Prop where
  known : ∃ d, HasBody p.module lower d f.body
  passes : f.position = 1 → f.stack.head? = f.args.head?
  behind : 2 ≤ f.position → done

/-- A body that waits has the other body right over it, or that is done. -/
structure Frame.Awaits (above : Option Frame) (f : Frame) : Prop where
  known : ∃ d, HasBody p.module lower d f.body
  position : 2 ≤ f.position
  behind : done ∨ ∃ g, above = some g ∧ g.RunsOn upper o

/-- Whoever waits, with what stands right over it. -/
def Stacked : Option Frame → List Caller → Prop
  | _, [] => True
  | above, .frame f _ :: rest =>
    (f.RunsOn lower o → f.Awaits p upper lower o done above) ∧ Stacked (some f) rest
  | _, _ :: rest => Stacked none rest

def Active.frame? : Active → Option Frame
  | .frame f => some f
  | _ => none

/-- Wherever a body of one method runs on the object, that of the other method runs over it or is
done. -/
structure State.Hands (s : State) : Prop where
  works : ∀ f, s.active = .frame f → f.RunsOn lower o → f.Works p lower done
  stacked : Stacked p upper lower o done s.active.frame? s.callers

end

variable {p : Program} {upper lower : MethodKey} {o : Nat} {done done' : Prop}
  {above above' : Option Frame} {callers : List Caller} {m : Memory} {s s' : State}
  {progress : Progress} {f : Frame}

theorem Activation.Goes.runsOn {h : Heap} {a a' : Activation} {key : MethodKey}
    (goes : a.Goes h a') : a'.frame.RunsOn key o ↔ a.frame.RunsOn key o := by
  obtain ⟨same, _, args⟩ := goes.same
  unfold Frame.RunsOn Frame.receiver?
  rw [same, args]

theorem Stacked.mono (stacked : Stacked p upper lower o done above callers) (lasts : done → done')
    (same : ∀ g, above = some g → g.RunsOn upper o →
      done' ∨ ∃ g', above' = some g' ∧ g'.RunsOn upper o) :
    Stacked p upper lower o done' above' callers := by
  induction callers generalizing above above' with
  | nil => trivial
  | cons caller callers ih =>
    cases caller with
    | frame f takes =>
      obtain ⟨awaits, rest⟩ := stacked
      refine ⟨fun runs => ?_, ih rest fun g eq runs => .inr ⟨g, eq, runs⟩⟩
      obtain ⟨known, position, behind⟩ := awaits runs
      refine ⟨known, position, ?_⟩
      obtain gone | ⟨g, eq, runs'⟩ := behind
      · exact .inl (lasts gone)
      · exact same g eq runs'
    | constructing | native => exact ih stacked nofun

/-- What is entered over callers that do not count on it. -/
theorem Program.Enters.hands (enters : p.Enters m callers progress)
    (stacked : Stacked p upper lower o done none callers) (next : progress = .running s')
    (alive : s'.isAlive = true) : s'.Hands p upper lower o done := by
  have prepared {m' : Memory} {callers' : List Caller} (prepares : Prepares m callers m' callers') :
      Stacked p upper lower o done none callers' := by
    cases prepares with
    | called => exact stacked
    | made className => exact stacked
  cases enters with
  | @body _ _ key d b args prepares known =>
    cases next
    refine ⟨fun f working runs => ?_, (prepared prepares).mono id nofun⟩
    cases working
    exact ⟨⟨d, runs.1 ▸ known⟩, nofun, nofun⟩
  | native args prepares known =>
    cases next
    exact ⟨nofun, prepared prepares⟩
  | failed e prepares =>
    cases next
    cases alive

namespace Frame.Works

variable (works : f.Works p lower done) (handing : p.HandsOver upper lower)

include works handing

/-- A body goes on line by line. -/
theorem position_next {h : Heap} {a' : Activation} (goes : (Activation.working f).Goes h a') :
    a'.frame.position = f.position + 1 := by
  obtain ⟨i, here, _, next | ⟨t, target, _⟩⟩ := goes.position_working
  · exact next
  · obtain ⟨d, known⟩ := works.known
    obtain ⟨name, line⟩ := Frame.current?_eq_some.1 here
    have listed : i ∈ f.body.instrs := List.mem_map.2 ⟨_, List.mem_of_getElem? line, rfl⟩
    rw [handing.straight d _ known i listed] at target
    cases target

/-- The call is the second instruction; whatever else a body asks for comes after it. -/
theorem current {i : Instr} (here : f.current? = some i) :
    f.position = 0 ∧ i = .ldarg 0 ∨
    (f.position = 1 ∧ ∃ call, i = .invoke call false ∧ call.arity = 1 ∧
      ∃ d' b', p.lookup call.declaring.definitionName call.name call.params.length =
        some (.body upper d' b')) ∨
    2 ≤ f.position := by
  obtain ⟨d, known⟩ := works.known
  obtain ⟨call, more, instrs, calls⟩ := handing.calls d _ known
  have there : f.body.instrs[f.position]? = some i := by
    rw [Body.instrs, List.getElem?_map]
    exact here
  rw [instrs] at there
  match position : f.position with
  | 0 =>
    rw [position] at there
    cases there
    exact .inl ⟨rfl, rfl⟩
  | 1 =>
    rw [position] at there
    cases there
    exact .inr (.inl ⟨rfl, call, rfl, calls⟩)
  | _ + 2 => exact .inr (.inr (by omega))

omit handing in
/-- The call brings the other body to run on the object, which the first instruction has loaded. -/
theorem invokes (runs : f.RunsOn lower o) (first : f.position = 1) {call : MethodRef}
    {d : MethodDef} {b : Body} (arity : call.arity = 1)
    (found : p.lookup call.declaring.definitionName call.name call.params.length =
      some (.body upper d b)) (m : Memory) (callers : List Caller) :
    ∃ g : Frame, g.RunsOn upper o ∧ g.position = 0 ∧ HasBody p.module upper d g.body ∧
      p.invoke m callers ⟨call, (f.stack.take call.arity).reverse, false⟩ =
        .running ⟨m, .frame g, callers⟩ := by
  have args : (f.stack.take call.arity).reverse = f.args.head?.toList := by
    rw [← works.passes first, arity]
    cases f.stack <;> rfl
  refine ⟨_, ⟨rfl, Frame.receiver?_eq_some.2 ?_⟩, rfl, ?_, invoke_body (startClass_static rfl) found⟩
  · show (f.stack.take call.arity).reverse.head? = some (.object o)
    rw [args, Frame.receiver?_eq_some.1 runs.2]
    rfl
  · obtain ⟨_, _, impossible, _⟩ | ⟨key, d, b, eq, known⟩ := lookup_eq_some found
    · cases impossible
    · cases eq
      exact known

end Frame.Works

/-- A body that has asked for something is past its call, or has just made it. -/
theorem Stacked.waiting (above : Option Frame) {h : Heap} {takes : Bool} {f' : Frame}
    (works : f.RunsOn lower o → f.Works p lower done) (handing : p.HandsOver upper lower)
    (goes : (Activation.working f).Goes h (.waiting f' takes))
    (calls : f.RunsOn lower o → f.position = 1 → ∃ g, above = some g ∧ g.RunsOn upper o)
    (stacked : Stacked p upper lower o done (some f) callers) :
    Stacked p upper lower o done above (.frame f' takes :: callers) := by
  refine ⟨fun runs => ?_, stacked.mono id fun g eq runs => .inr ⟨f', rfl, ?_⟩⟩
  · have runs := goes.runsOn.1 runs
    have works := works runs
    have moves : f'.position = f.position + 1 := works.position_next handing goes
    have asks : ∃ i, f.current? = some i ∧ i ≠ .ldarg 0 := by
      cases goes with
      | made here executes | called here executes =>
        cases executes
        exact ⟨_, here, nofun⟩
    obtain ⟨i, here, other⟩ := asks
    refine ⟨goes.same.2.1 ▸ works.known, ?_, ?_⟩
    all_goals obtain ⟨_, same⟩ | ⟨first, _⟩ | past := works.current handing here
    · exact absurd same other
    · omega
    · omega
    · exact absurd same other
    · exact .inr (calls runs first)
    · exact .inl (works.behind past)
  · cases eq
    exact goes.runsOn.2 runs

/-- What returns to whoever waits, if nobody counts on what stands over them. -/
theorem Stacked.resume {result : Option Value}
    (stacked : Stacked p upper lower o done none callers)
    (next : resume m result callers = .running s') : s'.Hands p upper lower o done := by
  cases callers with
  | nil => cases next
  | cons caller callers =>
    cases caller with
    | constructing | native =>
      cases next
      exact ⟨nofun, stacked⟩
    | frame f takes =>
      cases next
      obtain ⟨awaits, rest⟩ := stacked
      have goes : (Activation.waiting f takes).Goes m.heap (.working (f.accept takes result)) :=
        .resumed result
      refine ⟨fun g working runs => ?_, rest.mono id fun g eq runs => .inr ⟨_, rfl, ?_⟩⟩
      · cases working
        obtain ⟨known, position, behind⟩ := awaits (goes.runsOn.1 runs)
        have same : (f.accept takes result).position = f.position := goes.position_waiting
        refine ⟨goes.same.2.1 ▸ known, fun first => by omega, fun _ => ?_⟩
        exact behind.resolve_right fun ⟨_, impossible, _⟩ => nomatch impossible
      · cases eq
        exact goes.runsOn.2 runs

namespace State.Hands

theorem mono (hands : s.Hands p upper lower o done) (lasts : done → done') :
    s.Hands p upper lower o done' where
  works f working runs := by
    obtain ⟨known, passes, behind⟩ := hands.works f working runs
    exact ⟨known, passes, lasts ∘ behind⟩
  stacked := hands.stacked.mono lasts fun g eq runs => .inr ⟨g, eq, runs⟩

/-- What a step leaves of it, if what is done stays so and the other body leaves with it done. -/
theorem step (hands : s.Hands p upper lower o done) (handing : p.HandsOver upper lower)
    (lasts : done → done')
    (leaves : ∀ f, s.active = .frame f → f.RunsOn upper o → f.current? = some .ret → done)
    (alive : s.isAlive = true) (next : p.step s = .running s') (alive' : s'.isAlive = true) :
    s'.Hands p upper lower o done' := by
  obtain ⟨works, stacked⟩ := hands.mono lasts
  have step := p.steps s
  rw [next] at step
  generalize same : Progress.running s' = progress at step
  cases step with
  | @moved _ f i f' heap _ here executes =>
    cases same
    have goes := Activation.Goes.moved here executes
    refine ⟨fun g working runs => ?_, stacked.mono id fun g eq runs => .inr ⟨f', rfl, ?_⟩⟩
    · cases working
      have works := works f rfl (goes.runsOn.1 runs)
      have moves : f'.position = f.position + 1 := works.position_next handing goes
      refine ⟨goes.same.2.1 ▸ works.known, fun first => ?_, fun past => ?_⟩
      all_goals
        obtain ⟨start, ldarg⟩ | ⟨_, _, invoke, _⟩ | past := works.current handing here
      · subst ldarg
        cases executes with
        | ldarg there => exact (List.head?_eq_getElem?.trans there).symm
      · omega
      · omega
      · omega
      · subst invoke
        cases executes
      · exact works.behind past
    · cases eq
      exact goes.runsOn.2 runs
  | @asked s m caller request asks =>
    cases asks with
    | native =>
      exact (p.enters_perform _ _ _).hands (show Stacked p upper lower o done' none (.native _ :: _)
        from stacked) same.symm alive'
    | @construct _ f _ f' _ _ _ here executes =>
      have goes := Activation.Goes.made here executes
      have waits := stacked.waiting none (works f rfl) handing goes ?_
      · exact (p.enters_perform _ _ _).hands waits same.symm alive'
      intro runs first
      obtain ⟨start, _⟩ | ⟨_, _, invoke, _⟩ | past := (works f rfl runs).current handing here
      · omega
      · subst invoke
        cases executes
      · omega
    | @invoke _ f _ f' c _ here executes =>
      have goes := Activation.Goes.called here executes
      by_cases calls : f.RunsOn lower o ∧ f.position = 1
      · obtain ⟨runs, first⟩ := calls
        have works₁ := works f rfl runs
        obtain ⟨start, _⟩ | ⟨_, call, rfl, arity, d', b', found⟩ | past := works₁.current handing here
        · omega
        · cases executes
          obtain ⟨g, runs', start, known, enters⟩ := works₁.invokes runs first arity found _ _
          have eq := same.trans enters
          cases eq
          have waits := stacked.waiting (some g) (works f rfl) handing goes fun _ _ => ⟨g, rfl, runs'⟩
          refine ⟨fun g' working lower' => ?_, waits⟩
          cases working
          exact ⟨⟨d', (lower'.1.symm.trans runs'.1) ▸ known⟩, fun _ => by omega, fun _ => by omega⟩
        · omega
      · have waits := stacked.waiting none (works f rfl) handing goes fun runs first =>
          absurd ⟨runs, first⟩ calls
        exact (p.enters_perform _ _ _).hands waits same.symm alive'
  | stuck =>
    cases same
    cases alive'
  | ended ends =>
    cases ends with
    | left here executes =>
      cases executes
      refine (stacked.mono id fun g eq runs => .inl ?_).resume same.symm
      cases eq
      exact lasts (leaves _ rfl runs here)
    | done =>
      rename_i outcome _
      cases outcome with
      | ok result => exact stacked.resume same.symm
      | error e => cases alive
    | failed => cases alive

end State.Hands

end ReleaseWeaver.Machine
