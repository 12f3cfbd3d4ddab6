import ReleaseWeaver.Proofs.Tracking.Constructing

/-
  How often the field of an object is stored. Each constructor with a prologue that is entered on
  an object stores once, when it leaves its prologue. So at every state of a run the stores so far
  and the constructors on the stack that are still in their prologues are as many as the
  constructors entered so far; and a run that succeeds has stored as often as it has entered
  constructors, if native code passes the failures of its calls on.
-/

namespace ReleaseWeaver.Machine

variable {p : Program} {field : String} {ctor : MethodKey → Bool} {o : Nat} {h : Heap}
  {m : Memory} {f : Frame} {a' : Activation} {callers : List Caller}

/-! ## Failures that are passed on -/

/-- Native code that fails if a call that it makes fails. -/
inductive NativeWork.Relays : NativeWork → Prop where
  | done (outcome : Outcome) : Relays (.done outcome)
  | ask (request : Request) {next} : (∀ h e, ∃ e', (next h (.error e)).2 = .done (.error e')) →
      (∀ h outcome, Relays (next h outcome).2) → Relays (.ask request next)

/-- The native code of the program passes failures on. -/
def Program.Relays (p : Program) : Prop :=
  ∀ name code, p.natives name = some code → ∀ h args, (code h args).2.Relays

theorem Reactive.relays_releaseAll (result : Option Value) (values : List Value) :
    (releaseAll result values).Relays := by
  induction values with
  | nil => exact .done _
  | cons v rest ih =>
    refine .ask _ (fun h e => ⟨e, rfl⟩) fun h outcome => ?_
    cases outcome with
    | ok => exact ih
    | error e => exact .done _

theorem Program.relays_of_library (library : p.natives = Reactive.natives) : p.Relays := by
  intro name code known h args
  rw [library] at known
  obtain ⟨_, ⟨e, work⟩ | ⟨result, values, work⟩⟩ := Reactive.spares_natives known "" h args
  · exact work ▸ .done _
  · exact work ▸ Reactive.relays_releaseAll result values

/-- A caller that is in order: an activation that keeps to its prologue, native code that passes
failures on. -/
def Caller.Orderly (p : Program) (ctor : MethodKey → Bool) : Caller → Prop
  | .frame f takes => (Activation.waiting f takes).Orderly p ctor
  | .constructing _ => True
  | .native next => (∀ h e, ∃ e', (next h (.error e)).2 = .done (.error e')) ∧
      ∀ h outcome, (next h outcome).2.Relays

/-- A run that is bound to fail. -/
inductive Program.Failing (p : Program) (ctor : MethodKey → Bool) : Progress → Prop where
  | failure {callers : List Caller} (m : Memory) (e : ExecError) : (∀ c ∈ callers, c.Orderly p ctor) →
      Failing p ctor (.running ⟨m, .failure e, callers⟩)
  | raised {callers : List Caller} (m : Memory) (e : ExecError) : (∀ c ∈ callers, c.Orderly p ctor) →
      Failing p ctor (.running ⟨m, .native (.done (.error e)), callers⟩)
  | finished (m : Memory) (e : ExecError) : Failing p ctor (.finished m (.error e))

theorem Program.failing_unwind (orderly : ∀ c ∈ callers, c.Orderly p ctor) (m : Memory)
    (e : ExecError) : p.Failing ctor (unwind m e callers) := by
  cases callers with
  | nil => exact .finished m e
  | cons caller callers =>
    obtain ⟨first, rest⟩ := List.forall_mem_cons.1 orderly
    cases caller with
    | native next =>
      obtain ⟨e', raises⟩ := first.1 m.heap e
      show p.Failing ctor (runNative m callers (next m.heap (.error e)))
      rw [runNative, raises]
      exact .raised _ e' rest
    | frame | constructing => exact .failure m e rest

theorem Program.Failing.step {s : State} (failing : p.Failing ctor (.running s)) :
    p.Failing ctor (p.step s) := by
  cases failing with
  | failure m e orderly | raised m e orderly => exact p.failing_unwind orderly m e

/-! ## What is owed -/

/-- The step stores a value in the field of the object. -/
def State.storesIn (field : String) (o : Nat) (s : State) : Bool :=
  (s.stores? field).any fun store => store.1 == o

/-- The frame is one of a constructor on the object that is in its prologue. -/
def Frame.owes (ctor : MethodKey → Bool) (o : Nat) (f : Frame) : Bool :=
  f.builds ctor o && decide (f.position < 3)

def Caller.owes (ctor : MethodKey → Bool) (o : Nat) : Caller → Bool
  | .frame f _ => f.owes ctor o
  | _ => false

namespace Activation

theorem Orderly.storesIn (orderly : (working f).Orderly p ctor) (fronts : p.Fronts field ctor)
    (m : Memory) (callers : List Caller) (o : Nat) :
    State.storesIn field o ⟨m, .frame f, callers⟩ = (f.builds ctor o && f.position == 2) := by
  rw [Bool.eq_iff_iff, Bool.and_eq_true, beq_iff_eq]
  constructor
  · intro stores
    obtain ⟨⟨o', content⟩, found, same⟩ := (Option.any_eq_true _ _).1 stores
    cases beq_iff_eq.1 same
    exact orderly.builds_of_stores fronts found
  · rintro ⟨builds, last⟩
    obtain ⟨content, _, found⟩ := orderly.stores_of_builds fronts builds last
    show (f.stores? field).any _ = true
    rw [found]
    exact beq_self_eq_true o

/-- An activation at work owes a store until it makes it, and is never at its first line again. -/
theorem Goes.owes (goes : (working f).Goes h a') (orderly : (working f).Orderly p ctor)
    (fronts : p.Fronts field ctor) :
    ((if f.builds ctor o && f.position == 2 then 1 else 0) +
        if a'.frame.owes ctor o then 1 else 0) = (if f.owes ctor o then 1 else 0) ∧
      (a'.frame.builds ctor o && a'.frame.position == 0) = false := by
  have same : a'.frame.builds ctor o = f.builds ctor o := goes.builds
  rw [Frame.owes, Frame.owes, same]
  cases builds : f.builds ctor o with
  | false => exact ⟨rfl, rfl⟩
  | true =>
    have fronted := orderly.fronted fronts (Frame.builds_iff.1 builds).1
    simp only [Bool.true_and, beq_iff_eq, beq_eq_false_iff_ne, decide_eq_true_eq]
    by_cases early : f.position < 3
    · rw [goes.position_fronted fronted early]
      exact ⟨by split_ifs <;> omega, Nat.succ_ne_zero _⟩
    · have past := Stage.past_goes fronted (Nat.not_lt.1 early) goes
      exact ⟨by split_ifs <;> omega, by omega⟩

/-- A waiting activation is past its first line. -/
theorem Orderly.waits {takes : Bool} (orderly : (waiting f takes).Orderly p ctor) :
    (f.builds ctor o && f.position == 0) = false := by
  rw [Bool.and_eq_false_imp, beq_eq_false_iff_ne]
  intro builds first
  cases orderly.stage (Frame.builds_iff.1 builds).1 with
  | making last =>
    rw [first] at last
    cases last
  | past beyond =>
    have position : 3 ≤ f.position := beyond
    rw [first] at position
    cases position

end Activation

/-! ## The balance -/

/-- The callers are in order, and what they owe makes up for the stores that are missing. -/
structure Program.Waits (p : Program) (field : String) (ctor : MethodKey → Bool) (o : Nat)
    (states : List State) (callers : List Caller) : Prop where
  orderly : ∀ c ∈ callers, c.Orderly p ctor
  even : states.countP (State.storesIn field o) + callers.countP (Caller.owes ctor o) =
    states.countP (State.enters ctor o)

/-- A run, after some states, has stored as often as it has entered constructors, what is owed
included. -/
inductive Program.Even (p : Program) (field : String) (ctor : MethodKey → Bool) (o : Nat)
    (states : List State) : Progress → Prop where
  | frame {m : Memory} {f : Frame} {callers : List Caller} : (∀ c ∈ callers, c.Orderly p ctor) →
      (Activation.working f).Orderly p ctor →
      states.countP (State.storesIn field o) + callers.countP (Caller.owes ctor o) +
          (if f.owes ctor o then 1 else 0) =
        states.countP (State.enters ctor o) +
          (if f.builds ctor o && f.position == 0 then 1 else 0) →
      Even p field ctor o states (.running ⟨m, .frame f, callers⟩)
  | native {m : Memory} {work : NativeWork} {callers : List Caller} : p.Waits field ctor o states callers → work.Relays →
      Even p field ctor o states (.running ⟨m, .native work, callers⟩)
  | done (m : Memory) (result : Option Value) :
      states.countP (State.storesIn field o) = states.countP (State.enters ctor o) →
      Even p field ctor o states (.finished m (.ok result))
  | failing {progress} : p.Failing ctor progress → Even p field ctor o states progress

section Balance

variable {states : List State} {s : State} {progress : Progress}

theorem Program.Waits.cons {caller : Caller} (waits : p.Waits field ctor o states callers)
    (orderly : caller.Orderly p ctor) (free : caller.owes ctor o = false) :
    p.Waits field ctor o states (caller :: callers) := by
  refine ⟨List.forall_mem_cons.2 ⟨orderly, waits.orderly⟩, ?_⟩
  rw [List.countP_cons_of_neg (by rw [free]; exact Bool.false_ne_true)]
  exact waits.even

theorem Program.Enters.even (enters : p.Enters m callers progress) (relays : p.Relays)
    (waits : p.Waits field ctor o states callers) : p.Even field ctor o states progress := by
  have prepared {m' : Memory} {callers' : List Caller} (prepares : Prepares m callers m' callers') :
      p.Waits field ctor o states callers' := by
    cases prepares with
    | called => exact waits
    | made className => exact waits.cons trivial rfl
  cases enters with
  | body args prepares known =>
    obtain ⟨orderly, even⟩ := prepared prepares
    refine .frame orderly (Activation.orderly_start known args) ?_
    rw [even]
    congr 1
  | native args prepares known => exact .native (prepared prepares) (relays _ _ known _ args)
  | failed e prepares => exact .failing (.failure _ e waits.orderly)

theorem Program.even_deliver (fronts : p.Fronts field ctor)
    (waits : p.Waits field ctor o states callers) (outcome : Outcome) :
    p.Even field ctor o states (deliver m callers outcome) := by
  cases outcome with
  | error e => exact .failing (p.failing_unwind waits.orderly m e)
  | ok result =>
    cases callers with
    | nil => exact .done m result (by simpa using waits.even)
    | cons caller callers =>
      obtain ⟨orderly, even⟩ := waits
      obtain ⟨first, rest⟩ := List.forall_mem_cons.1 orderly
      rw [List.countP_cons] at even
      cases caller with
      | frame g takes =>
        have goes : (Activation.waiting g takes).Goes m.heap (.working (g.accept takes result)) :=
          .resumed result
        have builds : (g.accept takes result).builds ctor o = g.builds ctor o := goes.builds
        have position : (g.accept takes result).position = g.position := goes.position_waiting
        refine .frame rest (Activation.Orderly.goes first fronts goes) ?_
        rw [Frame.owes, builds, position, Activation.Orderly.waits first, Nat.add_assoc]
        exact even
      | constructing this => exact .native ⟨rest, even⟩ (.done _)
      | native next => exact .native ⟨rest, even⟩ (first.2 m.heap _)

theorem Program.Even.step (fronts : p.Fronts field ctor) (relays : p.Relays)
    (even : p.Even field ctor o states (.running s)) :
    p.Even field ctor o (states ++ [s]) (p.step s) := by
  cases even with
  | failing failing => exact .failing failing.step
  | @native m work callers waits works =>
    have waits' : p.Waits field ctor o (states ++ [⟨m, .native work, callers⟩]) callers := by
      refine ⟨waits.orderly, ?_⟩
      rw [List.countP_append, List.countP_append]
      exact waits.even
    have step := p.steps ⟨m, .native work, callers⟩
    generalize p.step ⟨m, .native work, callers⟩ = progress at step ⊢
    cases step with
    | asked asks =>
      cases asks with
      | native =>
        cases works with
        | ask _ fails goesOn =>
          exact (p.enters_perform _ _ _).even relays (waits'.cons ⟨fails, goesOn⟩ rfl)
    | ended ends => exact p.even_deliver fronts waits' _
  | @frame m f callers rest orderly even =>
    have stores := orderly.storesIn fronts m callers o
    have storedAfter : (states ++ [State.mk m (.frame f) callers]).countP (State.storesIn field o) =
        states.countP (State.storesIn field o) +
          if f.builds ctor o && f.position == 2 then 1 else 0 := by
      rw [List.countP_append, List.countP_singleton, stores]
    have enteredAfter : (states ++ [State.mk m (.frame f) callers]).countP (State.enters ctor o) =
        states.countP (State.enters ctor o) +
          if f.builds ctor o && f.position == 0 then 1 else 0 := by
      rw [List.countP_append, List.countP_singleton]
      rfl
    have waits {f' : Frame} {takes : Bool}
        (goes : (Activation.working f).Goes m.heap (.waiting f' takes)) :
        p.Waits field ctor o (states ++ [⟨m, .frame f, callers⟩]) (.frame f' takes :: callers) := by
      have owed := (goes.owes (o := o) orderly fronts).1
      refine ⟨List.forall_mem_cons.2 ⟨orderly.goes fronts goes, rest⟩, ?_⟩
      rw [storedAfter, enteredAfter, List.countP_cons, ← even, ← owed]
      show _ + (_ + if f'.owes ctor o then 1 else 0) = _ + _ + (_ + if f'.owes ctor o then 1 else 0)
      omega
    have step := p.steps ⟨m, .frame f, callers⟩
    generalize p.step ⟨m, .frame f, callers⟩ = progress at step ⊢
    cases step with
    | @moved _ _ _ f' _ _ here executes =>
      have goes := Activation.Goes.moved here executes
      obtain ⟨owed, first⟩ := goes.owes (o := o) orderly fronts
      refine .frame rest (orderly.goes fronts goes) ?_
      rw [storedAfter, enteredAfter, ← even, ← owed, show (f'.builds ctor o && f'.position == 0) =
        false from first]
      show _ + _ + _ + (if f'.owes ctor o then 1 else 0) =
        _ + _ + (_ + if f'.owes ctor o then 1 else 0) + 0
      omega
    | asked asks =>
      cases asks with
      | construct here executes =>
        exact (p.enters_perform _ _ _).even relays (waits (.made here executes))
      | invoke here executes =>
        exact (p.enters_perform _ _ _).even relays (waits (.called here executes))
    | ended ends =>
      cases ends with
      | left here executes =>
        refine p.even_deliver fronts ⟨rest, ?_⟩ (.ok _)
        -- A constructor does not return from its prologue.
        have past : f.builds ctor o = true → 3 ≤ f.position := by
          intro builds
          by_contra early
          have fronted := orderly.fronted fronts (Frame.builds_iff.1 builds).1
          cases executes
          cases (Frame.straight_of_fronted fronted (Nat.not_le.1 early) here).2
        have settled : f.owes ctor o = false ∧ (f.builds ctor o && f.position == 2) = false := by
          rw [Frame.owes]
          cases builds : f.builds ctor o with
          | false => exact ⟨rfl, rfl⟩
          | true =>
            have beyond := past builds
            simp only [Bool.true_and, decide_eq_false_iff_not, beq_eq_false_iff_ne]
            omega
        rw [storedAfter, enteredAfter, ← even, settled.1, settled.2]
        rfl
    | stuck steps e => exact .failing (.failure _ e rest)

theorem Program.Passes.even {request : Request} {memory : Memory} (fronts : p.Fronts field ctor)
    (relays : p.Relays) (passes : p.Passes (p.perform memory [] request) states progress) :
    p.Even field ctor o states progress := by
  induction passes with
  | start =>
    exact (p.enters_perform memory [] request).even relays
      ⟨List.forall_mem_nil _, rfl⟩
  | step _ ih => exact ih.step fronts relays

/-- A request that succeeds stores into the field of an object as often as it enters constructors
on the object. -/
theorem Program.Passes.stores_eq_enters {request : Request} {memory : Memory}
    {result : Option Value} (fronts : p.Fronts field ctor) (relays : p.Relays)
    (passes : p.Passes (p.perform memory [] request) states (.finished m (.ok result))) (o : Nat) :
    states.countP (State.storesIn field o) = states.countP (State.enters ctor o) := by
  cases passes.even (o := o) fronts relays with
  | done _ _ same => exact same
  | failing failing => cases failing

end Balance

end ReleaseWeaver.Machine
