import ReleaseWeaver.Proofs.Tracking.Events
import ReleaseWeaver.Proofs.Tracking.Sparing

/-
  The construction of an object whose constructor starts with a prologue. The prologue loads the
  object, makes a container and stores it in the field; no branch leads into it and nothing else
  stores into the field. So the prologue runs from its first to its last instruction each time a
  constructor is entered, and if one constructor is entered once on the object, the field of the
  object is stored once.
-/

namespace ReleaseWeaver

/-- The instruction stores into no field of this name. -/
def Instr.Spares (i : Instr) (field : String) : Prop := ∀ f, i = .stfld f → f.name ≠ field

def Body.Spares (b : Body) (field : String) : Prop := ∀ l ∈ b.lines, l.2.Spares field

/-- The body starts with a prologue for the field. -/
structure Body.Fronted (b : Body) (field : String) : Prop where
  this : ∃ h, b.lines[0]? = some (h, .ldthis)
  makes : ∃ h constructor, b.lines[1]? = some (h, .newobj constructor) ∧ constructor.params = []
  stores : ∃ h f, b.lines[2]? = some (h, .stfld f) ∧ f.name = field
  spares : ∀ (q : Nat) (l : Handle × Instr), b.lines[q]? = some l → q ≠ 2 → l.2.Spares field
  away : ∀ (q : Nat) (l : Handle × Instr) t q', b.lines[q]? = some l → l.2.target? = some t →
    b.position? t = some q' → 3 ≤ q'

namespace Machine

variable {p : Program} {field : String} {ctor : MethodKey → Bool} {o : Nat} {h : Heap}
  {a a' : Activation} {f : Frame}

/-! ## The prologue -/

/-- How far an activation of a body with a prologue is. -/
inductive Activation.Stage : Activation → Prop where
  | opened {f : Frame} : f.position = 0 → f.stack = [] → Stage (.working f)
  | loaded {f : Frame} {v} : f.position = 1 → f.args[0]? = some v → f.stack = [v] → Stage (.working f)
  | making {f : Frame} {v} : f.position = 2 → f.args[0]? = some v → f.stack = [v] → Stage (.waiting f true)
  | made {f : Frame} {v} (content : Value) : f.position = 2 → f.args[0]? = some v → f.stack = [content, v] →
      Stage (.working f)
  | past {a : Activation} : 3 ≤ a.frame.position → Stage a

theorem Frame.current?_at {q : Nat} {l : Handle × Instr} (here : f.position = q)
    (line : f.body.lines[q]? = some l) : f.current? = some l.2 := by
  rw [Frame.current?, here, line, Option.map_some]

namespace Activation.Stage

/-- Past the prologue an activation stays past it. -/
theorem past_goes (fronted : a.frame.body.Fronted field) (past : 3 ≤ a.frame.position)
    (goes : a.Goes h a') : 3 ≤ a'.frame.position := by
  cases a with
  | working f =>
    obtain ⟨i, here, _, next | ⟨t, target, found⟩⟩ := goes.position_working
    · rw [next]
      exact Nat.le_succ_of_le past
    · obtain ⟨name, line⟩ := Frame.current?_eq_some.1 here
      exact fronted.away _ _ t _ line target found
  | waiting f takes =>
    rw [goes.position_waiting]
    exact past

theorem goes (stage : a.Stage) (fronted : a.frame.body.Fronted field) (goes : a.Goes h a') :
    a'.Stage := by
  cases stage with
  | @opened f position stack =>
    obtain ⟨name, line⟩ := fronted.this
    have current : f.current? = some .ldthis := Frame.current?_at position line
    cases goes with
    | moved here executes =>
      cases current.symm.trans here
      cases executes with
      | ldarg there =>
        refine .loaded ?_ there ?_
        · exact congrArg (· + 1) position
        · exact congrArg (_ :: ·) stack
    | made here executes | called here executes =>
      cases current.symm.trans here
      cases executes
  | @loaded f v position there stack =>
    obtain ⟨name, constructor, line, params⟩ := fronted.makes
    have current : f.current? = some (.newobj constructor) := Frame.current?_at position line
    cases goes with
    | made here executes =>
      cases current.symm.trans here
      cases executes with
      | newobj =>
        refine .making ?_ there ?_
        · exact congrArg (· + 1) position
        · show f.stack.drop constructor.params.length = [v]
          rw [params, stack]
          rfl
    | moved here executes | called here executes =>
      cases current.symm.trans here
      cases executes
  | @making f v position there stack =>
    cases goes with
    | waited => exact .making position there stack
    | resumed result => exact .made (result.getD .null) position there (congrArg (_ :: ·) stack)
  | @made f v content position there stack =>
    obtain ⟨name, fld, line, _⟩ := fronted.stores
    have current : f.current? = some (.stfld fld) := Frame.current?_at position line
    cases goes with
    | moved here executes =>
      cases current.symm.trans here
      cases executes with
      | stfld => exact .past (Nat.le_of_eq (congrArg (· + 1) position.symm))
    | made here executes | called here executes =>
      cases current.symm.trans here
      cases executes
  | past beyond => exact .past (past_goes fronted beyond goes)

end Activation.Stage

/-- In its prologue an activation goes from line to line and does not return. -/
theorem Frame.straight_of_fronted (fronted : f.body.Fronted field) (inside : f.position < 3)
    {i : Instr} (here : f.current? = some i) : i.target? = none ∧ i.isRet = false := by
  obtain ⟨_, this⟩ := fronted.this
  obtain ⟨_, _, makes, _⟩ := fronted.makes
  obtain ⟨_, _, stores, _⟩ := fronted.stores
  obtain first | second | third : f.position = 0 ∨ f.position = 1 ∨ f.position = 2 := by omega
  · cases (Frame.current?_at first this).symm.trans here
    exact ⟨rfl, rfl⟩
  · cases (Frame.current?_at second makes).symm.trans here
    exact ⟨rfl, rfl⟩
  · cases (Frame.current?_at third stores).symm.trans here
    exact ⟨rfl, rfl⟩

theorem Activation.Goes.position_fronted (goes : (Activation.working f).Goes h a')
    (fronted : f.body.Fronted field) (inside : f.position < 3) :
    a'.frame.position = f.position + 1 := by
  obtain ⟨i, here, _, next | ⟨t, target, _⟩⟩ := goes.position_working
  · exact next
  · rw [(Frame.straight_of_fronted fronted inside here).1] at target
    cases target

/-- The constructors start with prologues for the field, and no other body stores into it. -/
structure Program.Fronts (p : Program) (field : String) (ctor : MethodKey → Bool) : Prop where
  fronted : ∀ key d b, HasBody p.module key d b → ctor key = true → b.Fronted field
  spares : ∀ key d b, HasBody p.module key d b → ctor key = false → b.Spares field

/-- The activation is one of a body of the program, and keeps to its prologue if it has one. -/
structure Activation.Orderly (p : Program) (ctor : MethodKey → Bool) (a : Activation) : Prop where
  known : ∃ d, Program.HasBody p.module a.frame.key d a.frame.body
  stage : ctor a.frame.key = true → a.Stage

/-- The frame is one of a constructor that runs on the object. -/
def Frame.builds (ctor : MethodKey → Bool) (o : Nat) (f : Frame) : Bool :=
  ctor f.key && f.receiver? == some o

theorem Frame.builds_iff : f.builds ctor o = true ↔ ctor f.key = true ∧ f.receiver? = some o := by
  rw [builds, Bool.and_eq_true, beq_iff_eq]

theorem Activation.Goes.builds (goes : a.Goes h a') :
    a'.frame.builds ctor o = a.frame.builds ctor o := by
  obtain ⟨key, _, args⟩ := goes.same
  rw [Frame.builds, Frame.builds, Frame.receiver?, Frame.receiver?, key, args]

theorem Activation.orderly_start {key : MethodKey} {d : MethodDef} {b : Body}
    (known : Program.HasBody p.module key d b) (args : List Value) :
    (Activation.working (Frame.start key d b args)).Orderly p ctor :=
  ⟨⟨d, known⟩, fun _ => .opened rfl rfl⟩

namespace Activation.Orderly

theorem fronted (orderly : a.Orderly p ctor) (fronts : p.Fronts field ctor)
    (constructs : ctor a.frame.key = true) : a.frame.body.Fronted field := by
  obtain ⟨d, known⟩ := orderly.known
  exact fronts.fronted _ d _ known constructs

theorem goes (orderly : a.Orderly p ctor) (fronts : p.Fronts field ctor) (goes : a.Goes h a') :
    a'.Orderly p ctor := by
  obtain ⟨key, body, _⟩ := goes.same
  refine ⟨?_, fun constructs => ?_⟩
  · rw [key, body]
    exact orderly.known
  · rw [key] at constructs
    exact (orderly.stage constructs).goes (orderly.fronted fronts constructs) goes

/-- Only the third instruction of a constructor on the object stores into the field. -/
theorem builds_of_stores (orderly : (working f).Orderly p ctor) (fronts : p.Fronts field ctor)
    {content : Value} (stores : f.stores? field = some (o, content)) :
    f.builds ctor o = true ∧ f.position = 2 := by
  unfold Frame.stores? at stores
  split at stores
  · next fld content' o' _ here stack =>
    split at stores
    · next named =>
      cases stores
      obtain ⟨name, line⟩ := Frame.current?_eq_some.1 here
      obtain ⟨d, known⟩ := orderly.known
      cases constructs : ctor f.key with
      | false =>
        have spares := fronts.spares _ d _ known constructs _ (List.mem_of_getElem? line)
        exact absurd named (spares fld rfl)
      | true =>
        have position : f.position = 2 := by
          by_contra other
          exact (orderly.fronted fronts constructs).spares _ _ line other fld rfl named
        refine ⟨Frame.builds_iff.2 ⟨constructs, ?_⟩, position⟩
        cases orderly.stage constructs with
        | opened first | loaded first =>
          rw [position] at first
          cases first
        | @made _ v content _ there stack' =>
          rw [stack] at stack'
          cases stack'
          obtain ⟨rest, args⟩ : ∃ rest, f.args = .object o :: rest := by
            cases args : f.args with
            | nil =>
              rw [args] at there
              cases there
            | cons first rest =>
              rw [args] at there
              cases there
              exact ⟨rest, rfl⟩
          rw [Frame.receiver?, args]
        | past beyond => exact absurd position (Nat.ne_of_gt beyond)
    · cases stores
  · cases stores

/-- The third instruction of a constructor on the object stores into the field. -/
theorem stores_of_builds (orderly : (working f).Orderly p ctor) (fronts : p.Fronts field ctor)
    (builds : f.builds ctor o = true) (last : f.position = 2) :
    ∃ content, f.stack = [content, .object o] ∧ f.stores? field = some (o, content) := by
  obtain ⟨constructs, receiver⟩ := Frame.builds_iff.1 builds
  obtain ⟨_, fld, line, named⟩ := (orderly.fronted fronts constructs).stores
  obtain ⟨content, stack⟩ : ∃ content, f.stack = [content, .object o] := by
    cases orderly.stage constructs with
    | opened first | loaded first =>
      rw [last] at first
      cases first
    | made content _ there stack =>
      refine ⟨content, ?_⟩
      unfold Frame.receiver? at receiver
      split at receiver
      · next o' rest args =>
        cases receiver
        rw [args] at there
        cases there
        exact stack
      · cases receiver
    | past beyond => exact absurd last (Nat.ne_of_gt beyond)
  refine ⟨content, stack, ?_⟩
  rw [Frame.stores?, Frame.current?_at last line, stack]
  exact if_pos named

end Activation.Orderly

/-! ## One construction -/

/-- The step is the first of a constructor that runs on the object. -/
def State.enters (ctor : MethodKey → Bool) (o : Nat) (s : State) : Bool :=
  match s.active with
  | .frame f => f.builds ctor o && f.position == 0
  | _ => false

/-- Nothing was stored in the field of the object, and its constructors are in their prologues. -/
structure Untouched (field : String) (ctor : MethodKey → Bool) (o : Nat) (states : List State) :
    Prop where
  quiet : ∀ s ∈ states, ∀ v, s.stores? field ≠ some (o, v)
  early : ∀ s ∈ states, ∀ f, s.active = .frame f → f.builds ctor o = true → f.position < 2

/-- The field of the object was stored once, before its constructors came past their prologues. -/
structure Program.StoredOnce (p : Program) (field : String) (ctor : MethodKey → Bool) (o : Nat)
    (states before : List State) (store : State) (after : List State) (content : Value) :
    Prop where
  split : states = before ++ store :: after
  untouched : Untouched field ctor o before
  stores : store.stores? field = some (o, content)
  stored : ∃ s', p.step store = .running s' ∧ s'.memory.heap.Has field o content
  quiet : ∀ s ∈ after, ∀ v, s.stores? field ≠ some (o, v)

def Program.Stored (p : Program) (field : String) (ctor : MethodKey → Bool) (o : Nat)
    (states : List State) : Prop :=
  ∃ before store after content, p.StoredOnce field ctor o states before store after content

section Construction

variable {states : List State} {s : State} {under : List Caller}

theorem Untouched.concat (untouched : Untouched field ctor o states)
    (quiet : ∀ v, s.stores? field ≠ some (o, v))
    (early : ∀ f, s.active = .frame f → f.builds ctor o = true → f.position < 2) :
    Untouched field ctor o (states ++ [s]) where
  quiet := List.forall_mem_append.2 ⟨untouched.quiet, List.forall_mem_singleton.2 quiet⟩
  early := List.forall_mem_append.2 ⟨untouched.early, List.forall_mem_singleton.2 early⟩

theorem Program.Stored.concat (stored : p.Stored field ctor o states)
    (quiet : ∀ v, s.stores? field ≠ some (o, v)) : p.Stored field ctor o (states ++ [s]) := by
  obtain ⟨before, store, after, content, once⟩ := stored
  refine ⟨before, store, after ++ [s], content, ?_, once.untouched, once.stores, once.stored, ?_⟩
  · rw [once.split, List.append_assoc, List.cons_append]
  · exact List.forall_mem_append.2 ⟨once.quiet, List.forall_mem_singleton.2 quiet⟩

/-- What stands over the constructor: activations in order, and none of a constructor of the
object. -/
def Activation.Aside (p : Program) (ctor : MethodKey → Bool) (o : Nat) (a : Activation) : Prop :=
  a.Orderly p ctor ∧ a.frame.builds ctor o = false

/-- How far the construction of an object is, after some states. -/
inductive Program.Building (p : Program) (field : String) (ctor : MethodKey → Bool) (o : Nat)
    (states : List State) : Progress → Prop where
  | early {s : State} {a} : s.Stands (Activation.Aside p ctor o) [.constructing (.object o)] a →
      a.Orderly p ctor → a.frame.builds ctor o = true → a.frame.position < 3 →
      Untouched field ctor o states → Building p field ctor o states (.running s)
  | late {s : State} {a} : s.Stands (Activation.Aside p ctor o) [.constructing (.object o)] a →
      a.Orderly p ctor → a.frame.builds ctor o = true → 3 ≤ a.frame.position →
      p.Stored field ctor o states → Building p field ctor o states (.running s)
  | leaving (m : Memory) : p.Stored field ctor o states →
      Building p field ctor o states (.running ⟨m, .native (.done (.ok (some (.object o)))), []⟩)
  | done (m : Memory) : p.Stored field ctor o states →
      Building p field ctor o states (.finished m (.ok (some (.object o))))
  | failing (m : Memory) (e : ExecError) {callers} :
      callers = [.constructing (.object o)] ∨ callers = [] →
      Building p field ctor o states (.running ⟨m, .failure e, callers⟩)
  | failed (m : Memory) (e : ExecError) : Building p field ctor o states (.finished m (.error e))

/-- Over a waiting constructor nothing stores into the field of its object. -/
theorem State.Stands.quiet {takes : Bool} (fronts : p.Fronts field ctor)
    (stands : s.Stands (Activation.Aside p ctor o) under (.waiting f takes)) :
    (∀ v, s.stores? field ≠ some (o, v)) ∧ ∀ g, s.active = .frame g → g.builds ctor o = false := by
  cases stands with
  | waiting memory f takes fits =>
    refine ⟨fun v stores => ?_, fun g active => (fits g active).2⟩
    unfold State.stores? at stores
    split at stores
    · next g active =>
      have apart : g.builds ctor o = false := (fits g active).2
      have builds := ((fits g active).1.builds_of_stores fronts stores).1
      rw [apart] at builds
      cases builds
    · cases stores

/-- A constructor at work that is not at its store stores nothing into the field of its object. -/
theorem State.quiet_working {memory : Memory} (fronts : p.Fronts field ctor)
    (orderly : (Activation.working f).Orderly p ctor) (other : f.position ≠ 2) (v : Value) :
    State.stores? field ⟨memory, .frame f, under⟩ ≠ some (o, v) := fun stores =>
  other (orderly.builds_of_stores fronts stores).2

/-- The third instruction of the prologue stores a container, or the construction fails. -/
theorem Program.Building.of_store {memory : Memory} (fronts : p.Fronts field ctor)
    (orderly : (Activation.working f).Orderly p ctor) (builds : f.builds ctor o = true)
    (last : f.position = 2) (untouched : Untouched field ctor o states) :
    p.Building field ctor o (states ++ [⟨memory, .frame f, [.constructing (.object o)]⟩])
      (p.step ⟨memory, .frame f, [.constructing (.object o)]⟩) := by
  obtain ⟨_, fld, line, named⟩ := (orderly.fronted fronts (Frame.builds_iff.1 builds).1).stores
  have current : f.current? = some (.stfld fld) := Frame.current?_at last line
  obtain ⟨content, stack, stores⟩ := orderly.stores_of_builds fronts builds last
  have step := p.steps ⟨memory, .frame f, [.constructing (.object o)]⟩
  generalize same : p.step ⟨memory, .frame f, [.constructing (.object o)]⟩ = progress at step ⊢
  cases step with
  | moved here executes =>
    have goes := Activation.Goes.moved here executes
    cases current.symm.trans here
    cases executes with
    | @stfld _ _ n object rest stack' there =>
      rw [stack] at stack'
      cases stack'
      refine .late (.working _ _) (orderly.goes fronts goes) (goes.builds.trans builds)
        (Nat.le_of_eq (congrArg (· + 1) last.symm)) ⟨states, _, [], content, rfl, untouched, stores,
          ⟨_, same, ?_⟩, fun s impossible => by cases impossible⟩
      rw [← named]
      exact Heap.has_setField there fld.name content
  | asked asks =>
    cases asks with
    | construct here executes | invoke here executes =>
      cases current.symm.trans here
      cases executes
  | ended ends =>
    cases ends with
    | left here executes =>
      cases current.symm.trans here
      cases executes
  | stuck steps e => exact .failing _ e (.inl rfl)

theorem Program.Building.step (fronts : p.Fronts field ctor)
    (building : p.Building field ctor o states (.running s))
    (once : ∀ m' key d b args callers', HasBody p.module key d b →
      p.step s = .running ⟨m', .frame (Frame.start key d b args), callers'⟩ →
      (Frame.start key d b args).builds ctor o = false) :
    p.Building field ctor o (states ++ [s]) (p.step s) := by
  have leaves {a : Activation}
      (stands : s.Stands (Activation.Aside p ctor o) [.constructing (.object o)] a) :
      p.Leaves (Activation.Aside p ctor o) [.constructing (.object o)] s a (p.step s) := by
    refine leaves_step stands (fun h b b' aside goes => ?_) fun m' key d b args callers' known next => ?_
    · exact ⟨aside.1.goes fronts goes, goes.builds.trans aside.2⟩
    · exact ⟨Activation.orderly_start known args, once m' key d b args callers' known next⟩
  cases building with
  | @early s a stands orderly builds early untouched =>
    have fronted := orderly.fronted fronts (Frame.builds_iff.1 builds).1
    have next := leaves stands
    generalize same : p.step s = progress at next
    cases a with
    | waiting f takes =>
      obtain ⟨quiet, apart⟩ := stands.quiet fronts
      have untouched' := untouched.concat quiet fun g active builds' => by
        rw [apart g active] at builds'
        cases builds'
      cases next with
      | goes goes stands' =>
        refine .early stands' (orderly.goes fronts goes) (goes.builds.trans builds) ?_ untouched'
        rw [goes.position_waiting]
        exact early
      | failed m e => exact .failing m e (.inl rfl)
    | working f =>
      cases stands with
      | working memory f =>
        by_cases last : f.position = 2
        · exact same ▸ Building.of_store fronts orderly builds last untouched
        have before : f.position < 2 := Nat.lt_of_le_of_ne (Nat.le_of_lt_succ early) last
        have untouched' : Untouched field ctor o
            (states ++ [⟨memory, .frame f, [.constructing (.object o)]⟩]) :=
          untouched.concat (State.quiet_working fronts orderly last) fun g active _ => by
            cases active
            exact before
        cases next with
        | goes goes stands' =>
          refine .early stands' (orderly.goes fronts goes) (goes.builds.trans builds) ?_ untouched'
          rw [goes.position_fronted fronted early]
          exact Nat.succ_lt_succ before
        | left _ here executes =>
          cases executes
          cases (Frame.straight_of_fronted fronted early here).2
        | failed m e => exact .failing m e (.inl rfl)
  | @late s a stands orderly builds late stored =>
    have fronted := orderly.fronted fronts (Frame.builds_iff.1 builds).1
    have quiet : ∀ v, s.stores? field ≠ some (o, v) := by
      cases a with
      | waiting f takes => exact (stands.quiet fronts).1
      | working f =>
        cases stands with
        | working memory f => exact State.quiet_working fronts orderly (Nat.ne_of_gt late)
    have next := leaves stands
    generalize p.step s = progress at next
    cases next with
    | goes goes stands' =>
      exact .late stands' (orderly.goes fronts goes) (goes.builds.trans builds)
        (Activation.Stage.past_goes fronted late goes) (stored.concat quiet)
    | left => exact .leaving _ (stored.concat quiet)
    | failed m e => exact .failing m e (.inl rfl)
  | leaving m stored => exact .done m (stored.concat fun v impossible => by cases impossible)
  | failing m e bottom =>
    obtain rfl | rfl := bottom
    · exact .failing m e (.inr rfl)
    · exact .failed m e

/-- The state that a run is in. -/
def Progress.state? : Progress → Option State
  | .running s => some s
  | .finished _ _ => none

theorem Program.Passes.starts {progress : Progress}
    (passes : p.Passes (.running s) states progress) :
    ∃ rest, states ++ progress.state?.toList = s :: rest := by
  induction passes with
  | start => exact ⟨[], rfl⟩
  | @step states last passes ih =>
    obtain ⟨rest, same⟩ := ih
    exact ⟨rest ++ (p.step last).state?.toList, by
      rw [← List.cons_append, ← same]
      rfl⟩

/-- Where a constructor is entered once on an object, the construction goes through its stages. -/
theorem Program.Passes.building {memory : Memory} {key : MethodKey} {d : MethodDef} {b : Body}
    {args : List Value} {progress : Progress} (fronts : p.Fronts field ctor)
    (known : HasBody p.module key d b) (constructs : ctor key = true)
    (passes : p.Passes (.running ⟨memory, .frame (Frame.start key d b (.object o :: args)),
      [.constructing (.object o)]⟩) states progress)
    (once : (states ++ progress.state?.toList).countP (State.enters ctor o) ≤ 1) :
    p.Building field ctor o states progress := by
  have builds : (Frame.start key d b (.object o :: args)).builds ctor o = true :=
    Frame.builds_iff.2 ⟨constructs, rfl⟩
  induction passes with
  | start =>
    refine .early (.working _ _) (Activation.orderly_start known _) builds (Nat.zero_lt_succ 2) ?_
    exact ⟨List.forall_mem_nil _, List.forall_mem_nil _⟩
  | @step states s passes ih =>
    have before : (states ++ (Progress.running s).state?.toList).countP (State.enters ctor o) ≤ 1 := by
      rw [List.countP_append] at once
      exact Nat.le_of_add_right_le once
    refine (ih before).step fronts fun m' key' d' b' args' callers' _ next => ?_
    by_contra again
    rw [Bool.not_eq_false] at again
    obtain ⟨rest, same⟩ := passes.starts
    have first : State.enters ctor o ⟨memory, .frame (Frame.start key d b (.object o :: args)),
        [.constructing (.object o)]⟩ = true := by
      rw [State.enters, Bool.and_eq_true]
      exact ⟨builds, rfl⟩
    have second : State.enters ctor o ⟨m', .frame (Frame.start key' d' b' args'), callers'⟩ =
        true := by
      rw [State.enters, Bool.and_eq_true]
      exact ⟨again, rfl⟩
    rw [next, show states ++ [s] = states ++ (Progress.running s).state?.toList from rfl, same,
      List.countP_append, List.countP_cons_of_pos first] at once
    simp only [Progress.state?, Option.toList_some, List.countP_singleton, second, if_true] at once
    omega

end Construction

/-- A construction that returns the object and stores its field once. The field keeps what was
stored if native code spares it. -/
def Program.MakesOnce (p : Program) (field : String) (ctor : MethodKey → Bool) (o : Nat)
    (states : List State) (m : Memory) (result : Option Value) : Prop :=
  result = some (.object o) ∧ ∃ before store after content,
    p.StoredOnce field ctor o states before store after content ∧
    (p.Spares field → (∀ s ∈ after, s.memory.heap.Has field o content) ∧ m.heap.Has field o content)

/-- One constructor is entered on the object that it is to make. -/
theorem Program.Passes.makesOnce {memory m : Memory} {key : MethodKey} {d : MethodDef} {b : Body}
    {args : List Value} {states : List State} {result : Option Value}
    (fronts : p.Fronts field ctor) (known : HasBody p.module key d b)
    (constructs : ctor key = true)
    (passes : p.Passes (.running ⟨memory, .frame (Frame.start key d b (.object o :: args)),
      [.constructing (.object o)]⟩) states (.finished m (.ok result)))
    (once : states.countP (State.enters ctor o) ≤ 1) :
    p.MakesOnce field ctor o states m result := by
  have building := passes.building fronts known constructs (by
    rw [Progress.state?, Option.toList_none, List.append_nil]
    exact once)
  cases building with
  | done m stored =>
    obtain ⟨before, store, after, content, stored⟩ := stored
    refine ⟨rfl, before, store, after, content, stored, fun library => ?_⟩
    obtain ⟨s', next, has⟩ := stored.stored
    obtain ⟨first, rest⟩ := passes.split stored.split
    have spares : (p.step store).Spares field := (step_spares library
      (first.spares library ⟨trivial, List.forall_mem_singleton.2 trivial⟩)).1
    rw [next] at spares rest
    obtain ⟨_, last, all⟩ := rest.has library spares has stored.quiet
    exact ⟨all, last⟩

end Machine

end ReleaseWeaver
