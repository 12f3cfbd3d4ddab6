import ReleaseWeaver.Machine.State

/-
  What is observed of a run. A watch names a tracking field, the handle calls whose results go
  into the container in that field, and a teardown. A step may store a container in the tracking
  field of an object, hand the result of a handle call to the body on the object that made it, or
  leave the teardown of the object through its last instruction; each of these is an event. A run
  is a sequence of requests of a host, one after the other, in which nothing has failed.
-/

namespace ReleaseWeaver.Machine

structure Watch where
  /-- The name of the tracking field. -/
  field : String
  /-- The handle calls in scope. -/
  sites : List (MethodKey × Handle)
  teardown : MethodKey
deriving DecidableEq, Inhabited

inductive Event where
  | prologue (object : Nat)
  | produced (object : Nat) (value : Value)
  | left (object : Nat)
deriving DecidableEq, Repr

namespace Event

/-- The values that are to be in the container of an object; a prologue starts with none. -/
def record (object : Nat) (values : List Value) : Event → List Value
  | prologue o => if o = object then [] else values
  | produced o v => if o = object then values ++ [v] else values
  | left _ => values

end Event

/-- The values that the handle calls on an object have produced since its prologue. -/
def producedOn (object : Nat) (events : List Event) : List Value :=
  events.foldl (Event.record object) []

namespace Frame

/-- The object that the body runs on. -/
def receiver? (f : Frame) : Option Nat :=
  match f.args with
  | .object o :: _ => some o
  | _ => none

theorem receiver?_eq_some {f : Frame} {o : Nat} :
    f.receiver? = some o ↔ f.args.head? = some (.object o) := by
  unfold receiver?
  cases f.args with
  | nil => simp
  | cons v rest => cases v <;> simp

/-- Whether a handle call in scope stands so many places before the next instruction. -/
def isPastSite (w : Watch) (f : Frame) (places : Nat) : Bool :=
  places ≤ f.position &&
    ((f.body.at? (f.position - places)).map fun h => w.sites.contains (f.key, h)).getD false

/-- Whether the next instruction is one of a registration. -/
def isRegistering (w : Watch) (f : Frame) : Bool :=
  f.isPastSite w 1 || f.isPastSite w 2 || f.isPastSite w 3

/-- The instruction stores a value in the tracking field. -/
def stored (w : Watch) (f : Frame) : List Event :=
  match f.current?, f.stack with
  | some (.stfld field), _ :: .object o :: _ => if field.name = w.field then [.prologue o] else []
  | _, _ => []

/-- The instruction is the final exit of the teardown. -/
def leaves (w : Watch) (f : Frame) : List Event :=
  match f.current?, f.receiver? with
  | some .ret, some o =>
    if f.key = w.teardown ∧ f.position + 1 = f.body.length then [.left o] else []
  | _, _ => []

/-- What a body hands to its caller with its next instruction. -/
def result? (f : Frame) : Option (Option Value) :=
  match f.current? with
  | some .ret => some (if f.returnsValue then f.stack.head? else none)
  | _ => none

end Frame

/-- What the code at work hands to its caller in the next step. -/
def Active.result? : Active → Option (Option Value)
  | .frame f => f.result?
  | .native (.done (.ok result)) => some result
  | _ => none

/-- The caller is the body of a handle call, and gets its result. -/
def handed (w : Watch) (result : Option Value) : List Caller → List Event
  | .frame f _ :: _ =>
    match f.receiver? with
    | some o => if f.isPastSite w 1 then [.produced o (result.getD .null)] else []
    | none => []
  | _ => []

/-- The events of the next step. -/
def emitted (w : Watch) (s : State) : List Event :=
  (match s.active with
    | .frame f => f.stored w ++ f.leaves w
    | _ => []) ++
  match s.active.result? with
  | some result => handed w result s.callers
  | none => []

/-- No failure is on its way. -/
def State.isAlive (s : State) : Bool :=
  match s.active with
  | .failure _ | .native (.done (.error _)) => false
  | _ => true

/-- The values that a request passes. -/
def Request.values : Request → List Value
  | .construct _ args => args
  | .callByName receiver _ args => receiver :: args
  | .invoke c => c.args

/-- The value is no object, or an object of the heap that is in no object's tracking field. -/
def Heap.isOutside (field : String) (h : Heap) : Value → Bool
  | .object n => (h.get? n).isSome && h.objects.all fun o => o.field field != .object n
  | _ => true

/-- The request passes only values of this sort. -/
def Request.Outside (field : String) (h : Heap) (request : Request) : Prop :=
  ∀ v ∈ request.values, h.isOutside field v = true

instance (field : String) : DecidableRel (Request.Outside field) :=
  fun h request => inferInstanceAs (Decidable (∀ v ∈ request.values, h.isOutside field v = true))

/-- The entries of the container in the tracking field of an object, and whether it is released. -/
def Heap.tracking? (field : String) (h : Heap) (object : Nat) : Option (List Value × Bool) :=
  match (h.get? object).map (Object.field · field) with
  | some (.object n) => match (h.get? n).map Object.native with
    | some (.container entries released) => some (entries, released)
    | _ => none
  | _ => none

/-- The value is a subscription that is not released. -/
def Heap.isOpen (h : Heap) : Value → Bool
  | .object n => (h.get? n).any fun o => o.native == .handle false
  | _ => false

/-- Between two requests, or in the course of one. -/
inductive Situation where
  | idle (m : Memory)
  | busy (s : State)

namespace Situation

def heap : Situation → Heap
  | idle m => m.heap
  | busy s => s.memory.heap

/-- A body on the object is about to execute an instruction of a registration. -/
def isRegistering (w : Watch) (object : Nat) : Situation → Bool
  | busy ⟨_, .frame f, _⟩ => f.receiver? == some object && f.isRegistering w
  | _ => false

end Situation

/-- A run of requests without a failure, with its events. -/
inductive Program.Runs (p : Program) (w : Watch) (admissible : Heap → Request → Prop) :
    List Event → Situation → Prop where
  | start : p.Runs w admissible [] (.idle {})
  | request {events m request s} : p.Runs w admissible events (.idle m) →
      admissible m.heap request → p.perform m [] request = .running s → s.isAlive = true →
      p.Runs w admissible events (.busy s)
  | step {events s s'} : p.Runs w admissible events (.busy s) → p.step s = .running s' →
      s'.isAlive = true → p.Runs w admissible (events ++ emitted w s) (.busy s')
  | finish {events s m result} : p.Runs w admissible events (.busy s) →
      p.step s = .finished m (.ok result) →
      p.Runs w admissible (events ++ emitted w s) (.idle m)

/-! ## Runs that are carried out -/

namespace Program

variable {p : Program} {w : Watch} {admissible : Heap → Request → Prop}

/-- Carry a request out in at most so many steps; a failure gives up. -/
def follow (p : Program) (w : Watch) : Nat → List Event → State → Option (List Event × Memory)
  | 0, _, _ => none
  | count + 1, events, s =>
    match p.step s with
    | .running s' =>
      if s'.isAlive then p.follow w count (events ++ emitted w s) s' else none
    | .finished m (.ok _) => some (events ++ emitted w s, m)
    | .finished _ (.error _) => none

/-- Carry requests out one after the other, each in at most so many steps. -/
def play (p : Program) (w : Watch) (admissible : Heap → Request → Prop)
    [DecidableRel admissible] (count : Nat) :
    List Event → Memory → List Request → Option (List Event × Memory)
  | events, m, [] => some (events, m)
  | events, m, request :: rest =>
    if admissible m.heap request then match p.perform m [] request with
      | .running s =>
        if s.isAlive then (p.follow w count events s).bind fun (events, m) =>
          p.play w admissible count events m rest
        else none
      | .finished _ _ => none
    else none

theorem Runs.of_follow {count : Nat} {events events' : List Event} {s : State} {m : Memory}
    (run : p.Runs w admissible events (.busy s))
    (followed : p.follow w count events s = some (events', m)) :
    p.Runs w admissible events' (.idle m) := by
  induction count generalizing events s with
  | zero => cases followed
  | succ count ih =>
    unfold follow at followed
    split at followed
    · next s' next =>
      split at followed
      · next alive => exact ih (run.step next alive) followed
      · cases followed
    · next m' result next =>
      cases followed
      exact run.finish next
    · cases followed

theorem Runs.of_play [DecidableRel admissible] {count : Nat} {requests : List Request}
    {events events' : List Event} {m m' : Memory} (run : p.Runs w admissible events (.idle m))
    (played : p.play w admissible count events m requests = some (events', m')) :
    p.Runs w admissible events' (.idle m') := by
  induction requests generalizing events m with
  | nil =>
    cases played
    exact run
  | cons request rest ih =>
    unfold play at played
    split at played
    · next admitted =>
      split at played
      · next s started =>
        split at played
        · next alive =>
          obtain ⟨⟨events₁, m₁⟩, followed, later⟩ := Option.bind_eq_some_iff.1 played
          exact ih (Runs.of_follow (run.request admitted started alive) followed) later
        · cases played
      · cases played
    · cases played

/-- What is found at the end of requests that are carried out is found at the end of a run. -/
theorem exists_runs [DecidableRel admissible] {count : Nat} {requests : List Request}
    {check : List Event × Memory → Bool}
    (found : (p.play w admissible count [] {} requests).any check = true) :
    ∃ events m, p.Runs w admissible events (.idle m) ∧ check (events, m) = true := by
  cases played : p.play w admissible count [] {} requests with
  | none =>
    rw [played] at found
    cases found
  | some r =>
    rw [played] at found
    exact ⟨r.1, r.2, Runs.of_play .start played, found⟩

end Program

end ReleaseWeaver.Machine
