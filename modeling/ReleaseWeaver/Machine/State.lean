import ReleaseWeaver.Machine.Frame

/-
  The machine. A state holds the heap, the number of instructions executed, the code at work and
  the code that waits for it. One step executes one instruction, answers one request of native
  code, hands an outcome to the code that waits, or passes a failure on: bodies and constructors
  end with it, native code receives it.
-/

namespace ReleaseWeaver.Machine

/-- What stays between runs. -/
structure Memory where
  heap : Heap := {}
  steps : Nat := 0
deriving Inhabited

inductive Active where
  | frame (f : Frame)
  | native (work : NativeWork)
  /-- A failure on its way to native code or out of the run. -/
  | failure (e : ExecError)

inductive Caller where
  /-- A body that goes on when the call ends; `takesResult` tells whether it pushes a result. -/
  | frame (f : Frame) (takesResult : Bool)
  /-- An object whose constructor runs; the object is the result. -/
  | constructing (this : Value)
  | native (next : Heap → Outcome → Heap × NativeWork)

structure State where
  memory : Memory
  active : Active
  /-- The innermost first. -/
  callers : List Caller

inductive Progress where
  | running (s : State)
  | finished (m : Memory) (result : Outcome)

instance : Inhabited Progress := ⟨.finished {} (.ok none)⟩

/-- Go on with native code and the heap that it leaves. -/
def runNative (m : Memory) (callers : List Caller) (reply : Heap × NativeWork) : Progress :=
  .running ⟨{ m with heap := reply.1 }, .native reply.2, callers⟩

def fail (m : Memory) (callers : List Caller) (e : ExecError) : Progress :=
  .running ⟨m, .failure e, callers⟩

/-- Start the code of a call. -/
def enter (m : Memory) (callers : List Caller) (callee : Callee) (args : List Value) : Progress :=
  match callee with
  | .native code => runNative m callers (code m.heap args)
  | .body key d b => .running ⟨m, .frame (Frame.start key d b args), callers⟩

/-- Go on with the result of a call. -/
def Frame.accept (f : Frame) (takesResult : Bool) (result : Option Value) : Frame :=
  if takesResult then { f with stack := result.getD .null :: f.stack } else f

/-- Hand a result to the innermost caller. -/
def resume (m : Memory) (result : Option Value) : List Caller → Progress
  | [] => .finished m (.ok result)
  | .frame f takesResult :: callers =>
    .running ⟨m, .frame (f.accept takesResult result), callers⟩
  | .constructing this :: callers => .running ⟨m, .native (.done (.ok (some this))), callers⟩
  | .native next :: callers => runNative m callers (next m.heap (.ok result))

/-- Pass a failure on to the innermost caller. -/
def unwind (m : Memory) (e : ExecError) : List Caller → Progress
  | [] => .finished m (.error e)
  | .native next :: callers => runNative m callers (next m.heap (.error e))
  | _ :: callers => fail m callers e

namespace Program

/-- Make a call. -/
def invoke (p : Program) (m : Memory) (callers : List Caller) (c : Call) : Progress :=
  match p.callee m.heap c with
  | .ok callee => enter m callers callee c.args
  | .error e => fail m callers e

/-- Make an object and run its constructor; the result is the object. -/
def construct (p : Program) (m : Memory) (callers : List Caller) (className : String)
    (args : List Value) : Progress :=
  let (heap, this) := m.heap.alloc { className }
  let m' := { m with heap }
  match p.lookup className constructorName args.length with
  | some callee => enter m' (.constructing this :: callers) callee (this :: args)
  | none => fail m' callers (.unresolvedMethod (nativeName className constructorName))

/-- Call a method by name on an object, from the object's class upwards. -/
def callOn (p : Program) (m : Memory) (callers : List Caller) (receiver : Value) (name : String)
    (args : List Value) : Progress :=
  match m.heap.object receiver with
  | .error e => fail m callers e
  | .ok (_, o) => match p.lookup o.className name args.length with
    | some callee => enter m callers callee (receiver :: args)
    | none => fail m callers (.unresolvedMethod (nativeName o.className name))

/-- A call by name that nothing waits for. -/
def callByName (p : Program) (m : Memory) (receiver : Value) (name : String)
    (args : List Value) : Progress :=
  p.callOn m [] receiver name args

def perform (p : Program) (m : Memory) (callers : List Caller) : Request → Progress
  | .construct className args => p.construct m callers className args
  | .callByName receiver name args => p.callOn m callers receiver name args
  | .invoke c => p.invoke m callers c

/-- One instruction of a body. -/
def stepFrame (p : Program) (m : Memory) (callers : List Caller) (f : Frame) : Progress :=
  match f.current? with
  | none => fail m callers (.fellOffEnd f.methodName)
  | some i =>
    let m' := { m with steps := m.steps + 1 }
    if p.stepLimit < m'.steps then fail m' callers (.stepLimitExceeded p.stepLimit)
    else match f.exec m'.heap i with
      | .error e => fail m' callers e
      | .ok (.next f' heap) => .running ⟨{ m' with heap }, .frame f', callers⟩
      | .ok (.construct f' className args) =>
        p.construct m' (.frame f' true :: callers) className args
      | .ok (.invoke f' c) =>
        p.invoke m' (.frame f' c.method.returns.isSome :: callers) c
      | .ok (.leave result) => resume m' result callers

def step (p : Program) (s : State) : Progress :=
  match s.active with
  | .frame f => p.stepFrame s.memory s.callers f
  | .native (.done (.ok result)) => resume s.memory result s.callers
  | .native (.done (.error e)) => unwind s.memory e s.callers
  | .native (.ask request next) => p.perform s.memory (.native next :: s.callers) request
  | .failure e => unwind s.memory e s.callers

/-- At most `count` steps. -/
def runFor (p : Program) : Nat → Progress → Progress
  | count + 1, .running s => p.runFor count (p.step s)
  | _, progress => progress

/-- The end of a run, if it has one. -/
def outcome? (p : Program) (progress : Progress) : Option (Memory × Outcome) :=
  match progress with
  | .running s => p |>.outcome? (p.step s)
  | .finished m result => some (m, result)
partial_fixpoint

/-- Run to the end. -/
def run (p : Program) (progress : Progress) : Progress :=
  match p.outcome? progress with
  | some (m, result) => .finished m result
  | none => progress

end Program

end ReleaseWeaver.Machine
