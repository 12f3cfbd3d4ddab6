import ReleaseWeaver.Code.Body

/-
  Control flow. An instruction may be followed by the target of its branch and by the next
  instruction in order. A body has a flow when every branch leads to an instruction of the body
  and the last instruction does not fall through.
-/

namespace ReleaseWeaver

/-- Why the evaluation stack of a body cannot be checked, or why the check fails. -/
inductive FlowError where
  | undefinedTarget (position : Nat) (target : Handle)
  | fallsThroughEnd
  | stackUnderflow (position : Nat) (instruction : String) (needed available : Nat)
  | inconsistentDepth (position first second : Nat)
  | unbalancedReturn (position expected found : Nat)
deriving DecidableEq, Repr

def FlowError.message : FlowError → String
  | .undefinedTarget position target =>
    s!"Branch at position {position} targets `" ++ target.text
      ++ "`, which is not an instruction of this method body."
  | .fallsThroughEnd =>
    "Control flow falls through past the last instruction of the method body."
  | .stackUnderflow position instruction needed available =>
    s!"Evaluation stack underflow at position {position}: `{instruction}` needs "
      ++ s!"{needed} value(s) but only {available} are available."
  | .inconsistentDepth position first second =>
    s!"Inconsistent evaluation stack at position {position}: reached with depth {first} "
      ++ s!"and with depth {second}."
  | .unbalancedReturn position expected found =>
    s!"Unbalanced return at position {position}: expected {expected} value(s) on the stack, "
      ++ s!"found {found}."

namespace Body

def targetPosition (b : Body) (position : Nat) (i : Instr) : Except FlowError (List Nat) :=
  match i.target? with
  | none => .ok []
  | some target => match b.position? target with
    | some q => .ok [q]
    | none => .error (.undefinedTarget position target)

def nextPosition (b : Body) (position : Nat) (i : Instr) : Except FlowError (List Nat) :=
  if !i.fallsThrough then .ok []
  else if position + 1 < b.length then .ok [position + 1]
  else .error .fallsThroughEnd

/-- The positions that may follow, the target of a branch first, each once. -/
def successorsAt (b : Body) (position : Nat) (i : Instr) : Except FlowError (List Nat) :=
  match b.targetPosition position i with
  | .error e => .error e
  | .ok targets => match b.nextPosition position i with
    | .error e => .error e
    | .ok next => .ok (targets ++ next.filter fun q => !targets.contains q)

/-- The successors of every position. -/
def flow (b : Body) : Except FlowError (List (List Nat)) :=
  b.lines.zipIdx.mapM fun ((_, i), position) => b.successorsAt position i

/-- The edges of the flow between handles. -/
def flowEdges (b : Body) (flow : List (List Nat)) : List (Handle × Handle) :=
  (b.handles.zip flow).flatMap fun (h, next) => (next.filterMap b.at?).map fun h' => (h, h')

end Body

end ReleaseWeaver
