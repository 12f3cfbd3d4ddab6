import ReleaseWeaver.Machine.Program

/-
  One activation of a method body: its arguments, locals and evaluation stack, and the position of
  the next instruction. An instruction acts on the activation and the heap by itself, or asks for
  an object, for a call, or for the end of the activation.
-/

namespace ReleaseWeaver.Machine

structure Frame where
  key : MethodKey
  methodName : String
  returnsValue : Bool
  body : Body
  args : List Value
  locals : List Value
  /-- The top comes first. -/
  stack : List Value
  position : Nat

/-- What an instruction comes to. -/
inductive Effect where
  | next (f : Frame) (h : Heap)
  /-- Make an object of the class; `f` waits for it. -/
  | construct (f : Frame) (className : String) (args : List Value)
  /-- Make a call; `f` waits for its end. -/
  | invoke (f : Frame) (call : Call)
  | leave (result : Option Value)

namespace Frame

def start (key : MethodKey) (d : MethodDef) (b : Body) (args : List Value) : Frame where
  key := key
  methodName := d.name
  returnsValue := d.returns.isSome
  body := b
  args := args
  locals := List.replicate b.locals.length .null
  stack := []
  position := 0

def current? (f : Frame) : Option Instr := (f.body.lines[f.position]?).map Prod.snd

/-- Go on with another stack at the next position. -/
def continueWith (f : Frame) (stack : List Value) : Frame :=
  { f with stack, position := f.position + 1 }

/-- Take some values from the stack, the deepest first. -/
def take? (stack : List Value) (count : Nat) : Option (List Value × List Value) :=
  if count ≤ stack.length then some ((stack.take count).reverse, stack.drop count) else none

/-- Go on at the target of a branch. -/
def jump (f : Frame) (stack : List Value) (target : Handle) : Except ExecError Frame :=
  match f.body.position? target with
  | some position => .ok { f with stack, position }
  | none => .error .badBranch

/-- Whether a branch is taken on a value. -/
def takes (on : Condition) (v : Value) : Bool :=
  match on with
  | .always => true
  | .whenTrue => v.isTruthy
  | .whenFalse => !v.isTruthy

/-- Execute one instruction. -/
def exec (f : Frame) (h : Heap) (i : Instr) : Except ExecError Effect :=
  let underflow : Except ExecError Effect := .error (.stackUnderflow i.text)
  let push (v : Value) : Except ExecError Effect := .ok (.next (f.continueWith (v :: f.stack)) h)
  match i, f.stack with
  | .nop, stack => .ok (.next (f.continueWith stack) h)
  | .ldarg index, _ => match f.args[index.toNat]? with
    | some v => push v
    | none => .error (.badArgument index)
  | .ldloc index, _ => match f.locals[index.toNat]? with
    | some v => push v
    | none => .error (.badLocal index)
  | .stloc index, v :: stack =>
    if index.toNat < f.locals.length then
      .ok (.next { f.continueWith stack with locals := f.locals.set index.toNat v } h)
    else .error (.badLocal index)
  | .ldint value, _ => push (.int value)
  | .ldstr value, _ => push (.str value)
  | .ldnull, _ => push .null
  | .ldfld _, .null :: _ => .error (.nullReference i.text)
  | .ldfld field, v :: stack =>
    (h.field v field.name).map fun content => .next (f.continueWith (content :: stack)) h
  | .stfld _, _ :: .null :: _ => .error (.nullReference i.text)
  | .stfld field, content :: v :: stack =>
    (h.setField v field.name content).map fun h' => .next (f.continueWith stack) h'
  | .newobj constructor, stack => match take? stack constructor.params.length with
    | some (args, stack) =>
      .ok (.construct (f.continueWith stack) constructor.declaring.definitionName args)
    | none => underflow
  | .invoke method isVirtual, stack => match take? stack method.arity with
    | some (args, stack) => .ok (.invoke (f.continueWith stack) { method, args, isVirtual })
    | none => underflow
  | .dup, v :: stack => .ok (.next (f.continueWith (v :: v :: stack)) h)
  | .pop, _ :: stack => .ok (.next (f.continueWith stack) h)
  | .branch .always target, stack => (f.jump stack target).map fun f' => .next f' h
  | .branch on target, v :: stack =>
    if takes on v then (f.jump stack target).map fun f' => .next f' h
    else .ok (.next (f.continueWith stack) h)
  | .ret, stack =>
    if f.returnsValue then
      match stack with
      | v :: _ => .ok (.leave (some v))
      | [] => underflow
    else .ok (.leave none)
  | .throw, v :: _ => .error (.thrown v)
  | .stloc _, [] | .ldfld _, [] | .stfld _, [] | .stfld _, [_] | .dup, [] | .pop, []
  | .branch _ _, [] | .throw, [] => underflow

end Frame

end ReleaseWeaver.Machine
