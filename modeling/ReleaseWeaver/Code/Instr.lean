import ReleaseWeaver.Reference.Member
import ReleaseWeaver.Text.Quoted

/-
  Instructions of the stack machine, what each does to the evaluation stack, and their text.
  Branches name their target by its handle, so code may move without any change to them.
-/

namespace ReleaseWeaver

/-- Names an instruction inside its body; `null` names none. -/
inductive Handle where
  | null
  | nth (number : Nat)
deriving DecidableEq, Inhabited, Repr

namespace Handle

/-- The number set aside for the null handle. -/
def nullNumber : Nat := 4294967295

def number : Handle → Nat
  | null => nullNumber
  | nth k => k

def text : Handle → String
  | null => "InstrId(null)"
  | nth k => "InstrId(" ++ toString k ++ "v1)"

end Handle

/-- When a branch is taken. -/
inductive Condition where
  | always
  | whenTrue
  | whenFalse
deriving DecidableEq, Inhabited, Repr

inductive Instr where
  | nop
  | ldarg (index : UInt16)
  | ldloc (index : UInt16)
  | stloc (index : UInt16)
  | ldint (value : Int64)
  | ldstr (value : String)
  | ldnull
  | ldfld (field : FieldRef)
  | stfld (field : FieldRef)
  | newobj (constructor : MethodRef)
  | invoke (method : MethodRef) (isVirtual : Bool)
  | dup
  | pop
  | branch (on : Condition) (target : Handle)
  | ret
  | throw
deriving Inhabited, Repr

namespace Instr

/-- Argument 0, the receiver of an instance method. -/
def ldthis : Instr := .ldarg 0

def call (method : MethodRef) : Instr := .invoke method false

def callvirt (method : MethodRef) : Instr := .invoke method true

def mnemonic : Instr → String
  | .nop => "nop"
  | .ldarg _ => "ldarg"
  | .ldloc _ => "ldloc"
  | .stloc _ => "stloc"
  | .ldint _ => "ldc.i8"
  | .ldstr _ => "ldstr"
  | .ldnull => "ldnull"
  | .ldfld _ => "ldfld"
  | .stfld _ => "stfld"
  | .newobj _ => "newobj"
  | .invoke _ false => "call"
  | .invoke _ true => "callvirt"
  | .dup => "dup"
  | .pop => "pop"
  | .branch .always _ => "br"
  | .branch .whenTrue _ => "brtrue"
  | .branch .whenFalse _ => "brfalse"
  | .ret => "ret"
  | .throw => "throw"

def isRet : Instr → Bool
  | .ret => true
  | _ => false

/-- The method that an invocation names. -/
def invoked? : Instr → Option MethodRef
  | .invoke method _ => some method
  | _ => none

def target? : Instr → Option Handle
  | .branch _ target => some target
  | _ => none

/-- The same branch to another target; other instructions stay as they are. -/
def withTarget (target : Handle) : Instr → Instr
  | .branch on _ => .branch on target
  | i => i

/-- Whether the next instruction in order may follow. -/
def fallsThrough : Instr → Bool
  | .branch .always _ | .ret | .throw => false
  | _ => true

/-- The number of values taken from the stack; `ret` takes the result of a method that has one. -/
def pops (returnsValue : Bool) : Instr → Nat
  | .nop | .ldarg _ | .ldloc _ | .ldint _ | .ldstr _ | .ldnull | .branch .always _ => 0
  | .stloc _ | .ldfld _ | .dup | .pop | .branch .whenTrue _ | .branch .whenFalse _ | .throw => 1
  | .stfld _ => 2
  | .newobj constructor => constructor.params.length
  | .invoke method _ => method.arity
  | .ret => returnsValue.toNat

/-- The number of values put on the stack. -/
def pushes : Instr → Nat
  | .ldarg _ | .ldloc _ | .ldint _ | .ldstr _ | .ldnull | .ldfld _ | .newobj _ => 1
  | .dup => 2
  | .invoke method _ => method.returns.isSome.toNat
  | .nop | .stloc _ | .stfld _ | .pop | .branch _ _ | .ret | .throw => 0

/-- The mnemonic and the operand. -/
def text (i : Instr) : String :=
  match i with
  | .ldarg index | .ldloc index | .stloc index => i.mnemonic ++ " " ++ toString index.toNat
  | .ldint value => i.mnemonic ++ " " ++ toString value.toInt
  | .ldstr value => i.mnemonic ++ " " ++ Text.Quoted.quote value
  | .ldfld field | .stfld field => i.mnemonic ++ " " ++ field.fullName
  | .newobj method | .invoke method _ => i.mnemonic ++ " " ++ method.fullName
  | .branch _ target => i.mnemonic ++ " " ++ target.text
  | .nop | .ldnull | .dup | .pop | .ret | .throw => i.mnemonic

end Instr

end ReleaseWeaver
