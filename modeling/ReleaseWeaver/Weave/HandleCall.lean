import ReleaseWeaver.Code.Body
import ReleaseWeaver.Text.Fragment

/-
  Handle calls: invocations of a method that returns the disposal contract and whose full name
  holds a fragment.
-/

namespace ReleaseWeaver

def Instr.isHandleCall (contract : TypeRef) (fragment : String) (i : Instr) : Bool :=
  match i.invoked? with
  | some method => method.returns == some contract && Text.hasFragment fragment method.fullName
  | none => false

/-- The handle calls of a body, in order. -/
def Body.handleCalls (b : Body) (contract : TypeRef) (fragment : String) : List Handle :=
  (b.lines.filter fun (_, i) => i.isHandleCall contract fragment).map Prod.fst

end ReleaseWeaver
