import ReleaseWeaver.Code.Body

/-
  The listing of a body: one line per instruction under the label of its position, with branches
  to labels instead of handles.
-/

namespace ReleaseWeaver

namespace Listing

/-- The position with at least four digits. -/
def label (position : Nat) : String :=
  let digits := (toString position).toList
  "IL_" ++ String.ofList (List.replicate (4 - digits.length) '0' ++ digits)

def operation (b : Body) (i : Instr) : String :=
  match i.target? with
  | none => i.text
  | some target => i.mnemonic ++ " " ++ match b.position? target with
    | some position => label position
    | none => "<dangling>"

end Listing

/-- The lines of the listing. -/
def Body.listing (b : Body) : List String :=
  b.lines.zipIdx.map fun ((_, i), position) =>
    Listing.label position ++ ": " ++ Listing.operation b i

end ReleaseWeaver
