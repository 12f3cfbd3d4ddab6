/-
  Fragments: one text inside another, in one piece.
-/

namespace ReleaseWeaver.Text

def hasInfix (piece : List Char) : List Char → Bool
  | [] => piece.isEmpty
  | c :: cs => piece.isPrefixOf (c :: cs) || hasInfix piece cs

/-- Whether `fragment` stands somewhere in `s`. -/
def hasFragment (fragment s : String) : Bool := hasInfix fragment.toList s.toList

end ReleaseWeaver.Text
