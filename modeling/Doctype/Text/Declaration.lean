import Doctype.Text.Blank

/-!
What may stand in front of the text proper of an entity: a byte order mark and a text
declaration.
-/

namespace Doctype.Text

def dropByteOrderMark : Text → Text
  | '\uFEFF' :: t => t
  | t => t

/-- What follows a text declaration, which has white space behind its keyword and ends at its
first question mark. -/
def afterDeclaration? (t : Text) : Option Text :=
  match dropPrefix? "<?xml" t with
  | some (c :: t) => if isWhiteSpace c then dropPrefix? "?>" (t.dropWhile (· ≠ '?')) else none
  | _ => none

def dropDeclaration (t : Text) : Text :=
  let body := dropByteOrderMark t
  (afterDeclaration? body).getD body

end Doctype.Text
