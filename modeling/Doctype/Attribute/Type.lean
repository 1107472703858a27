import Doctype.Text

/-!
The types that attributes are declared to have, and how an attribute list says what holds if
the attribute is left out.
-/

namespace Doctype.Attribute

inductive Kind
  | cdata
  | id
  | idref
  | idrefs
  | entity
  | entities
  | nmtoken
  | nmtokens
  | enumeration (values : List Text)
  | notations (names : List Text)
  deriving DecidableEq

namespace Kind

def ofKeyword? (keyword : Text) : Option Kind :=
  if keyword = "CDATA" then some cdata
  else if keyword = "ID" then some id
  else if keyword = "IDREF" then some idref
  else if keyword = "IDREFS" then some idrefs
  else if keyword = "ENTITY" then some entity
  else if keyword = "ENTITIES" then some entities
  else if keyword = "NMTOKEN" then some nmtoken
  else if keyword = "NMTOKENS" then some nmtokens
  else none

/-- Whether values are split into tokens, which is so for every type but one. -/
def isTokenized (k : Kind) : Bool :=
  k ≠ cdata

def values : Kind → List Text
  | enumeration vs => vs
  | notations ns => ns
  | _ => []

/-- A type as it is declared, without blanks in its group. -/
def print : Kind → Text
  | cdata => "CDATA"
  | id => "ID"
  | idref => "IDREF"
  | idrefs => "IDREFS"
  | entity => "ENTITY"
  | entities => "ENTITIES"
  | nmtoken => "NMTOKEN"
  | nmtokens => "NMTOKENS"
  | enumeration vs => "(" ++ Text.join ['|'] vs ++ ")"
  | notations ns => "NOTATION (" ++ Text.join ['|'] ns ++ ")"

end Kind

/-- What holds for an attribute that is left out. -/
inductive Default
  | required
  | implied
  | fixed (value : Text)
  | plain (value : Text)
  deriving DecidableEq

namespace Default

def label : Default → Text
  | required => "#REQUIRED"
  | implied => "#IMPLIED"
  | fixed _ => "#FIXED"
  | plain _ => "#DEFAULT"

def value? : Default → Option Text
  | fixed v => some v
  | plain v => some v
  | _ => none

def withValue (d : Default) (value : Text) : Default :=
  match d with
  | fixed _ => fixed value
  | plain _ => plain value
  | d => d

end Default
end Doctype.Attribute
