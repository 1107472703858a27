import Doctype.Text

/-!
The grammar tree of a content model: names, `#PCDATA` and groups, with their occurrence marks.
A tree is written in the canonical form without blanks (`Particle.print`), and the element
names in it are listed in document order with repeats (`Particle.elementNames`).
-/

namespace Doctype.Content

/-- How often a particle may occur, if not exactly once. -/
inductive Mark
  | optional
  | zeroOrMore
  | oneOrMore
  deriving DecidableEq

def Mark.char : Mark → Char
  | optional => '?'
  | zeroOrMore => '*'
  | oneOrMore => '+'

def printMark : Option Mark → Text
  | some m => [m.char]
  | none => []

/-- Whether the members of a group follow one another or exclude one another. -/
inductive GroupKind
  | sequence
  | choice
  deriving DecidableEq

def GroupKind.separator : GroupKind → Char
  | sequence => ','
  | choice => '|'

inductive Particle
  | name (name : Text) (mark : Option Mark)
  | pcdata
  | group (kind : GroupKind) (members : List Particle) (mark : Option Mark)

namespace Particle

mutual

def print : Particle → Text
  | name n mark => n ++ printMark mark
  | pcdata => "#PCDATA"
  | group kind members mark => '(' :: printMembers kind members ++ ')' :: printMark mark

def printMembers (kind : GroupKind) : List Particle → Text
  | [] => []
  | p :: ps => print p ++ printMore kind ps

/-- Members of a group, each behind a separator. -/
def printMore (kind : GroupKind) : List Particle → Text
  | [] => []
  | p :: ps => kind.separator :: print p ++ printMore kind ps

end

@[simp] theorem print_name (n : Text) (mark : Option Mark) :
    (name n mark).print = n ++ printMark mark := rfl

@[simp] theorem print_group (kind : GroupKind) (members : List Particle) (mark : Option Mark) :
    (group kind members mark).print =
      '(' :: (printMembers kind members ++ ')' :: printMark mark) := rfl

@[simp] theorem printMembers_cons (kind : GroupKind) (p : Particle) (ps : List Particle) :
    printMembers kind (p :: ps) = p.print ++ printMore kind ps := rfl

@[simp] theorem printMore_cons (kind : GroupKind) (p : Particle) (ps : List Particle) :
    printMore kind (p :: ps) = kind.separator :: (p.print ++ printMore kind ps) := rfl

mutual

def count : Particle → Nat
  | name _ _ => 1
  | pcdata => 1
  | group _ members _ => 1 + countAll members

def countAll : List Particle → Nat
  | [] => 0
  | p :: ps => count p + countAll ps

end

theorem countAll_append (ps qs : List Particle) :
    countAll (ps ++ qs) = countAll ps + countAll qs := by
  induction ps with
  | nil => simp [countAll]
  | cons p ps ih => simp [countAll, ih, Nat.add_assoc]

/-- The element names in the trees that are still to be visited. -/
def namesIn : List Particle → List Text
  | [] => []
  | name n _ :: pending => n :: namesIn pending
  | pcdata :: pending => namesIn pending
  | group _ members _ :: pending => namesIn (members ++ pending)
termination_by pending => countAll pending
decreasing_by
  · simp [countAll, count]
  · simp [countAll, count]
  · simp only [countAll, count, countAll_append]; omega

/-- The element names that a tree refers to, once per reference. -/
def elementNames (p : Particle) : List Text :=
  namesIn [p]

inductive Node
  | name (name : Text) (mark : Option Mark)
  | pcdata
  | group (kind : GroupKind) (mark : Option Mark)

mutual

/-- The nodes of a tree with their depths, each in front of what is below it. -/
def preorder (depth : Nat) : Particle → List (Nat × Node)
  | name n mark => [(depth, .name n mark)]
  | pcdata => [(depth, .pcdata)]
  | group kind members mark => (depth, .group kind mark) :: preorderAll (depth + 1) members

def preorderAll (depth : Nat) : List Particle → List (Nat × Node)
  | [] => []
  | p :: ps => preorder depth p ++ preorderAll depth ps

end

end Particle
end Doctype.Content
