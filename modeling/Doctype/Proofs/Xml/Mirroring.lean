import Doctype.Proofs.Xml.View

/-!
Content models as nested elements. The tags of a content model are written from a stack of
steps, and they are those that the recursion over the tree writes (`treeTags_cons`). They open
elements in the order and at the depths of the nodes of the tree, and a reader that keeps the
open elements on a stack finds every end tag in its place and comes to one element in which
elements are nested as the nodes are in the tree (`treeTags_mirrors`).
-/

namespace Doctype.Xml

open Content

/-! ### Elements -/

inductive Node
  | element (name : Text) (attributes : List (Text × Text)) (inner : List Node)
  | text (t : Text)

/-- An element whose end is not read yet, and the nodes in front of it, last one first. -/
structure OpenElement where
  name : Text
  attributes : List (Text × Text)
  before : List Node

/-- The nodes that tags write. The elements that are open are `outer`, innermost first, and
`done` are the nodes in the innermost one, last one first. Only the innermost element may end,
and in the end none may be open. -/
def readNodes (outer : List OpenElement) (done : List Node) : List Tag → Option (List Node)
  | [] => if outer.isEmpty then some done.reverse else none
  | .declaration :: _ => none
  | .text t :: tags => readNodes outer (.text t :: done) tags
  | .empty name attributes :: tags =>
    readNodes outer (.element name attributes [] :: done) tags
  | .start name attributes :: tags => readNodes (⟨name, attributes, done⟩ :: outer) [] tags
  | .close name :: tags =>
    match outer with
    | [] => none
    | o :: outer =>
      if name = o.name then
        readNodes outer (.element o.name o.attributes done.reverse :: o.before) tags else none

/-- The elements that tags open, each with its depth. -/
def openings (depth : Nat) : List Tag → List (Nat × Text × List (Text × Text))
  | [] => []
  | .start name attributes :: tags => (depth, name, attributes) :: openings (depth + 1) tags
  | .empty name attributes :: tags => (depth, name, attributes) :: openings depth tags
  | .close _ :: tags => openings (depth - 1) tags
  | _ :: tags => openings depth tags

/-! ### Trees -/

mutual

def particleNode : Particle → Node
  | .name n mark => .element "child" (markAttributes mark) [.text n]
  | .pcdata => .element "pcdata" [] []
  | .group kind members mark =>
    .element (groupName kind) (markAttributes mark) (memberNodes members)

def memberNodes : List Particle → List Node
  | [] => []
  | p :: ps => particleNode p :: memberNodes ps

end

def nodeOpening : Nat × Particle.Node → Nat × Text × List (Text × Text)
  | (depth, .name _ mark) => (depth, "child", markAttributes mark)
  | (depth, .pcdata) => (depth, "pcdata", [])
  | (depth, .group kind mark) => (depth, groupName kind, markAttributes mark)

theorem membersTags_eq_flatMap (ps : List Particle) :
    membersTags ps = ps.flatMap particleTags := by
  induction ps with
  | nil => rfl
  | cons p ps ih => rw [membersTags, ih, List.flatMap_cons]

mutual

theorem openings_particleTags (depth : Nat) (p : Particle) (tags : List Tag) :
    openings depth (particleTags p ++ tags) = (p.preorder depth).map nodeOpening ++
      openings depth tags := by
  cases p with
  | name n mark => rfl
  | pcdata => rfl
  | group kind members mark =>
      have hmembers :=
        openings_membersTags (depth + 1) members (.close (groupName kind) :: tags)
      simp only [particleTags, List.cons_append, List.append_assoc, List.nil_append,
        openings, hmembers, Particle.preorder, List.map_cons]
      rfl

theorem openings_membersTags (depth : Nat) (ps : List Particle) (tags : List Tag) :
    openings depth (membersTags ps ++ tags) =
      (Particle.preorderAll depth ps).map nodeOpening ++ openings depth tags := by
  cases ps with
  | nil => rfl
  | cons p ps =>
      rw [membersTags, List.append_assoc, openings_particleTags depth p,
        openings_membersTags depth ps,
        Particle.preorderAll, List.map_append, List.append_assoc]

end

mutual

/-- The tags of a particle are read as its element, whatever is open around it. -/
theorem readNodes_particleTags (outer : List OpenElement) (done : List Node) (p : Particle)
    (tags : List Tag) :
    readNodes outer done (particleTags p ++ tags) =
      readNodes outer (particleNode p :: done) tags := by
  cases p with
  | name n mark => simp [particleTags, Tag.element, readNodes, particleNode]
  | pcdata => simp [particleTags, readNodes, particleNode]
  | group kind members mark =>
      have hmembers :=
        readNodes_membersTags (⟨groupName kind, markAttributes mark, done⟩ :: outer) [] members
        (.close (groupName kind) :: tags)
      simp only [particleTags, List.cons_append, List.append_assoc, List.nil_append, readNodes,
        hmembers, if_true, List.append_nil, List.reverse_reverse, particleNode]

theorem readNodes_membersTags (outer : List OpenElement) (done : List Node)
    (ps : List Particle) (tags : List Tag) :
    readNodes outer done (membersTags ps ++ tags) =
      readNodes outer ((memberNodes ps).reverse ++ done) tags := by
  cases ps with
  | nil => rfl
  | cons p ps =>
      rw [membersTags, List.append_assoc, readNodes_particleTags outer done p,
        readNodes_membersTags outer _ ps, memberNodes, List.reverse_cons, List.append_assoc]
      rfl

end

/-! ### Steps -/

/-- The tags of a tree on the stack are written first, and then those of what is below it. -/
theorem treeTags_cons (p : Particle) (steps : List Step) :
    treeTags (.tree p :: steps) = particleTags p ++ treeTags steps := by
  rw [treeTags_eq, treeTags_eq]
  rfl

/-- The stack of steps writes what the recursion over the tree writes, and then what was on the
stack: an empty tag for `#PCDATA`, a text between tags for a name, and for a group its tags
with what its members write in order between them. The elements are opened in preorder and at
the depths of the nodes, and each end tag ends the innermost element that is open, so that the
elements are nested as the tree is. -/
theorem treeTags_mirrors (p : Particle) :
    (∀ steps, treeTags (.tree p :: steps) = particleTags p ++ treeTags steps) ∧
      treeTags [.tree .pcdata] = [.empty "pcdata" []] ∧
      (∀ n mark, treeTags [.tree (.name n mark)] =
        Tag.element "child" (markAttributes mark) n) ∧
      (∀ kind members mark, treeTags [.tree (.group kind members mark)] =
        .start (groupName kind) (markAttributes mark) ::
          (members.flatMap fun q => treeTags [.tree q]) ++ [.close (groupName kind)]) ∧
      (∀ depth, openings depth (treeTags [.tree p]) = (p.preorder depth).map nodeOpening) ∧
      readNodes [] [] (treeTags [.tree p]) = some [particleNode p] := by
  refine ⟨treeTags_cons p, treeTags_tree .pcdata, fun n mark => treeTags_tree (.name n mark),
    fun kind members mark => ?_, fun depth => ?_, ?_⟩
  · have hmembers : (members.flatMap fun q => treeTags [.tree q]) = membersTags members := by
      rw [membersTags_eq_flatMap]
      exact congrArg (members.flatMap ·) (funext treeTags_tree)
    rw [treeTags_tree, hmembers]
    rfl
  · have hopenings := openings_particleTags depth p []
    rw [List.append_nil] at hopenings
    rw [treeTags_tree, hopenings]
    exact List.append_nil _
  · have hnodes := readNodes_particleTags [] [] p []
    rw [List.append_nil] at hnodes
    rw [treeTags_tree, hnodes]
    rfl

end Doctype.Xml
