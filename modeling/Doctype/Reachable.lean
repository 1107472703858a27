import Doctype.Finding
import Doctype.Graph
import Doctype.Reference

/-!
The declarations that are needed to describe documents with given root elements. A walk over
the content models visits the elements, first come first served, and gathers what their
attributes depend on; then the general entities are followed into their replacement texts, last
come first served. A name that is not declared leads nowhere.
-/

namespace Doctype

/-- Some declarations, by their keys, and the root elements that they were asked for. -/
structure ReachableSet where
  roots : List Text
  keys : List Key
  deriving DecidableEq

namespace ReachableSet

def new (roots : List Text) : ReachableSet :=
  ⟨roots, []⟩

/-- Adds a key and tells whether it was new. -/
def insert (s : ReachableSet) (k : Key) : Bool × ReachableSet :=
  if s.keys.contains k then (false, s) else (true, { s with keys := s.keys ++ [k] })

def ofKeys (keys : List Key) : ReachableSet :=
  ⟨[], keys.eraseDups⟩

def everything (g : Graph) : ReachableSet :=
  ⟨g.elements.map (·.name), g.keys⟩

def contains (s : ReachableSet) (k : Key) : Bool :=
  s.keys.contains k

def sorted (s : ReachableSet) : List Key :=
  s.keys.mergeSort Key.le

end ReachableSet

/-- A stage that may fail. It adds to the findings of the stages before it, and what it added
stays where it fails. -/
abbrev Stage := EStateM Error (List Finding)

namespace Stage

def report (f : Finding) : Stage Unit :=
  modify (· ++ [f])

/-- What a stage comes to behind some findings, and all that is found by then. -/
def outcome {α : Type} (stage : Stage α) (findings : List Finding) :
    Except Error α × List Finding :=
  match stage findings with
  | .ok a findings => (.ok a, findings)
  | .error e findings => (.error e, findings)

end Stage

namespace Graph

/-! ### Declarations that a search has not met -/

section Unmet

variable {α : Type} (name : α → Text) {items : List α} {met : List Text}

def unmet (met : List Text) (items : List α) : Nat :=
  (items.filter (fun a => !met.contains (name a))).length

private theorem filter_notMem_cons (n : Text) :
    items.filter (fun a => !(n :: met).contains (name a)) =
      (items.filter (fun a => !met.contains (name a))).filter (name · != n) := by
  rw [List.filter_filter]
  exact List.filter_congr fun a _ => by rw [List.contains_cons, Bool.not_or]; rfl

theorem unmet_cons_le (n : Text) : unmet name (n :: met) items ≤ unmet name met items := by
  rw [unmet, filter_notMem_cons]
  exact List.length_filter_le _ _

theorem unmet_cons_lt {a : α} (ha : a ∈ items) (hnew : name a ∉ met) :
    unmet name (name a :: met) items < unmet name met items := by
  rw [unmet, filter_notMem_cons]
  exact List.length_filter_lt_length_iff_exists.2
    ⟨a, List.mem_filter.2 ⟨ha, by simpa using hnew⟩, by simp⟩

end Unmet

variable (g : Graph)

/-! ### The elements that wait -/

/-- The elements that wait for a visit, the next one first, and all that ever waited. -/
structure Queue where
  waiting : List Text
  visited : List Text
  deriving DecidableEq

namespace Queue

def empty : Queue :=
  ⟨[], []⟩

/-- Lets an element wait, unless it did so before. -/
def push (q : Queue) (name : Text) : Queue :=
  if q.visited.contains name then q else ⟨q.waiting ++ [name], name :: q.visited⟩

/-- How many visits are left at most: one for each element that waits or never did. -/
def visitsLeft (q : Queue) : Nat :=
  unmet Element.name q.visited g.elements + q.waiting.length

end Queue

def pushChild (q : Queue) (child : Text) : Queue :=
  match g.element? child with
  | some d => q.push d.name
  | none => q

/-- Lets a root wait if it is declared, and finds fault with it otherwise. -/
def pushRoot (q : Queue) (root : Text) : Stage Queue :=
  match g.element? root with
  | some d => return q.push d.name
  | none => do
    Stage.report (.danglingRoot root)
    return q

theorem visitsLeft_push_le {q : Queue} {n : Text} {d : Element} (h : g.element? n = some d) :
    (q.push d.name).visitsLeft g ≤ q.visitsLeft g := by
  unfold Queue.push
  split
  · exact Nat.le_refl _
  · next hnew =>
    have hlt := unmet_cons_lt Element.name (List.mem_of_find?_eq_some h) (by simpa using hnew)
    simp only [Queue.visitsLeft, List.length_append, List.length_singleton]
    omega

theorem visitsLeft_pushChildren_le (children : List Text) (q : Queue) :
    (children.foldl g.pushChild q).visitsLeft g ≤ q.visitsLeft g := by
  induction children generalizing q with
  | nil => exact Nat.le_refl _
  | cons child children ih =>
    refine Nat.le_trans (ih _) ?_
    unfold pushChild
    split
    · next h => exact g.visitsLeft_push_le h
    · exact Nat.le_refl _

/-! ### What an attribute depends on -/

/-- What a walk gathers: the declarations that it reached, and the names of the entities that
are still to be followed, the last one first. -/
structure Gathered where
  set : ReachableSet
  entities : List Text
  deriving DecidableEq

def insertNotationType (set : ReachableSet) (name : Text) : ReachableSet :=
  if (g.notationType? name).isSome then (set.insert (.notationType name)).2 else set

/-- Adds an attribute and the notations that its type lists. The entities that its default
value names or refers to are to be followed. -/
def gatherAttribute (gathered : Gathered) (a : Attribute) : Gathered :=
  let set := (gathered.set.insert (.attributeOf a.element a.name)).2
  let set :=
    match a.kind with
    | .notations names => names.foldl g.insertNotationType set
    | _ => set
  let named :=
    if a.kind = .entity ∨ a.kind = .entities then
      match a.default.value? with
      | some value => Text.words value
      | none => []
    else []
  ⟨set, a.references.reverse ++ (named.reverse ++ gathered.entities)⟩

def gatherElement (gathered : Gathered) (name : Text) : Gathered :=
  (g.attributesOf name).foldl g.gatherAttribute
    { gathered with set := (gathered.set.insert (.element name)).2 }

/-- Visits the elements that wait and lets their children wait behind them. -/
def walk (gathered : Gathered) : Queue → Gathered
  | ⟨[], _⟩ => gathered
  | ⟨name :: waiting, visited⟩ =>
    match g.element? name with
    | none => walk gathered ⟨waiting, visited⟩
    | some d =>
      walk (g.gatherElement gathered name)
        (d.content.elementNames.foldl g.pushChild ⟨waiting, visited⟩)
termination_by q => q.visitsLeft g
decreasing_by
  · simp [Queue.visitsLeft]
  · refine Nat.lt_of_le_of_lt (g.visitsLeft_pushChildren_le _ _) ?_
    simp [Queue.visitsLeft]

/-! ### Entities -/

def gatherEntity (set : ReachableSet) (name : Text) (e : Entity) : ReachableSet :=
  let set := (set.insert (.entity .general name)).2
  match e.notationName? with
  | some notationName => g.insertNotationType set notationName
  | none => set

def innerEntities (e : Entity) : List Text :=
  match e.definition with
  | .literal value => Reference.entities value
  | .external _ _ => []

/-- Adds the pending entities that are declared, their notations, and in turn whatever their
replacement texts refer to. -/
def closeEntities (set : ReachableSet) (seen : List Text) : List Text → ReachableSet
  | [] => set
  | name :: pending =>
    if _hseen : name ∈ seen then closeEntities set seen pending
    else
      match _hentity : g.entity? .general name with
      | none => closeEntities set (name :: seen) pending
      | some e =>
        closeEntities (g.gatherEntity set name e) (name :: seen)
          ((innerEntities e).reverse ++ pending)
termination_by pending => (unmet Entity.name seen g.generalEntities, pending.length)
decreasing_by
  · exact Prod.Lex.right _ (Nat.lt_succ_self _)
  · exact Prod.Lex.right' _ (unmet_cons_le _ _) (Nat.lt_succ_self _)
  · have hname : e.name = name := by simpa using List.find?_some _hentity
    exact Prod.Lex.left _ _
      (hname ▸ unmet_cons_lt _ (List.mem_of_find?_eq_some _hentity) (hname ▸ _hseen))

/-- The search for what is reachable from the roots. It fails if there is none or none is
declared, and finds fault with every one that is not. -/
def reach (roots : List Text) : Stage ReachableSet := do
  if roots.isEmpty then
    throw (.reachability .noRoots)
  let queue ← roots.foldlM g.pushRoot .empty
  if queue.waiting.isEmpty then
    throw (.reachability (.rootsUndeclared roots))
  let gathered := g.walk ⟨.new roots, []⟩ queue
  return g.closeEntities gathered.set [] gathered.entities

/-- The declarations that are reachable from the roots, of which at least one must be
declared. -/
def reachable (roots : List Text) : Except Error ReachableSet :=
  ((g.reach roots).outcome []).1

def danglingRoots (roots : List Text) : List Finding :=
  ((g.reach roots).outcome []).2

end Graph
end Doctype
