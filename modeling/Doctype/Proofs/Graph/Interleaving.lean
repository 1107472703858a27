import Doctype.Proofs.Graph.Build

/-!
How declarations of different kinds interleave does not count (`Graph.build_interleaving`).
Apart from the places that declarations have among the events, what is built is a fold in which
the events of each kind see only what events of their own kind have done (`view_foldl_ofKind`);
attribute lists also see the general entities, which are complete by then.
-/

namespace Doctype

/-! ### Kinds of events -/

inductive Event.Kind
  | element
  | attributeList
  | entity (scope : Scope)
  | notationType
  | comment
  | instruction
  deriving DecidableEq

namespace Event

def kind : Event → Kind
  | element _ _ => .element
  | attributeList _ _ => .attributeList
  | entity scope _ _ => .entity scope
  | notationType _ _ => .notationType
  | comment _ => .comment
  | instruction _ _ => .instruction

def ofKind (k : Kind) (events : List Event) : List Event :=
  events.filter (·.kind = k)

/-- Two lists of events that differ at most in how events of different kinds interleave. -/
def SameStreams (events events' : List Event) : Prop :=
  ∀ k, ofKind k events = ofKind k events'

theorem SameStreams.perm {events events' : List Event} (h : SameStreams events events') :
    events.Perm events' := by
  rw [List.perm_iff_count]
  intro e
  have hcount (es : List Event) : es.count e = (ofKind e.kind es).count e :=
    (List.count_filter (by simp)).symm
  rw [hcount events, hcount events', h e.kind]

end Event

/-! ### Graphs without places -/

namespace Graph

variable {g g' : Graph} {limits : Limits}

/-- The graph without the places of its declarations among the events: each is zero. -/
def eraseOrder (g : Graph) : Graph where
  elements := g.elements.map ({ · with order := 0 })
  attributes := g.attributes.map ({ · with order := 0 })
  positions := g.positions
  generalEntities := g.generalEntities.map ({ · with order := 0 })
  parameterEntities := g.parameterEntities.map ({ · with order := 0 })
  notations := g.notations.map ({ · with order := 0 })
  comments := g.comments.map ({ · with order := 0 })
  instructions := g.instructions.map ({ · with order := 0 })

theorem eraseOrder_insertElement (d : Element) : (g.insertElement d).2.eraseOrder =
    (g.eraseOrder.insertElement { d with order := 0 }).2 := by
  simp only [insertElement, eraseOrder, mk.injEq, and_true]
  exact Table.map_put (fun _ => by rfl) (fun _ _ => by rfl) d g.elements

theorem eraseOrder_insertAttribute (d : Attribute) : (g.insertAttribute d).2.eraseOrder =
    (g.eraseOrder.insertAttribute { d with order := 0 }).2 := by
  have hfind : g.eraseOrder.attribute? d.element d.name =
      (g.attribute? d.element d.name).map ({ · with order := 0 }) :=
    Table.find?_map (fun _ => by rfl) _ g.attributes
  simp only [insertAttribute, hfind, Option.isNone_map]
  simp only [eraseOrder, mk.injEq, List.length_map, and_true, true_and]
  exact Table.map_put (fun _ => by rfl) (fun _ _ => by rfl) d g.attributes

theorem eraseOrder_insertNotation (d : NotationType) : (g.insertNotation d).2.eraseOrder =
    (g.eraseOrder.insertNotation { d with order := 0 }).2 := by
  simp only [insertNotation, eraseOrder, mk.injEq, and_true, true_and]
  exact Table.map_put (fun _ => by rfl) (fun _ _ => by rfl) d g.notations

theorem eraseOrder_insertEntity (d : Entity) : (g.insertEntity d).2.eraseOrder =
    (g.eraseOrder.insertEntity { d with order := 0 }).2 := by
  have hput (es : List Entity) : (Table.putNew Entity.name d es).map ({ · with order := 0 }) =
      Table.putNew Entity.name { d with order := 0 } (es.map ({ · with order := 0 })) :=
    Table.map_putNew (fun _ => by rfl) d es
  unfold insertEntity
  cases hd : d.scope <;> simp only [eraseOrder, hput, hd]

theorem sameDefinitions_eraseOrder (g : Graph) : g.SameDefinitions g.eraseOrder := by
  intro n
  have hfind : g.eraseOrder.entity? .general n =
      (g.entity? .general n).map ({ · with order := 0 }) :=
    Table.find?_map (fun _ => by rfl) n g.generalEntities
  rw [hfind, Option.map_map]
  rfl

theorem SameDefinitions.of_eraseOrder (h : g.eraseOrder = g'.eraseOrder) :
    g.SameDefinitions g' :=
  fun n => (sameDefinitions_eraseOrder g n).trans (h ▸ (sameDefinitions_eraseOrder g' n).symm)

theorem duplicateIds_eraseOrder (g : Graph) : g.eraseOrder.duplicateIds = g.duplicateIds := by
  simp only [duplicateIds, eraseOrder, List.foldl_map]
  rfl

/-! ### Steps without places -/

def enter (limits : Limits) (g : Graph) (e : Event) : Graph :=
  (addEvent limits ⟨g, []⟩ (e, 0)).graph

def enterAttributes (limits : Limits) (g : Graph) (e : Event) : Graph :=
  (addAttributes limits ⟨g, []⟩ (e, 0)).graph

theorem eraseOrder_addEvent (b : Built) (e : Event × Nat) :
    (addEvent limits b e).graph.eraseOrder = enter limits b.graph.eraseOrder e.1 := by
  obtain ⟨e, order⟩ := e
  cases e with
  | element name raw =>
      simp only [addEvent, enter, Element.declare_eq, eraseOrder_insertElement]
  | attributeList owner body => rfl
  | entity scope name raw =>
      simp only [addEvent, enter, Entity.declare]
      cases Entity.Definition.parse raw with
      | error e => rfl
      | ok d =>
          cases d with
          | literal value => exact eraseOrder_insertEntity _
          | external id notationName =>
              by_cases hn : scope = .parameter ∧ notationName.isSome
              · simp only [hn, and_self, if_true]
              · simp only [hn, if_false]
                exact eraseOrder_insertEntity _
  | «notationType» name raw =>
      simp only [addEvent, enter]
      cases ExternalId.ofNotation raw with
      | error e => rfl
      | ok id => exact eraseOrder_insertNotation _
  | comment text => simp [addEvent, enter, pushComment, eraseOrder]
  | instruction target data => simp [addEvent, enter, pushInstruction, eraseOrder]

theorem eraseOrder_insertAttributes (as : List Attribute) (g : Graph) :
    (as.foldl (fun g a => (g.insertAttribute a).2) g).eraseOrder =
      (as.map ({ · with order := 0 })).foldl (fun g a => (g.insertAttribute a).2)
        g.eraseOrder := by
  induction as generalizing g with
  | nil => rfl
  | cons a as ih =>
      rw [List.foldl_cons, ih, eraseOrder_insertAttribute, List.map_cons, List.foldl_cons]

theorem declared_eraseOrder (owner : Text) (order : Nat) (ds : List Attribute.Definition) :
    ((ds.map (Attribute.declare g limits owner order)).filterMap (·.1)).map
      ({ · with order := 0 }) =
      (ds.map (Attribute.declare g.eraseOrder limits owner 0)).filterMap (·.1) := by
  simp only [List.filterMap_map, List.map_filterMap, Function.comp_def, Attribute.declare_eq,
    Attribute.Definition.normalized?_congr (sameDefinitions_eraseOrder g), Option.map_map]

theorem eraseOrder_addAttributes (b : Built) (e : Event × Nat) :
    (addAttributes limits b e).graph.eraseOrder =
      enterAttributes limits b.graph.eraseOrder e.1 := by
  obtain ⟨e, order⟩ := e
  cases e with
  | attributeList owner body =>
      simp only [addAttributes, enterAttributes]
      cases Attribute.Definition.parseAll body with
      | error e => rfl
      | ok ds => simp only [eraseOrder_insertAttributes, declared_eraseOrder]
  | _ => rfl

/-! ### Runs without places -/

theorem eraseOrder_foldl {add : Built → Event × Nat → Built} {step : Graph → Event → Graph}
    (hstep : ∀ b e, (add b e).graph.eraseOrder = step b.graph.eraseOrder e.1)
    (es : List Event) (i : Nat) (b : Built) :
    ((es.zipIdx i).foldl add b).graph.eraseOrder = es.foldl step b.graph.eraseOrder := by
  induction es generalizing i b with
  | nil => rfl
  | cons e es ih => rw [List.zipIdx_cons, List.foldl_cons, ih, hstep, List.foldl_cons]

/-- If only the events of one kind change what is seen, and what they make of it depends on
nothing else, a run shows what the events of that kind alone show. -/
theorem view_foldl_ofKind {β : Type} (view : Graph → β) (k : Event.Kind)
    (step : Graph → Event → Graph) (hother : ∀ g e, e.kind ≠ k → view (step g e) = view g)
    (hsame : ∀ g g' e, e.kind = k → view g = view g' → view (step g e) = view (step g' e))
    (es : List Event) (h : view g = view g') :
    view (es.foldl step g) = view ((Event.ofKind k es).foldl step g') := by
  induction es generalizing g g' with
  | nil => exact h
  | cons e es ih =>
      unfold Event.ofKind at ih ⊢
      by_cases hk : e.kind = k
      · rw [List.filter_cons_of_pos (by simpa using hk)]
        exact ih (hsame g g' e hk h)
      · rw [List.filter_cons_of_neg (by simpa using hk)]
        exact ih ((hother g e hk).trans h)

theorem view_foldl_congr {β : Type} (view : Graph → β) (k : Event.Kind)
    (step : Graph → Event → Graph) (hother : ∀ g e, e.kind ≠ k → view (step g e) = view g)
    (hsame : ∀ g g' e, e.kind = k → view g = view g' → view (step g e) = view (step g' e))
    {es es' : List Event} (hes : Event.SameStreams es es') (g : Graph) :
    view (es.foldl step g) = view (es'.foldl step g) := by
  rw [view_foldl_ofKind view k step hother hsame es rfl, hes k,
    ← view_foldl_ofKind view k step hother hsame es' rfl]

/-! ### Parts of a graph -/

def part (k : Event.Kind) (g : Graph) : Graph where
  elements := if k = .element then g.elements else []
  attributes := if k = .attributeList then g.attributes else []
  positions := if k = .attributeList then g.positions else []
  generalEntities := if k = .entity .general then g.generalEntities else []
  parameterEntities := if k = .entity .parameter then g.parameterEntities else []
  notations := if k = .notationType then g.notations else []
  comments := if k = .comment then g.comments else []
  instructions := if k = .instruction then g.instructions else []

theorem eq_of_part (h : ∀ k, g.part k = g'.part k) : g = g' := by
  obtain ⟨elements, attributes, positions, general, parameter, notations, comments,
    instructions⟩ := g
  obtain ⟨elements', attributes', positions', general', parameter', notations', comments',
    instructions'⟩ := g'
  have h1 := congrArg Graph.elements (h .element)
  have h2 := congrArg Graph.attributes (h .attributeList)
  have h3 := congrArg Graph.positions (h .attributeList)
  have h4 := congrArg Graph.generalEntities (h (.entity .general))
  have h5 := congrArg Graph.parameterEntities (h (.entity .parameter))
  have h6 := congrArg Graph.notations (h .notationType)
  have h7 := congrArg Graph.comments (h .comment)
  have h8 := congrArg Graph.instructions (h .instruction)
  simp only [part, if_true] at h1 h2 h3 h4 h5 h6 h7 h8
  rw [h1, h2, h3, h4, h5, h6, h7, h8]

theorem part_enter_of_ne {e : Event} {k : Event.Kind} (hk : e.kind ≠ k) (g : Graph) :
    (enter limits g e).part k = g.part k := by
  cases e with
  | element name raw => cases k <;> first | rfl | exact absurd rfl hk
  | attributeList owner body => rfl
  | entity scope name raw =>
      simp only [enter, addEvent]
      rcases Entity.declare_cases limits scope name raw 0
        with ⟨d, -, hok, -⟩ | ⟨fault, -, hfault, -⟩
      · simp only [hok, insertEntity]
        cases scope <;> rcases k with _ | _ | ⟨_ | _⟩ | _ | _ | _ <;>
          first | rfl | exact absurd rfl hk
      · simp only [hfault]
  | «notationType» name raw =>
      simp only [enter, addEvent]
      cases ExternalId.ofNotation raw with
      | error e => rfl
      | ok id => cases k <;> first | rfl | exact absurd rfl hk
  | comment text => cases k <;> first | rfl | exact absurd rfl hk
  | instruction target data => cases k <;> first | rfl | exact absurd rfl hk

theorem part_enter (g : Graph) (e : Event) :
    (enter limits g e).part e.kind = enter limits (g.part e.kind) e := by
  cases e with
  | entity scope name raw =>
      simp only [enter, addEvent, Event.kind]
      rcases Entity.declare_cases limits scope name raw 0
        with ⟨d, -, hok, -⟩ | ⟨fault, -, hfault, -⟩
      · simp only [hok, insertEntity]
        cases scope <;> rfl
      · simp only [hfault]
  | «notationType» name raw =>
      simp only [enter, addEvent]
      cases ExternalId.ofNotation raw <;> rfl
  | _ => rfl

/-! ### The built graph -/

theorem eraseOrder_build (limits : Limits) (events : List Event) :
    (build limits events).graph.eraseOrder =
      events.foldl (enterAttributes limits) (events.foldl (enter limits) .empty) := by
  calc
    _ = events.foldl (enterAttributes limits)
      (beforeAttributes limits events).graph.eraseOrder :=
      eraseOrder_foldl eraseOrder_addAttributes events 1 _
    _ = _ := by
      rw [beforeAttributes, eraseOrder_foldl eraseOrder_addEvent events 1]
      rfl

theorem foldl_enter_congr {es es' : List Event} (h : Event.SameStreams es es')
    (limits : Limits) : es.foldl (enter limits) .empty = es'.foldl (enter limits) .empty := by
  refine eq_of_part fun k =>
    view_foldl_congr (part k) k (enter limits)
      (fun g e hk => part_enter_of_ne hk g) ?_ h .empty
  rintro g g' e rfl hpart
  rw [part_enter, hpart, part_enter]

theorem foldl_enterAttributes_congr {es es' : List Event} (h : Event.SameStreams es es')
    (limits : Limits) (g : Graph) :
    es.foldl (enterAttributes limits) g = es'.foldl (enterAttributes limits) g := by
  refine view_foldl_congr (fun g => g) .attributeList (enterAttributes limits)
    (fun g e hk => ?_) (fun g g' e _ hg => congrArg (enterAttributes limits · e) hg) h g
  cases e <;> first | rfl | exact absurd rfl hk

theorem findings_perm {es es' : List Event} (h : Event.SameStreams es es') (limits : Limits)
    (hgraph : (build limits es).graph.eraseOrder = (build limits es').graph.eraseOrder) :
    (build limits es).findings.Perm (build limits es').findings := by
  have hlists : (fun e : Event => e.attributeFindings (build limits es).graph limits) =
      fun e => e.attributeFindings (build limits es').graph limits :=
    funext (Event.attributeFindings_congr (.of_eraseOrder hgraph) limits)
  have hids : (build limits es).graph.duplicateIds =
      (build limits es').graph.duplicateIds := by
    rw [← duplicateIds_eraseOrder, hgraph, duplicateIds_eraseOrder]
  rw [findings_build, findings_build, hlists, hids]
  exact ((h.perm.flatMap_right _).append (h.perm.flatMap_right _)).append_right _

/-- Building does not depend on how declarations of different kinds interleave: if two lists of
events have the same elements, attribute lists, general entities, parameter entities,
notations, comments and instructions, each in the same order, the graphs are the same but for
the places of the declarations, and the diagnostics are the same in some order. -/
theorem build_interleaving {es es' : List Event} (h : Event.SameStreams es es')
    (limits : Limits) :
    (build limits es).graph.eraseOrder = (build limits es').graph.eraseOrder ∧
      ((build limits es).findings.map Finding.diagnostic).Perm
        ((build limits es').findings.map Finding.diagnostic) := by
  have hgraph : (build limits es).graph.eraseOrder = (build limits es').graph.eraseOrder := by
    rw [eraseOrder_build, eraseOrder_build, foldl_enter_congr h, foldl_enterAttributes_congr h]
  exact ⟨hgraph, (findings_perm h limits hgraph).map _⟩

/-- The theorem applies where an attribute list stands in front of the entities that its
default value refers to, of which the first counts, or behind them. -/
theorem build_interleaving_lateEntity :
    let list : Event := .attributeList ['p'] "a CDATA '&x;'".toList
    let first : Event := .entity .general ['x'] "'one'".toList
    let second : Event := .entity .general ['x'] "'two'".toList
    let es := [list, .comment [], first, .element ['p'] "ANY".toList, second]
    let es' := [first, second, .element ['p'] "ANY".toList, .comment [], list]
    Event.SameStreams es es' ∧
      (build .standard es).graph.eraseOrder = (build .standard es').graph.eraseOrder ∧
      ((build .standard es).findings.map Finding.diagnostic).Perm
        ((build .standard es').findings.map Finding.diagnostic) := by
  intro list first second es es'
  have hstreams : Event.SameStreams es es' := by
    rintro (_ | _ | ⟨_ | _⟩ | _ | _ | _) <;> rfl
  exact ⟨hstreams, build_interleaving hstreams .standard⟩

end Graph
end Doctype
