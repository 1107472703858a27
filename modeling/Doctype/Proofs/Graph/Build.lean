import Doctype.Proofs.Graph.Declared
import Doctype.Proofs.Graph.Keyed

/-!
The graph that is built of events is the one that they declare (`Graph.build_declarative`).
What is seen of a graph under one name is followed through the two passes: a step lemma says
what one event does to it, and one of three run lemmas (`Graph.foldl_last`,
`Graph.foldl_first`, `Graph.foldl_append`) what a list of events does. Attribute lists leave
everything but the attributes alone, so the graph in which default values are normalized is as
good as the finished one.
-/

namespace Doctype.Graph

/-! ### Runs -/

section Runs

variable {σ ε β : Type} {step : σ → ε → σ}

/-- If what a step selects replaces what is seen, the last thing that a run selects does. -/
theorem foldl_last (view : σ → Option β) {sel : ε → Option β}
    (hstep : ∀ s e, view (step s e) = (sel e).or (view s)) (es : List ε) (s : σ) :
    view (es.foldl step s) = (es.filterMap sel).getLast?.or (view s) := by
  induction es generalizing s with
  | nil => rfl
  | cons e es ih =>
      rw [List.foldl_cons, ih, hstep, ← Option.or_assoc, List.filterMap_cons]
      -- what the first step selects is the last thing only if nothing is selected behind it
      cases sel e with
      | none => simp
      | some a => cases h : es.filterMap sel <;> simp [List.getLast?_cons]

/-- If what a step selects is seen only where nothing was, the first thing that a run selects
is. -/
theorem foldl_first (view : σ → Option β) {sel : ε → Option β}
    (hstep : ∀ s e, view (step s e) = (view s).or (sel e)) (es : List ε) (s : σ) :
    view (es.foldl step s) = (view s).or (es.filterMap sel).head? := by
  induction es generalizing s with
  | nil => simp
  | cons e es ih =>
      rw [List.foldl_cons, ih, hstep, Option.or_assoc, List.filterMap_cons]
      cases sel e <;> simp

/-- If a step adds what it selects at the end, so does a run. -/
theorem foldl_append (view : σ → List β) {sel : ε → List β}
    (hstep : ∀ s e, view (step s e) = view s ++ sel e) (es : List ε) (s : σ) :
    view (es.foldl step s) = view s ++ es.flatMap sel := by
  induction es generalizing s with
  | nil => simp
  | cons e es ih => rw [List.foldl_cons, ih, hstep, List.flatMap_cons, List.append_assoc]

end Runs

theorem filterMap_zipIdx {β : Type} (f : Event → Option β) (events : List Event) (i : Nat) :
    (events.zipIdx i).filterMap (fun e => f e.1) = events.filterMap f := by
  conv_rhs => rw [← List.zipIdx_map_fst i events, List.filterMap_map]
  rfl

theorem flatMap_zipIdx {β : Type} (f : Event → List β) (events : List Event) (i : Nat) :
    (events.zipIdx i).flatMap (fun e => f e.1) = events.flatMap f := by
  conv_rhs => rw [← List.zipIdx_map_fst i events, List.flatMap_map]

end Doctype.Graph

namespace Doctype

variable {g : Graph} {limits : Limits} {b : Built}

/-! ### Single declarations -/

theorem Element.declare_eq (name raw : Text) (order : Nat) :
    Element.declare limits name raw order =
      (⟨name, .ofRaw limits.contentModelDepth raw, order⟩,
        (Event.element name raw).findings limits) := by
  simp only [Element.declare, Content.Spec.parseFor, Content.Spec.ofRaw, Event.findings]
  cases Content.Spec.parse limits.contentModelDepth raw <;> rfl

/-- An entity is declared as the raw definition says, or it is found fault with. -/
theorem Entity.declare_cases (limits : Limits) (scope : Scope) (name raw : Text)
    (order : Nat) :
    (∃ d, Entity.Definition.ofRaw? scope raw = some d ∧
      Entity.declare scope name raw order = .ok ⟨name, scope, d, order⟩ ∧
      (Event.entity scope name raw).findings limits = []) ∨
    ∃ fault, Entity.Definition.ofRaw? scope raw = none ∧
      Entity.declare scope name raw order = .error fault ∧
      (Event.entity scope name raw).findings limits = [.entity scope name fault] := by
  simp only [Entity.Definition.ofRaw?, Entity.declare, Event.findings]
  cases Entity.Definition.parse raw with
  | error e => exact .inr ⟨_, rfl, rfl, rfl⟩
  | ok d =>
      cases d with
      | literal value => exact .inl ⟨_, rfl, rfl, rfl⟩
      | external id notationName =>
          cases notationName with
          | none => exact .inl ⟨_, rfl, by simp, rfl⟩
          | some m =>
              cases scope with
              | general => exact .inl ⟨_, rfl, rfl, rfl⟩
              | parameter => exact .inr ⟨_, rfl, rfl, rfl⟩

theorem Attribute.declare_eq (element : Text) (order : Nat) (d : Attribute.Definition) :
    Attribute.declare g limits element order d =
      ((d.normalized? g limits).map fun (kind, default, references) =>
        ⟨element, d.name, kind, default, references, order⟩, d.findings g limits element) := by
  obtain ⟨name, kind, default⟩ := d
  unfold Attribute.declare Attribute.Definition.normalized? Attribute.Definition.findings
  cases default with
  | required => rfl
  | implied => rfl
  | fixed raw =>
      dsimp only [Attribute.Default.value?]
      cases Attribute.Value.normalize g limits raw kind.isTokenized <;> rfl
  | plain raw =>
      dsimp only [Attribute.Default.value?]
      cases Attribute.Value.normalize g limits raw kind.isTokenized <;> rfl

/-! ### Events that are not attribute lists -/

namespace Graph

theorem exists_entities_addEvent (limits : Limits) (b : Built) (scope : Scope)
    (name raw : Text) (order : Nat) :
    ∃ general parameter, (addEvent limits b (.entity scope name raw, order)).graph =
      { b.graph with generalEntities := general, parameterEntities := parameter } := by
  simp only [addEvent]
  cases Entity.declare scope name raw order with
  | error fault => exact ⟨_, _, rfl⟩
  | ok d => exact ⟨_, _, insertEntity_eq d⟩

theorem exists_notations_addEvent (limits : Limits) (b : Built) (name raw : Text)
    (order : Nat) :
    ∃ notations, (addEvent limits b (.notationType name raw, order)).graph =
      { b.graph with notations := notations } := by
  simp only [addEvent]
  cases ExternalId.ofNotation raw <;> exact ⟨_, rfl⟩

theorem content_addEvent (n : Text) (b : Built) (e : Event × Nat) :
    ((addEvent limits b e).graph.element? n).map (·.content) =
      ((e.1.contentModel? n).map (.ofRaw limits.contentModelDepth)).or
        ((b.graph.element? n).map (·.content)) := by
  obtain ⟨e, order⟩ := e
  cases e with
  | element name raw =>
      simp only [addEvent, Element.declare_eq, element?_insertElement, Event.contentModel?]
      split
      · cases b.graph.element? n <;> rfl
      · rfl
  | entity scope name raw =>
      obtain ⟨_, _, hframe⟩ := exists_entities_addEvent limits b scope name raw order
      rw [hframe]
      rfl
  | «notationType» name raw =>
      obtain ⟨_, hframe⟩ := exists_notations_addEvent limits b name raw order
      rw [hframe]
      rfl
  | _ => rfl

theorem definition_addEvent (s : Scope) (n : Text) (b : Built) (e : Event × Nat) :
    ((addEvent limits b e).graph.entity? s n).map (·.definition) =
      ((b.graph.entity? s n).map (·.definition)).or (e.1.entityDefinition? s n) := by
  obtain ⟨e, order⟩ := e
  cases e with
  | entity scope name raw =>
      rcases Entity.declare_cases limits scope name raw order
        with ⟨d, hd, hok, -⟩ | ⟨fault, hd, hf, -⟩
      · simp only [addEvent, hok, entity?_insertEntity, Event.entityDefinition?]
        split
        · next hkey =>
          obtain ⟨rfl, rfl⟩ := hkey
          cases b.graph.entity? scope name <;> simp [hd]
        · exact Option.or_none.symm
      · simp only [addEvent, hf, Event.entityDefinition?]
        split
        · next hkey => simp [← hkey.1, hd]
        · exact Option.or_none.symm
  | «notationType» name raw =>
      obtain ⟨_, hframe⟩ := exists_notations_addEvent limits b name raw order
      rw [hframe]
      cases s <;> exact Option.or_none.symm
  | _ => cases s <;> exact Option.or_none.symm

theorem id_addEvent (n : Text) (b : Built) (e : Event × Nat) :
    ((addEvent limits b e).graph.notationType? n).map (·.id) =
      (e.1.externalId? n).or ((b.graph.notationType? n).map (·.id)) := by
  obtain ⟨e, order⟩ := e
  cases e with
  | entity scope name raw =>
      obtain ⟨_, _, hframe⟩ := exists_entities_addEvent limits b scope name raw order
      rw [hframe]
      rfl
  | «notationType» name raw =>
      simp only [addEvent, Event.externalId?]
      cases ExternalId.ofNotation raw with
      | error e => simp [Except.toOption]
      | ok id =>
          simp only [notationType?_insertNotation]
          split
          · cases b.graph.notationType? n <;> rfl
          · rfl
  | _ => rfl

theorem attributes_addEvent (b : Built) (e : Event × Nat) :
    (addEvent limits b e).graph.attributes = b.graph.attributes := by
  obtain ⟨e, order⟩ := e
  cases e with
  | entity scope name raw =>
      obtain ⟨_, _, hframe⟩ := exists_entities_addEvent limits b scope name raw order
      rw [hframe]
  | «notationType» name raw =>
      obtain ⟨_, hframe⟩ := exists_notations_addEvent limits b name raw order
      rw [hframe]
  | _ => rfl

/-- A comment or an instruction is added at the end, and nothing else adds one. -/
theorem remarks_addEvent (b : Built) (e : Event × Nat) :
    (addEvent limits b e).graph.comments = b.graph.comments ++ (Event.comment? e).toList ∧
      (addEvent limits b e).graph.instructions =
        b.graph.instructions ++ (Event.instruction? e).toList := by
  obtain ⟨e, order⟩ := e
  cases e with
  | entity scope name raw =>
      obtain ⟨_, _, hframe⟩ := exists_entities_addEvent limits b scope name raw order
      rw [hframe]
      exact ⟨(List.append_nil _).symm, (List.append_nil _).symm⟩
  | «notationType» name raw =>
      obtain ⟨_, hframe⟩ := exists_notations_addEvent limits b name raw order
      rw [hframe]
      exact ⟨(List.append_nil _).symm, (List.append_nil _).symm⟩
  | comment text => exact ⟨rfl, (List.append_nil _).symm⟩
  | instruction target data => exact ⟨(List.append_nil _).symm, rfl⟩
  | _ => exact ⟨(List.append_nil _).symm, (List.append_nil _).symm⟩

theorem findings_addEvent (b : Built) (e : Event × Nat) :
    (addEvent limits b e).findings = b.findings ++ e.1.findings limits := by
  obtain ⟨e, order⟩ := e
  cases e with
  | element name raw => simp only [addEvent, Element.declare_eq]
  | entity scope name raw =>
      rcases Entity.declare_cases limits scope name raw order
        with ⟨d, -, hok, hd⟩ | ⟨fault, -, hf, hd⟩
      · simp [addEvent, hok, hd]
      · simp [addEvent, hf, hd]
  | «notationType» name raw =>
      simp only [addEvent, Event.findings]
      cases ExternalId.ofNotation raw with
      | error e => rfl
      | ok id => exact (List.append_nil _).symm
  | _ => exact (List.append_nil _).symm

/-! ### Attribute lists -/

theorem exists_attributes_foldl (as : List Attribute) (g : Graph) :
    ∃ attributes positions, as.foldl (fun g a => (g.insertAttribute a).2) g =
      { g with attributes := attributes, positions := positions } := by
  induction as generalizing g with
  | nil => exact ⟨_, _, rfl⟩
  | cons a as ih => exact ih _

theorem exists_attributes_addAttributes (limits : Limits) (b : Built) (e : Event × Nat) :
    ∃ attributes positions, (addAttributes limits b e).graph =
      { b.graph with attributes := attributes, positions := positions } := by
  obtain ⟨e, order⟩ := e
  cases e with
  | attributeList owner body =>
      simp only [addAttributes]
      cases Attribute.Definition.parseAll body with
      | error e => exact ⟨_, _, rfl⟩
      | ok ds => exact exists_attributes_foldl _ _
  | _ => exact ⟨_, _, rfl⟩

end Graph

/-! ### Default values -/

/-- Whether two graphs give the same definition to every general entity. -/
def Graph.SameDefinitions (g g' : Graph) : Prop :=
  ∀ n, (g.entity? .general n).map (·.definition) = (g'.entity? .general n).map (·.definition)

theorem Graph.SameDefinitions.of_eq {g' : Graph} (h : g.generalEntities = g'.generalEntities) :
    g.SameDefinitions g' :=
  fun n => congrArg (fun es => (Table.find? Entity.name n es).map (·.definition)) h

namespace Attribute

variable {g' : Graph}

theorem Value.expandPiece_congr (h : g.SameDefinitions g') (limits : Limits) :
    Value.expandPiece g limits = Value.expandPiece g' limits := by
  funext deeper p piece
  cases piece with
  | reference n =>
      have hn := h n
      simp only [Value.expandPiece]
      cases hg : g.entity? .general n <;> cases hg' : g'.entity? .general n <;>
        simp_all only [Option.map_none, Option.map_some, Option.some.injEq, reduceCtorEq]
  | _ => rfl

theorem Value.expand_congr (h : g.SameDefinitions g') (limits : Limits) (room : Nat) :
    Value.expand g limits room = Value.expand g' limits room := by
  have hpiece := Value.expandPiece_congr h limits
  induction room with
  | zero => funext t p; simp only [Value.expand, hpiece]
  | succ room ih => funext t p; simp only [Value.expand, hpiece, ih]

theorem Value.normalize_congr (h : g.SameDefinitions g') (limits : Limits) :
    Value.normalize g limits = Value.normalize g' limits := by
  funext raw isTokenized
  simp only [Value.normalize, Value.expand_congr h]

theorem Definition.normalized?_congr (h : g.SameDefinitions g') (limits : Limits) :
    Definition.normalized? g limits = Definition.normalized? g' limits := by
  funext d
  simp only [Definition.normalized?, Value.normalize_congr h]

theorem Definition.findings_congr (h : g.SameDefinitions g') (limits : Limits) :
    Definition.findings g limits = Definition.findings g' limits := by
  funext element d
  simp only [Definition.findings, Value.normalize_congr h]

end Attribute

theorem Event.attributeFindings_congr {g' : Graph} (h : g.SameDefinitions g')
    (limits : Limits) (e : Event) :
    e.attributeFindings g limits = e.attributeFindings g' limits := by
  cases e <;> simp only [Event.attributeFindings, Attribute.Definition.findings_congr h]

namespace Graph

def saysOf? (element n : Text) (a : Attribute) :
    Option (Attribute.Kind × Attribute.Default × List Text) :=
  if attributeKey a = (element, n) then some (a.kind, a.default, a.references) else none

/-- What the declared attributes of a list of definitions say of an attribute. -/
theorem filterMap_saysOf? (element n owner : Text) (order : Nat)
    (ds : List Attribute.Definition) :
    ((ds.map (Attribute.declare g limits owner order)).filterMap (·.1)).filterMap
      (saysOf? element n) =
      if owner = element then (ds.filter (·.name = n)).filterMap (·.normalized? g limits)
        else [] := by
  induction ds with
  | nil => simp
  | cons d ds ih =>
      rw [List.map_cons, List.filterMap_cons, Attribute.declare_eq, List.filter_cons]
      cases hd : d.normalized? g limits with
      | none =>
          simp only [Option.map_none, ih]
          split
          · split <;> simp [hd]
          · rfl
      | some v =>
          simp only [Option.map_some, List.filterMap_cons, ih]
          by_cases howner : owner = element
          · by_cases hname : d.name = n <;> simp [saysOf?, attributeKey, howner, hname, hd]
          · simp [saysOf?, attributeKey, howner]

theorem attribute_foldl (element n : Text) (as : List Attribute) (g : Graph) :
    ((as.foldl (fun g a => (g.insertAttribute a).2) g).attribute? element n).map
        (fun a => (a.kind, a.default, a.references)) =
      (as.filterMap (saysOf? element n)).getLast?.or
        ((g.attribute? element n).map fun a => (a.kind, a.default, a.references)) := by
  let view (g : Graph) :=
    (g.attribute? element n).map fun a => (a.kind, a.default, a.references)
  refine foldl_last view (fun g a => ?_) as g
  simp only [view, saysOf?]
  rw [attribute?_insertAttribute]
  split
  · cases g.attribute? element n <;> rfl
  · rfl

theorem attribute_addAttributes (element n : Text) (b : Built) (e : Event × Nat) :
    ((addAttributes limits b e).graph.attribute? element n).map
        (fun a => (a.kind, a.default, a.references)) =
      (((e.1.attributeDefinitions element).filter (·.name = n)).filterMap
        (·.normalized? b.graph limits)).getLast?.or
        ((b.graph.attribute? element n).map fun a => (a.kind, a.default, a.references)) := by
  obtain ⟨e, order⟩ := e
  cases e with
  | attributeList owner body =>
      simp only [addAttributes, Event.attributeDefinitions]
      cases Attribute.Definition.parseAll body with
      | error e => simp [Except.toOption]
      | ok ds =>
          rw [attribute_foldl, filterMap_saysOf?]
          split <;> rfl
  | _ => rfl

theorem findings_addAttributes (b : Built) (e : Event × Nat) :
    (addAttributes limits b e).findings =
      b.findings ++ e.1.attributeFindings b.graph limits := by
  obtain ⟨e, order⟩ := e
  cases e with
  | attributeList owner body =>
      simp only [addAttributes, Event.attributeFindings]
      cases Attribute.Definition.parseAll body with
      | error e => rfl
      | ok ds => simp [List.flatMap_map, Attribute.declare_eq]
  | _ => exact (List.append_nil _).symm

/-! ### Lists of events -/

def beforeAttributes (limits : Limits) (events : List Event) : Built :=
  (events.zipIdx 1).foldl (addEvent limits) ⟨.empty, []⟩

theorem exists_attributes_run (limits : Limits) (es : List (Event × Nat)) (b : Built) :
    ∃ attributes positions, (es.foldl (addAttributes limits) b).graph =
      { b.graph with attributes := attributes, positions := positions } := by
  induction es generalizing b with
  | nil => exact ⟨_, _, rfl⟩
  | cons e es ih =>
      obtain ⟨_, _, hstep⟩ := exists_attributes_addAttributes limits b e
      obtain ⟨attributes, positions, hrun⟩ := ih (addAttributes limits b e)
      exact ⟨attributes, positions, by rw [List.foldl_cons, hrun, hstep]⟩

theorem exists_attributes_build (limits : Limits) (events : List Event) :
    ∃ attributes positions, (build limits events).graph =
      { (beforeAttributes limits events).graph with attributes := attributes, positions :=
  positions } :=
  exists_attributes_run limits (events.zipIdx 1) (beforeAttributes limits events)

theorem Inserted.addEvent {b : Built} (h : b.graph.Inserted) (limits : Limits)
    (e : Event × Nat) : (addEvent limits b e).graph.Inserted := by
  obtain ⟨e, order⟩ := e
  cases e with
  | element name raw => exact .insertElement _ h
  | attributeList owner body => exact h
  | entity scope name raw =>
      simp only [Graph.addEvent]
      cases Entity.declare scope name raw order with
      | error fault => exact h
      | ok d => exact .insertEntity d h
  | «notationType» name raw =>
      simp only [Graph.addEvent]
      cases ExternalId.ofNotation raw with
      | error e => exact h
      | ok id => exact .insertNotation _ h
  | comment text => exact .pushComment _ h
  | instruction target data => exact .pushInstruction _ h

theorem Inserted.addAttributes {b : Built} (h : b.graph.Inserted) (limits : Limits)
    (e : Event × Nat) : (addAttributes limits b e).graph.Inserted := by
  obtain ⟨e, order⟩ := e
  cases e with
  | attributeList owner body =>
      simp only [Graph.addAttributes]
      cases Attribute.Definition.parseAll body with
      | error e => exact h
      | ok ds => exact List.foldlRecOn _ _ h fun g hg a _ => .insertAttribute a hg
  | _ => exact h

theorem inserted_build (limits : Limits) (events : List Event) :
    (build limits events).graph.Inserted := by
  have hbefore : (beforeAttributes limits events).graph.Inserted :=
    List.foldlRecOn (motive := fun b : Built => b.graph.Inserted) _ _ .empty
      fun b hb e _ => hb.addEvent limits e
  exact List.foldlRecOn (motive := fun b : Built => b.graph.Inserted) _ _ hbefore
    fun b hb e _ => hb.addAttributes limits e

theorem content_build (limits : Limits) (events : List Event) (n : Text) :
    ((build limits events).graph.element? n).map (·.content) =
      (events.filterMap (·.contentModel? n)).getLast?.map
        (.ofRaw limits.contentModelDepth) := by
  obtain ⟨_, _, hframe⟩ := exists_attributes_build limits events
  let view (b : Built) := (b.graph.element? n).map (·.content)
  let sel (e : Event) := (e.contentModel? n).map (Content.Spec.ofRaw limits.contentModelDepth)
  calc
    _ = view (beforeAttributes limits events) := by rw [hframe]; rfl
    _ = ((events.zipIdx 1).filterMap fun e => sel e.1).getLast?.or none :=
      foldl_last view (content_addEvent n) _ _
    _ = _ := by rw [Option.or_none, filterMap_zipIdx, ← List.map_filterMap, List.getLast?_map]

theorem definition_build (limits : Limits) (events : List Event) (s : Scope) (n : Text) :
    ((build limits events).graph.entity? s n).map (·.definition) =
      (events.filterMap (·.entityDefinition? s n)).head? := by
  obtain ⟨_, _, hframe⟩ := exists_attributes_build limits events
  let view (b : Built) := (b.graph.entity? s n).map (·.definition)
  calc
    _ = view (beforeAttributes limits events) := by rw [hframe]; cases s <;> rfl
    _ = none.or ((events.zipIdx 1).filterMap fun e => e.1.entityDefinition? s n).head? := by
      have hempty : view ⟨.empty, []⟩ = none := by cases s <;> rfl
      rw [← hempty]
      exact foldl_first view (definition_addEvent s n) _ _
    _ = _ := by rw [Option.none_or, filterMap_zipIdx]

theorem id_build (limits : Limits) (events : List Event) (n : Text) :
    ((build limits events).graph.notationType? n).map (·.id) =
      (events.filterMap (·.externalId? n)).getLast? := by
  obtain ⟨_, _, hframe⟩ := exists_attributes_build limits events
  let view (b : Built) := (b.graph.notationType? n).map (·.id)
  calc
    _ = view (beforeAttributes limits events) := by rw [hframe]; rfl
    _ = ((events.zipIdx 1).filterMap fun e => e.1.externalId? n).getLast?.or none :=
      foldl_last view (id_addEvent n) _ _
    _ = _ := by rw [Option.or_none, filterMap_zipIdx]

theorem comments_build (limits : Limits) (events : List Event) :
    (build limits events).graph.comments = (events.zipIdx 1).filterMap Event.comment? := by
  obtain ⟨_, _, hframe⟩ := exists_attributes_build limits events
  rw [hframe, List.filterMap_eq_flatMap_toList]
  exact foldl_append (fun b : Built => b.graph.comments)
    (fun b e => (remarks_addEvent b e).1) _ _

theorem instructions_build (limits : Limits) (events : List Event) :
    (build limits events).graph.instructions =
      (events.zipIdx 1).filterMap Event.instruction? := by
  obtain ⟨_, _, hframe⟩ := exists_attributes_build limits events
  rw [hframe, List.filterMap_eq_flatMap_toList]
  exact foldl_append (fun b : Built => b.graph.instructions)
    (fun b e => (remarks_addEvent b e).2) _ _

theorem attributes_run (es : List (Event × Nat)) (b : Built) :
    (es.foldl (addEvent limits) b).graph.attributes = b.graph.attributes := by
  induction es generalizing b with
  | nil => rfl
  | cons e es ih => rw [List.foldl_cons, ih, attributes_addEvent]

theorem attribute_run (limits : Limits) (element n : Text) {G : Graph}
    (es : List (Event × Nat)) (b : Built) (hG : b.graph.generalEntities = G.generalEntities) :
    ((es.foldl (addAttributes limits) b).graph.attribute? element n).map
        (fun a => (a.kind, a.default, a.references)) =
      (es.flatMap fun e => ((e.1.attributeDefinitions element).filter (·.name = n)).filterMap
        (·.normalized? G limits)).getLast?.or
        ((b.graph.attribute? element n).map fun a => (a.kind, a.default, a.references)) := by
  induction es generalizing b with
  | nil => rfl
  | cons e es ih =>
      -- the general entities are those of `G` before and behind the step
      obtain ⟨_, _, hframe⟩ := exists_attributes_addAttributes limits b e
      rw [List.foldl_cons, ih _ (by rw [hframe]; exact hG), attribute_addAttributes,
        Attribute.Definition.normalized?_congr (.of_eq hG), List.flatMap_cons,
        List.getLast?_append, Option.or_assoc]

theorem findings_run (limits : Limits) {G : Graph} (es : List (Event × Nat)) (b : Built)
    (hG : b.graph.generalEntities = G.generalEntities) :
    (es.foldl (addAttributes limits) b).findings =
      b.findings ++ es.flatMap fun e => e.1.attributeFindings G limits := by
  induction es generalizing b with
  | nil => simp
  | cons e es ih =>
      obtain ⟨_, _, hframe⟩ := exists_attributes_addAttributes limits b e
      rw [List.foldl_cons, ih _ (by rw [hframe]; exact hG), findings_addAttributes,
        Event.attributeFindings_congr (.of_eq hG), List.flatMap_cons, List.append_assoc]

theorem generalEntities_build (limits : Limits) (events : List Event) :
    (beforeAttributes limits events).graph.generalEntities =
      (build limits events).graph.generalEntities := by
  obtain ⟨_, _, hframe⟩ := exists_attributes_build limits events
  rw [hframe]

/-- What is declared of an attribute is what the last definition says whose value has a normal
form. -/
theorem attribute_build (limits : Limits) (events : List Event) (element n : Text) :
    ((build limits events).graph.attribute? element n).map
        (fun a => (a.kind, a.default, a.references)) =
      (((events.flatMap (·.attributeDefinitions element)).filter (·.name = n)).filterMap
        (·.normalized? (build limits events).graph limits)).getLast? := by
  have hnone : (beforeAttributes limits events).graph.attribute? element n = none := by
    unfold attribute? beforeAttributes
    rw [attributes_run]
    rfl
  let sel (e : Event) := ((e.attributeDefinitions element).filter (·.name = n)).filterMap
    (·.normalized? (build limits events).graph limits)
  calc
    _ = ((events.zipIdx 1).flatMap fun e => sel e.1).getLast?.or none := by
      have hrun := attribute_run limits element n (events.zipIdx 1) _
        (generalEntities_build limits events)
      rwa [hnone] at hrun
    _ = _ := by rw [Option.or_none, flatMap_zipIdx, List.filter_flatMap,
      List.filterMap_flatMap]

theorem findings_build (limits : Limits) (events : List Event) :
    (build limits events).findings =
      events.flatMap (·.findings limits) ++
        events.flatMap (·.attributeFindings (build limits events).graph limits) ++
        (build limits events).graph.duplicateIds := by
  have hbefore : (beforeAttributes limits events).findings =
      events.flatMap (·.findings limits) := by
    rw [← flatMap_zipIdx _ events 1]
    exact foldl_append (fun b : Built => b.findings) findings_addEvent _ _
  have hrun := findings_run limits (events.zipIdx 1) _ (generalEntities_build limits events)
  rw [flatMap_zipIdx, hbefore] at hrun
  exact congrArg (· ++ (build limits events).graph.duplicateIds) hrun

/-! ### The declarative meaning -/

/-- The graph that events declare, whatever their order and the limits. It has no key twice.
The last content model of an element counts, the first accepted definition of an entity, the
last identifier of a notation that can be read, and the last definition of an attribute whose
value has a normal form in the finished graph. Comments and instructions are those of the
events. What cannot be read is found fault with once, attribute lists after everything else,
and the elements with more than one `ID` attribute at the end. -/
theorem build_declarative (limits : Limits) (events : List Event) :
    let g := (build limits events).graph
    g.keys.Nodup ∧
    (∀ n, (g.element? n).map (·.content) =
      (events.filterMap (·.contentModel? n)).getLast?.map (.ofRaw limits.contentModelDepth)) ∧
    (∀ s n, (g.entity? s n).map (·.definition) =
      (events.filterMap (·.entityDefinition? s n)).head?) ∧
    (∀ n, (g.notationType? n).map (·.id) = (events.filterMap (·.externalId? n)).getLast?) ∧
    (∀ e n, (g.attribute? e n).map (fun a => (a.kind, a.default, a.references)) =
      (((events.flatMap (·.attributeDefinitions e)).filter (·.name = n)).filterMap
        (·.normalized? g limits)).getLast?) ∧
    g.comments = (events.zipIdx 1).filterMap Event.comment? ∧
    g.instructions = (events.zipIdx 1).filterMap Event.instruction? ∧
    (build limits events).findings =
      events.flatMap (·.findings limits) ++ events.flatMap (·.attributeFindings g limits) ++
        g.duplicateIds :=
  ⟨(inserted_build limits events).nodup_keys, content_build limits events,
    definition_build limits events,
    id_build limits events, attribute_build limits events, comments_build limits events,
    instructions_build limits events, findings_build limits events⟩

end Graph
end Doctype
