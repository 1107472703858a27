import Doctype.Proofs.Xml.Reading

/-!
What a document shows of its graph (`Document.view`), and that its tags determine it
(`Document.view_eq_of_tags_eq`). The tags of every part of a document determine what is shown
of that part (`Determines`), so that the parts can be told one behind the other: content
models, declarations, blocks of declarations, and the front matter.
-/

namespace Doctype.Xml

/-- What a document shows: the title and the roots if there are any, and of the declarations
that it writes everything but the entities that default values refer to. -/
structure View where
  title : Option Text
  roots : Option Text
  elements : List Element
  attributes : List (Text × Text × Attribute.Kind × Attribute.Default × Nat)
  parameterEntities : List (Text × Entity.Definition × Nat)
  generalEntities : List (Text × Entity.Definition × Nat)
  notations : List NotationType
  comments : List Comment
  instructions : List Instruction

def attributeView (a : Attribute) : Text × Text × Attribute.Kind × Attribute.Default × Nat :=
  (a.element, a.name, a.kind, a.default, a.order)

def entityView (e : Entity) : Text × Entity.Definition × Nat :=
  (e.name, e.definition, e.order)

def Document.view (d : Document) : View where
  title := d.title
  roots := d.filter.map fun set => Text.join [' '] set.roots
  elements := d.graph.elements.filter fun e => d.includes (.element e.name)
  attributes :=
    (d.graph.attributes.filter fun a => d.includes (.attributeOf a.element a.name)).map
    attributeView
  parameterEntities := (d.entities .parameter).map entityView
  generalEntities := (d.entities .general).map entityView
  notations := d.graph.notations.filter fun n => d.includes (.notationType n.name)
  comments := d.graph.comments
  instructions := d.graph.instructions

/-! ### Content models -/

mutual

def particleTags : Content.Particle → List Tag
  | .name n mark => Tag.element "child" (markAttributes mark) n
  | .pcdata => [.empty "pcdata" []]
  | .group kind members mark =>
    .start (groupName kind) (markAttributes mark) ::
      (membersTags members ++ [.close (groupName kind)])

def membersTags : List Content.Particle → List Tag
  | [] => []
  | p :: ps => particleTags p ++ membersTags ps

end

def Step.tags : Step → List Tag
  | .tree p => particleTags p
  | .close name => [.close name]

theorem Step.flatMap_tags_pushAll (ps : List Content.Particle) (steps : List Step) :
    (Step.pushAll ps steps).flatMap Step.tags = membersTags ps ++ steps.flatMap Step.tags := by
  induction ps with
  | nil => rfl
  | cons p ps ih => simp [pushAll, membersTags, ih, Step.tags]

theorem treeTags_eq (steps : List Step) : treeTags steps = steps.flatMap Step.tags := by
  fun_induction treeTags steps with
  | case1 => rfl
  | case2 name steps ih => simp [ih, Step.tags]
  | case3 steps ih => simp [ih, Step.tags, particleTags]
  | case4 n mark steps ih => simp [ih, Step.tags, particleTags]
  | case5 kind members mark steps ih =>
      rw [ih, Step.flatMap_tags_pushAll]
      simp [Step.tags, particleTags]

theorem treeTags_tree (p : Content.Particle) : treeTags [.tree p] = particleTags p := by
  rw [treeTags_eq]
  exact List.append_nil _

theorem markAttributes_injective : Function.Injective markAttributes := by
  rintro (_ | m) (_ | n) h
  · rfl
  · cases h
  · cases h
  · cases m <;> cases n <;> first | rfl | exact absurd h (by decide)

theorem groupName_injective : Function.Injective groupName := by
  rintro (_ | _) (_ | _) h <;> first | rfl | exact absurd h (by decide)

theorem groupName_ne_child (kind : Content.GroupKind) : groupName kind ≠ "child" := by
  cases kind <;> decide

theorem particleTags_ne_close (p : Content.Particle) (n : Text) (s t : List Tag) :
    particleTags p ++ s ≠ .close n :: t := by
  cases p <;> simp [particleTags, Tag.element]

mutual

/-- Tags of a particle determine it and what follows it, and those of some members in front of
the end of a group determine the members. -/
theorem particleTags_append_inj (p q : Content.Particle) (s t : List Tag)
    (h : particleTags p ++ s = particleTags q ++ t) : p = q ∧ s = t := by
  cases p with
  | name n mark =>
      cases q with
      | name m mark' =>
          simp only [particleTags, Tag.element, List.cons_append, List.nil_append,
            List.cons.injEq, Tag.start.injEq, Tag.text.injEq, true_and] at h
          obtain ⟨hmark, rfl, rfl⟩ := h
          exact ⟨by rw [markAttributes_injective hmark], rfl⟩
      | pcdata => cases h
      | group kind members mark' =>
          have hname := (Tag.start.inj (List.cons.inj h).1).1
          exact absurd hname.symm (groupName_ne_child kind)
  | pcdata =>
      cases q with
      | pcdata => exact ⟨rfl, (List.cons.inj h).2⟩
      | name _ _ => cases h
      | group _ _ _ => cases h
  | group kind members mark =>
      cases q with
      | name _ _ =>
          exact absurd (Tag.start.inj (List.cons.inj h).1).1 (groupName_ne_child kind)
      | pcdata => cases h
      | group kind' members' mark' =>
          simp only [particleTags, List.cons_append, List.append_assoc, List.nil_append,
            List.cons.injEq, Tag.start.injEq] at h
          obtain ⟨⟨hkind, hmark⟩, hmembers⟩ := h
          obtain ⟨rfl, rfl⟩ := membersTags_append_inj members members' _ _ s t hmembers
          exact ⟨by rw [groupName_injective hkind, markAttributes_injective hmark], rfl⟩

theorem membersTags_append_inj (ps qs : List Content.Particle) (m n : Text) (s t : List Tag)
    (h : membersTags ps ++ .close m :: s = membersTags qs ++ .close n :: t) :
    ps = qs ∧ s = t := by
  cases ps with
  | nil =>
      cases qs with
      | nil => exact ⟨rfl, (List.cons.inj h).2⟩
      | cons q qs =>
          rw [membersTags, membersTags, List.append_assoc] at h
          exact absurd h.symm (particleTags_ne_close q _ _ _)
  | cons p ps =>
      cases qs with
      | nil =>
          rw [membersTags, membersTags, List.append_assoc] at h
          exact absurd h (particleTags_ne_close p _ _ _)
      | cons q qs =>
          rw [membersTags, membersTags, List.append_assoc, List.append_assoc] at h
          obtain ⟨rfl, hrest⟩ := particleTags_append_inj p q _ _ h
          obtain ⟨rfl, hst⟩ := membersTags_append_inj ps qs m n s t hrest
          exact ⟨rfl, hst⟩

end

theorem determines_particleTags : Determines particleTags id :=
  particleTags_append_inj

theorem label_eq_of_contentTags {a b : Content.Spec} {s t : List Tag}
    (h : contentTags a ++ s = contentTags b ++ t) : a.label = b.label := by
  have hlabel (c : Content.Spec) (s : List Tag) : ∃ rest u,
      contentTags c ++ s = .start "content-model" (("spec", c.label) :: rest) :: u ∨
        contentTags c ++ s = .empty "content-model" (("spec", c.label) :: rest) :: u := by
    cases c
    case mixed p => exact ⟨_, _, .inl rfl⟩
    case children p => exact ⟨_, _, .inl rfl⟩
    all_goals exact ⟨_, _, .inr rfl⟩
  obtain ⟨ra, ua, ha | ha⟩ := hlabel a s <;> obtain ⟨rb, ub, hb | hb⟩ := hlabel b t <;>
    rw [ha, hb] at h <;> simp_all

theorem determines_contentTags : Determines contentTags id := by
  intro a b s t h
  -- two specifications of different kinds are told apart by their first tags
  have hlabel := label_eq_of_contentTags h
  cases a <;> cases b <;>
    first
    | exact absurd hlabel (by unfold Content.Spec.label; dsimp only; decide)
    | skip
  case empty.empty => exact ⟨rfl, (List.cons.inj h).2⟩
  case any.any => exact ⟨rfl, (List.cons.inj h).2⟩
  case mixed.mixed p q =>
    simp only [contentTags, treeTags_tree, List.cons_append, List.append_assoc,
      List.cons.injEq] at h
    obtain ⟨rfl, hrest⟩ := determines_particleTags p q _ _ h.2
    exact ⟨rfl, (List.cons.inj hrest).2⟩
  case children.children p q =>
    simp only [contentTags, treeTags_tree, List.cons_append, List.append_assoc,
      List.cons.injEq] at h
    obtain ⟨rfl, hrest⟩ := determines_particleTags p q _ _ h.2
    exact ⟨rfl, (List.cons.inj hrest).2⟩
  case invalid.invalid raw message raw' message' =>
    simp only [contentTags, List.cons_append, List.nil_append, List.cons.injEq,
      Tag.empty.injEq, Prod.mk.injEq, true_and, and_true] at h
    obtain ⟨⟨-, rfl, rfl⟩, rfl⟩ := h
    exact ⟨rfl, rfl⟩

/-! ### Elements -/

theorem orderAttribute_injective : Function.Injective orderAttribute := fun _ _ h =>
  Text.decimal_injective (Prod.mk.inj h).2

theorem determines_elementTags : Determines elementTags id := by
  intro a b s t h
  obtain ⟨name, content, order⟩ := a
  obtain ⟨name', content', order'⟩ := b
  simp only [elementTags, List.cons_append, List.append_assoc, List.nil_append,
    List.cons.injEq, Tag.start.injEq, Prod.mk.injEq, true_and, and_true] at h
  obtain ⟨⟨rfl, horder⟩, hcontent⟩ := h
  obtain rfl := orderAttribute_injective horder
  obtain ⟨rfl, hrest⟩ := determines_contentTags _ _ _ _ hcontent
  exact ⟨rfl, (List.cons.inj hrest).2⟩

/-! ### Attributes -/

theorem exists_enumeration_of_head? {k : Attribute.Kind} (h : k.print.head? = some '(') :
    ∃ vs, k = .enumeration vs := by
  cases k with
  | enumeration vs => exact ⟨vs, rfl⟩
  | notations ns => exact absurd h (show some 'N' ≠ some '(' by decide)
  | _ => exact absurd h (by decide)

theorem exists_notations_of_take {k : Attribute.Kind} (h : k.print.take 2 = ['N', 'O']) :
    ∃ ns, k = .notations ns := by
  cases k with
  | notations ns => exact ⟨ns, rfl⟩
  | enumeration vs =>
      have hhead := congrArg List.head? h
      rw [List.head?_take] at hhead
      exact absurd hhead (show some '(' ≠ some 'N' by decide)
  | _ => exact absurd h (by decide)

/-- The written form of a type, with the values that it lists, determines the type. -/
theorem kind_eq_of_print_eq {k k' : Attribute.Kind} (hprint : k.print = k'.print)
    (hvalues : k.values = k'.values) : k = k' := by
  cases k with
  | enumeration vs =>
      obtain ⟨ws, rfl⟩ := exists_enumeration_of_head? (k := k') (by rw [← hprint]; rfl)
      rw [show vs = ws from hvalues]
  | notations ns =>
      obtain ⟨ms, rfl⟩ := exists_notations_of_take (k := k') (by rw [← hprint]; rfl)
      rw [show ns = ms from hvalues]
  | _ =>
      cases k' with
      | enumeration ws =>
          obtain ⟨vs, hvs⟩ := exists_enumeration_of_head? (by rw [hprint]; rfl)
          cases hvs
      | notations ms =>
          obtain ⟨ns, hns⟩ := exists_notations_of_take (by rw [hprint]; rfl)
          cases hns
      | _ => first | rfl | exact absurd hprint (by decide)

/-- The label of a default, with its value, determines the default. -/
theorem default_eq_of_label_eq {d d' : Attribute.Default} (hlabel : d.label = d'.label)
    (hvalue : valueAttributes d = valueAttributes d') : d = d' := by
  cases d with
  | required =>
    cases d' with
    | required => rfl
    | implied => exact absurd hlabel (by decide)
    | _ => cases hvalue
  | implied =>
    cases d' with
    | implied => rfl
    | required => exact absurd hlabel (by decide)
    | _ => cases hvalue
  | fixed v =>
    cases d' with
    | fixed w => rw [(Prod.mk.inj (List.cons.inj hvalue).1).2]
    | plain w => exact absurd hlabel (show ("#FIXED" : Text) ≠ "#DEFAULT" by decide)
    | _ => cases hvalue
  | plain v =>
    cases d' with
    | plain w => rw [(Prod.mk.inj (List.cons.inj hvalue).1).2]
    | fixed w => exact absurd hlabel (show ("#DEFAULT" : Text) ≠ "#FIXED" by decide)
    | _ => cases hvalue

def declaredAttributes (a : Attribute) : List (Text × Text) :=
  let declared : List (Text × Text) :=
    [("element", a.element), ("name", a.name), ("type", a.kind.print),
      ("mode", a.default.label)]
  declared ++ valueAttributes a.default ++ [orderAttribute a.order]

theorem attributeTags_eq (a : Attribute) : attributeTags a =
    if a.kind.values.isEmpty then [.empty "attribute" (declaredAttributes a)]
    else
      .start "attribute" (declaredAttributes a) :: .start "enumeration" [] ::
        a.kind.values.flatMap (Tag.element "value" []) ++
          [.close "enumeration", .close "attribute"] := rfl

theorem attributeView_eq {a b : Attribute} (h : declaredAttributes a = declaredAttributes b)
    (hvalues : a.kind.values = b.kind.values) : attributeView a = attributeView b := by
  simp only [declaredAttributes, List.cons_append, List.nil_append, List.cons.injEq,
    Prod.mk.injEq, true_and] at h
  obtain ⟨helement, hname, hkind, hlabel, hrest⟩ := h
  obtain ⟨hvalue, horder⟩ := List.append_inj' hrest rfl
  rw [attributeView, attributeView, helement, hname, kind_eq_of_print_eq hkind hvalues,
    default_eq_of_label_eq hlabel hvalue, orderAttribute_injective (List.cons.inj horder).1]

theorem determines_element (name : Text) (attributes : List (Text × Text)) :
    Determines (Tag.element name attributes) id := by
  intro u v s t h
  simpa [Tag.element] using h

theorem element_append_ne_close (name : Text) (attributes : List (Text × Text)) (u n : Text)
    (s t : List Tag) : Tag.element name attributes u ++ s ≠ .close n :: t := by
  simp [Tag.element]

theorem determines_attributeTags : Determines attributeTags attributeView := by
  intro a b s t h
  rw [attributeTags_eq, attributeTags_eq] at h
  by_cases ha : a.kind.values.isEmpty <;> by_cases hb : b.kind.values.isEmpty
  · simp only [ha, hb, if_true, List.cons_append, List.nil_append, List.cons.injEq,
      Tag.empty.injEq, true_and] at h
    rw [List.isEmpty_iff] at ha hb
    exact ⟨attributeView_eq h.1 (by rw [ha, hb]), h.2⟩
  · simp [ha, hb] at h
  · simp [ha, hb] at h
  · simp only [ha, hb, Bool.false_eq_true, if_false, List.cons_append, List.append_assoc,
      List.nil_append, List.cons.injEq, Tag.start.injEq, true_and] at h
    obtain ⟨hvalues, hrest⟩ :=
      (determines_element "value" []).flatMap_append
        (element_append_ne_close "value" [] · _) _ _ _ _ h.2
    rw [List.map_id, List.map_id] at hvalues
    exact ⟨attributeView_eq h.1 hvalues, (List.cons.inj hrest).2⟩

theorem attributeTags_append_ne_close {n : Text} (a : Attribute) (s t : List Tag) :
    attributeTags a ++ s ≠ .close n :: t := by
  rw [attributeTags_eq]
  split <;> simp

/-! ### Identifiers, entities and notations -/

def optionTags (name : Text) (o : Option Text) : List Tag :=
  o.elim [] (Tag.element name [])

theorem optionTags_append_inj {name : Text} {o o' : Option Text} {s t : List Tag}
    (hs : s.head? ≠ some (.start name [])) (ht : t.head? ≠ some (.start name []))
    (h : optionTags name o ++ s = optionTags name o' ++ t) : o = o' ∧ s = t := by
  cases o with
  | none =>
      cases o' with
      | none => exact ⟨rfl, h⟩
      | some v => exact absurd (congrArg List.head? h) hs
  | some u =>
      cases o' with
      | none => exact absurd (congrArg List.head? h.symm) ht
      | some v =>
          obtain ⟨rfl, hrest⟩ := determines_element name [] u v _ _ h
          exact ⟨rfl, hrest⟩

theorem head?_optionTags_append_ne {name n : Text} (hn : n ≠ name) (o : Option Text)
    {s : List Tag} (hs : s.head? ≠ some (.start name [])) :
    (optionTags n o ++ s).head? ≠ some (.start name []) := by
  cases o with
  | none => exact hs
  | some u =>
      intro h
      exact hn (Tag.start.inj (Option.some.inj h)).1

theorem idTags_eq (id : ExternalId) :
    idTags id = optionTags "publicId" id.publicId ++ optionTags "systemId" id.systemId := by
  obtain ⟨_ | _, _ | _⟩ := id <;> rfl

theorem idTags_append_inj {i j : ExternalId} {s t : List Tag}
    (hs : s.head? ≠ some (.start "publicId" []) ∧ s.head? ≠ some (.start "systemId" []))
    (ht : t.head? ≠ some (.start "publicId" []) ∧ t.head? ≠ some (.start "systemId" []))
    (h : idTags i ++ s = idTags j ++ t) : i = j ∧ s = t := by
  obtain ⟨p, y⟩ := i
  obtain ⟨q, z⟩ := j
  rw [idTags_eq, idTags_eq, List.append_assoc, List.append_assoc] at h
  obtain ⟨rfl, hsystem⟩ :=
    optionTags_append_inj (head?_optionTags_append_ne (by decide) _ hs.1)
    (head?_optionTags_append_ne (by decide) _ ht.1) h
  obtain ⟨rfl, hrest⟩ := optionTags_append_inj hs.2 ht.2 hsystem
  exact ⟨rfl, hrest⟩

theorem definitionTags_external (id : ExternalId) (n : Option Text) :
    definitionTags (.external id n) = idTags id ++ optionTags "notation" n := by
  cases n <;> rfl

theorem head?_external_append_ne (id : ExternalId) (o : Option Text) (n : Text)
    (s : List Tag) :
    (definitionTags (.external id o) ++ .close n :: s).head? ≠ some (.start "value" []) := by
  rw [definitionTags_external, idTags_eq, List.append_assoc, List.append_assoc]
  refine head?_optionTags_append_ne (by decide) _ (head?_optionTags_append_ne (by decide) _
    (head?_optionTags_append_ne (by decide) _ ?_))
  simp

theorem definitionTags_append_inj {d d' : Entity.Definition} {n : Text} {s t : List Tag}
    (h : definitionTags d ++ .close n :: s = definitionTags d' ++ .close n :: t) :
    d = d' ∧ s = t := by
  cases d with
  | literal v =>
      cases d' with
      | literal w =>
          obtain ⟨rfl, hrest⟩ := determines_element "value" [] v w _ _ h
          exact ⟨rfl, (List.cons.inj hrest).2⟩
      | external id o =>
          exact absurd (congrArg List.head? h.symm) (head?_external_append_ne id o n t)
  | external id o =>
      cases d' with
      | literal w => exact absurd (congrArg List.head? h) (head?_external_append_ne id o n s)
      | external id' o' =>
          have hfollows (o : Option Text) (s : List Tag) :
              (optionTags "notation" o ++ .close n :: s).head? ≠ some (.start "publicId" []) ∧
                (optionTags "notation" o ++ .close n :: s).head? ≠
                  some (.start "systemId" []) :=
            ⟨head?_optionTags_append_ne (by decide) o (by simp),
              head?_optionTags_append_ne (by decide) o (by simp)⟩
          rw [definitionTags_external, definitionTags_external, List.append_assoc,
            List.append_assoc] at h
          obtain ⟨rfl, hnotation⟩ := idTags_append_inj (hfollows o s) (hfollows o' t) h
          obtain ⟨rfl, hrest⟩ := optionTags_append_inj (by simp) (by simp) hnotation
          exact ⟨rfl, (List.cons.inj hrest).2⟩

theorem determines_entityTags : Determines entityTags entityView := by
  intro a b s t h
  simp only [entityTags, List.cons_append, List.append_assoc, List.nil_append, List.cons.injEq,
    Tag.start.injEq, Prod.mk.injEq, true_and, and_true] at h
  obtain ⟨⟨hname, -, horder⟩, hdefinition⟩ := h
  obtain ⟨hd, hrest⟩ := definitionTags_append_inj hdefinition
  rw [entityView, entityView, hname, hd, orderAttribute_injective horder]
  exact ⟨rfl, hrest⟩

theorem determines_notationTags : Determines notationTags id := by
  intro a b s t h
  obtain ⟨name, i, order⟩ := a
  obtain ⟨name', j, order'⟩ := b
  by_cases hi : i = .none <;> by_cases hj : j = .none
  · simp only [notationTags, hi, hj, if_true, List.cons_append, List.nil_append,
      List.cons.injEq, Tag.empty.injEq, Prod.mk.injEq, true_and, and_true] at h
    obtain ⟨⟨rfl, horder⟩, rfl⟩ := h
    rw [hi, hj, orderAttribute_injective horder]
    exact ⟨rfl, rfl⟩
  · simp [notationTags, hi, hj] at h
  · simp [notationTags, hi, hj] at h
  · simp only [notationTags, hi, hj, if_false, List.cons_append, List.append_assoc,
      List.nil_append,
      List.cons.injEq, Tag.start.injEq, Prod.mk.injEq, true_and, and_true] at h
    obtain ⟨⟨rfl, horder⟩, hids⟩ := h
    obtain ⟨rfl, hrest⟩ := idTags_append_inj (by simp) (by simp) hids
    rw [orderAttribute_injective horder]
    exact ⟨rfl, (List.cons.inj hrest).2⟩

theorem notationTags_append_ne_close {n : Text} (a : NotationType) (s t : List Tag) :
    notationTags a ++ s ≠ .close n :: t := by
  unfold notationTags
  dsimp only
  split <;> simp

/-! ### Comments and instructions -/

theorem determines_commentTags : Determines commentTags id := by
  intro a b s t h
  obtain ⟨text, order⟩ := a
  obtain ⟨text', order'⟩ := b
  simp only [commentTags, Tag.element, List.cons_append, List.nil_append, List.cons.injEq,
    Tag.start.injEq, Tag.text.injEq, true_and, and_true] at h
  obtain ⟨horder, rfl, rfl⟩ := h
  rw [orderAttribute_injective horder]
  exact ⟨rfl, rfl⟩

theorem determines_instructionTags : Determines instructionTags id := by
  intro a b s t h
  obtain ⟨target, data, order⟩ := a
  obtain ⟨target', data', order'⟩ := b
  simp only [instructionTags, Tag.element, List.cons_append, List.nil_append, List.cons.injEq,
    Tag.start.injEq, Tag.text.injEq, Prod.mk.injEq, true_and, and_true] at h
  obtain ⟨⟨rfl, horder⟩, rfl, rfl⟩ := h
  rw [orderAttribute_injective horder]
  exact ⟨rfl, rfl⟩

/-! ### Blocks -/

/-- A block determines what is shown of its items. -/
theorem determines_blockTags {α γ : Type} {tags : α → List Tag} {view : α → γ}
    (h : Determines tags view) {name : Text}
    (hstop : ∀ a s t, tags a ++ s ≠ .close name :: t) :
    Determines (blockTags name tags) (List.map view) := by
  intro as bs s t heq
  unfold blockTags at heq
  cases as with
  | nil =>
      cases bs with
      | nil => exact ⟨rfl, (List.cons.inj heq).2⟩
      | cons b bs => cases heq
  | cons a as =>
      cases bs with
      | nil => cases heq
      | cons b bs =>
          simp only [List.isEmpty_cons, Bool.false_eq_true, if_false, List.cons_append,
            List.append_assoc, List.nil_append, List.cons.injEq, true_and] at heq
          exact h.flatMap_append hstop _ _ _ _ heq

theorem head?_blockTags {α : Type} (name : Text) (tags : α → List Tag) (items : List α)
    (s : List Tag) :
    (blockTags name tags items ++ s).head? = some (.empty name []) ∨
      (blockTags name tags items ++ s).head? = some (.start name []) := by
  cases items with
  | nil => exact .inl rfl
  | cons a as => exact .inr rfl

/-! ### Documents -/

def filterTags (roots : Option Text) : List Tag :=
  roots.elim [] fun roots => [.empty "reachability" [("roots", roots)]]

theorem filterTags_append_inj {o o' : Option Text} {s t : List Tag}
    (hs : ∀ as, s.head? ≠ some (.empty "reachability" as))
    (ht : ∀ as, t.head? ≠ some (.empty "reachability" as))
    (h : filterTags o ++ s = filterTags o' ++ t) : o = o' ∧ s = t := by
  cases o with
  | none =>
      cases o' with
      | none => exact ⟨rfl, h⟩
      | some v => exact absurd (congrArg List.head? h) (hs _)
  | some u =>
      cases o' with
      | none => exact absurd (congrArg List.head? h.symm) (ht _)
      | some v => simpa [filterTags] using h

theorem Document.headTags_eq (d : Document) :
    d.headTags = optionTags "title" d.view.title ++ filterTags d.view.roots := by
  obtain ⟨g, _ | title, _ | set⟩ := d <;> rfl

theorem head?_blockTags_ne {α : Type} (name : Text)
    (hname : name ≠ "title" ∧ name ≠ "reachability") (tags : α → List Tag) (items : List α)
    (s : List Tag) :
    (blockTags name tags items ++ s).head? ≠ some (.start "title" []) ∧
      ∀ as, (blockTags name tags items ++ s).head? ≠ some (.empty "reachability" as) := by
  rcases head?_blockTags name tags items s with h | h
  · rw [h]
    exact ⟨by simp, fun as hr => hname.2 (Tag.empty.inj (Option.some.inj hr)).1⟩
  · rw [h]
    exact ⟨fun ht => hname.1 (Tag.start.inj (Option.some.inj ht)).1, by simp⟩

theorem head?_filterTags_append_ne (o : Option Text) {s : List Tag} {name : Text}
    (hs : s.head? ≠ some (.start name [])) :
    (filterTags o ++ s).head? ≠ some (.start name []) := by
  cases o with
  | none => exact hs
  | some u => simp [filterTags]

/-- The tags of a document determine what it shows. -/
theorem Document.view_eq_of_tags_eq {d d' : Document} (h : d.tags = d'.tags) :
    d.view = d'.view := by
  simp only [tags, headTags_eq, bodyTags, List.cons_append, List.append_assoc, List.cons.injEq,
    true_and] at h
  have hfront {α : Type} := head?_blockTags_ne (α := α) "elements" (by decide)
  obtain ⟨htitle, h⟩ := optionTags_append_inj (head?_filterTags_append_ne _ (hfront _ _ _).1)
    (head?_filterTags_append_ne _ (hfront _ _ _).1) h
  obtain ⟨hroots, h⟩ := filterTags_append_inj (hfront _ _ _).2 (hfront _ _ _).2 h
  -- what is left behind a block is what the next one begins
  obtain ⟨helements, h⟩ :=
    determines_blockTags determines_elementTags (by simp [elementTags]) _ _ _ _ h
  obtain ⟨hattributes, h⟩ :=
    determines_blockTags determines_attributeTags attributeTags_append_ne_close _ _ _ _ h
  obtain ⟨hparameter, h⟩ :=
    determines_blockTags determines_entityTags (by simp [entityTags]) _ _ _ _ h
  obtain ⟨hgeneral, h⟩ :=
    determines_blockTags determines_entityTags (by simp [entityTags]) _ _ _ _ h
  obtain ⟨hnotations, h⟩ :=
    determines_blockTags determines_notationTags notationTags_append_ne_close _ _ _ _ h
  obtain ⟨hcomments, h⟩ :=
    determines_blockTags determines_commentTags (by simp [commentTags, Tag.element]) _ _ _ _ h
  obtain ⟨hinstructions, -⟩ :=
    determines_blockTags determines_instructionTags
      (by simp [instructionTags, Tag.element]) _ _ _ _ h
  simp only [List.map_id] at helements hnotations hcomments hinstructions
  unfold view at htitle hroots ⊢
  simp only [View.mk.injEq]
  exact ⟨htitle, hroots, helements, hattributes, hparameter, hgeneral, hnotations, hcomments,
    hinstructions⟩

end Doctype.Xml
