import Doctype.Proofs.Xml.Nesting

/-!
The values that a reader of a document is told. Every tag of a document comes back in its
place, and of its values those characters change that end lines or are tabs: they come back as
spaces (`Document.read_print`). So a default value comes back as it is exactly if it has no
such characters (`Document.read_defaultValues`).
-/

namespace Doctype.Xml

open Text (normalizeLineEndings)

def Tag.isMarkup : Tag → Bool
  | text _ => false
  | _ => true

namespace Reader

variable {opened inner outer : List Text} {s s' t u : Text} {a : Tag} {tags tags' : List Tag}
  {l : Layout}

/-! ### Steps -/

theorem readFrom_item {rest : Text} (hitem : item? t = some (a, rest))
    (hnest : nest? opened a = some inner) :
    readFrom opened t = (readFrom inner rest).map (a :: ·) := by
  have hne : t.isEmpty = false := by
    cases t with
    | nil => cases hitem
    | cons c t => rfl
  rw [readFrom, hne, if_neg (by simp)]
  split
  · next heq =>
    rw [hitem] at heq
    cases heq
    rw [hnest]
  · next heq =>
    rw [hitem] at heq
    cases heq

/-- Text up to the next less-than sign is one item. -/
theorem item?_text (hs : s ≠ []) (hmarkup : '<' ∉ s) (hread : content? id s = some u)
    (t : Text) : item? (s ++ '<' :: t) = some (.text u, '<' :: t) := by
  cases s with
  | nil => exact absurd rfl hs
  | cons c s =>
      have hne : ∀ d ∈ c :: s, decide (d ≠ '<') = true := fun d hd => by
        simpa using ne_of_mem_of_not_mem hd hmarkup
      have htake : (c :: s ++ '<' :: t).takeWhile (· ≠ '<') = c :: s := by
        rw [List.takeWhile_append_of_pos hne]
        simp
      have hdrop : (s ++ '<' :: t).dropWhile (· ≠ '<') = '<' :: t := by
        rw [List.dropWhile_append_of_pos fun d hd => hne d (List.mem_cons_of_mem _ hd)]
        simp
      have hc : c ≠ '<' := fun h => hmarkup (h ▸ List.mem_cons_self)
      rw [List.cons_append] at htake ⊢
      rw [item?, if_neg hc, htake, hread, hdrop]
      rfl

/-- `Reads opened s tags inner`: read in front of any text, with some elements open, a text
gives some tags, apart from text between them, and then others are open. -/
def Reads (opened : List Text) (s : Text) (tags : List Tag) (inner : List Text) : Prop :=
  ∀ t, ∃ items, readFrom opened (normalizeLineEndings (s ++ t)) =
    (readFrom inner (normalizeLineEndings t)).map (items ++ ·) ∧
    items.filter Tag.isMarkup = tags

namespace Reads

theorem nil (opened : List Text) : Reads opened [] [] opened := by
  intro t
  refine ⟨[], ?_, rfl⟩
  rw [List.nil_append]
  simp

theorem trans (h : Reads opened s tags inner) (h' : Reads inner s' tags' outer) :
    Reads opened (s ++ s') (tags ++ tags') outer := by
  intro t
  obtain ⟨items, hread, hitems⟩ := h (s' ++ t)
  obtain ⟨items', hread', hitems'⟩ := h' t
  refine ⟨items ++ items', ?_, by rw [List.filter_append, hitems, hitems']⟩
  rw [List.append_assoc, hread, hread', Option.map_map]
  congr 1
  funext rest
  simp

theorem markup (h : a.isWellNamed = true)
    (hnest : nest? opened (a.withValues readValue) = some inner) :
    Reads opened a.print [a.withValues readValue] inner := by
  intro t
  refine ⟨[a.withValues readValue], readFrom_item (item?_print h t) hnest, ?_⟩
  cases a with
  | text u => cases h
  | _ => rfl

theorem text {w : Text}
    (hends : ∀ t, normalizeLineEndings (s ++ '<' :: t) = s' ++ '<' :: normalizeLineEndings t)
    (hmarkup : '<' ∉ s') (hread : content? id s' = some u)
    (h : Reads opened ('<' :: w) tags inner) : Reads opened (s ++ '<' :: w) tags inner := by
  intro t
  obtain ⟨items, hitems, hfilter⟩ := h t
  rw [List.cons_append, Text.normalizeLineEndings_cons (by decide)] at hitems
  rw [List.append_assoc, List.cons_append, hends]
  by_cases hs : s' = []
  · exact ⟨items, by rw [hs, List.nil_append, hitems], hfilter⟩
  · refine ⟨.text u :: items, ?_, hfilter⟩
    rw [readFrom_item (item?_text hs hmarkup hread _) rfl, hitems, Option.map_map]
    rfl

theorem escape_eq_self (ht : ∀ c ∈ t, escapeChar c = [c]) : Xml.escape t = t := by
  induction t with
  | nil => rfl
  | cons c t ih =>
      rw [escape_cons, ht c List.mem_cons_self,
        ih fun d hd => ht d (List.mem_cons_of_mem _ hd)]
      rfl

theorem escape {w : Text} (t : Text) (h : Reads opened ('<' :: w) tags inner) :
    Reads opened (Xml.escape t ++ '<' :: w) tags inner := by
  refine text (fun u => normalizeLineEndings_escape_append t (by decide) (by decide) u) ?_
    (content?_escape (fun _ _ _ => rfl) _) h
  exact fun hmem => (ne_of_mem_escape hmem).1 rfl

/-- A line break in front of a tag. -/
theorem lineBreak {w : Text} (l : Layout) (h : Reads opened ('<' :: w) tags inner) :
    Reads opened (l.lineBreak ++ '<' :: w) tags inner := by
  -- a line break is written as it would be if it were escaped
  have hchars : ∀ c ∈ l.lineBreak, c = '\n' ∨ c = ' ' := by
    intro c hc
    unfold Layout.lineBreak at hc
    split at hc
    · rcases List.mem_cons.1 hc with rfl | hc
      · exact .inl rfl
      · exact .inr (List.eq_of_mem_replicate hc)
    · cases hc
  have hsingle : ∀ c ∈ l.lineBreak, escapeChar c = [c] := fun c hc => by
    rcases hchars c hc with rfl | rfl <;> rfl
  have hread := h.escape l.lineBreak
  rwa [escape_eq_self hsingle] at hread

/-- A tag in its place. -/
theorem place (l : Layout) (h : a.isWellNamed = true)
    (hnest : nest? opened (a.withValues readValue) = some inner) :
    Reads opened (l.place a).1 [a.withValues readValue] inner := by
  obtain ⟨w, hw⟩ : ∃ w, a.print = '<' :: w := by
    cases a with
    | text u => cases h
    | _ => exact ⟨_, rfl⟩
  obtain ⟨l', hplace⟩ : ∃ l' : Layout, (l.place a).1 = l'.lineBreak ++ a.print := by
    cases a with
    | text u => cases h
    | _ => exact ⟨_, rfl⟩
  have hread := markup h hnest
  rw [hw] at hread
  rw [hplace, hw]
  exact hread.lineBreak l'

end Reads

/-! ### Documents -/

theorem isWellNamed_close {name : Text} {attributes : List (Text × Text)}
    (h : isOpening name attributes = true) : (Tag.close name).isWellNamed = true :=
  (isOpening_iff.1 h).1

/-- Nested tags are read back, with their values as they are read. -/
theorem reads_render {A : Char → Prop} (h : Nested (Plain A) tags) (l : Layout)
    (opened : List Text) :
    Reads opened (render l tags)
      ((tags.filter Tag.isMarkup).map (Tag.withValues readValue)) opened := by
  induction h generalizing l opened with
  | nil => exact .nil opened
  | @empty name attributes tags hplain _ ih =>
      have htag : (Tag.empty name attributes).isWellNamed = true := hplain.opening
      exact (Reads.place l htag rfl).trans (ih _ opened)
  | @element name attributes u tags hplain _ ih =>
      have hstart : (Tag.start name attributes).isWellNamed = true := hplain.opening
      have hclose : Reads (name :: opened) (Tag.close name).print [.close name] opened :=
        .markup (isWellNamed_close hplain.opening) (by simp [Tag.withValues, nest?])
      have htext : Reads (name :: opened) (escape u ++ (Tag.close name).print)
          [.close name] opened :=
        hclose.escape u
      rw [render_element, ← List.append_assoc (escape u)]
      exact (Reads.place l hstart rfl).trans (htext.trans (ih _ opened))
  | @enclosed name attributes inner tags hplain _ _ ihinner ih =>
      have hstart : (Tag.start name attributes).isWellNamed = true := hplain.opening
      have hclose (l : Layout) :
          Reads (name :: opened) (l.place (.close name)).1 [.close name] opened :=
        .place l (isWellNamed_close hplain.opening) (by simp [Tag.withValues, nest?])
      rw [render_cons, render_append, render_cons, List.filter_cons_of_pos rfl,
        List.filter_append,
        List.filter_cons_of_pos rfl, List.map_cons, List.map_append, List.map_cons]
      exact (Reads.place l hstart rfl).trans
        ((ihinner _ _).trans ((hclose _).trans (ih _ opened)))

/-- What is read of a document: its tags, with their values as they are read. -/
theorem read_print (d : Document) : ∃ items, read d.print = some items ∧
    items.filter Tag.isMarkup =
      (d.tags.filter Tag.isMarkup).map (Tag.withValues readValue) := by
  obtain ⟨root, hwritten, htags⟩ := d.exists_tags_of_forall
  have hroot : Nested (Plain fun _ => True) root :=
    hwritten.mono (Written.plain fun _ _ => trivial)
  have hdocument : Reads [] (render .initial d.tags)
      ((d.tags.filter Tag.isMarkup).map (Tag.withValues readValue)) [] := by
    rw [htags]
    exact (Reads.place .initial (a := .declaration) rfl rfl).trans (reads_render hroot _ [])
  obtain ⟨items, hread, hitems⟩ := hdocument ['\n']
  -- the line feed behind the document is text
  have hend : readFrom [] (normalizeLineEndings ['\n']) = some [.text ['\n']] := by
    decide +kernel
  rw [hend] at hread
  refine ⟨items ++ [.text ['\n']], ?_, by rw [List.filter_append, hitems]; simp [Tag.isMarkup]⟩
  rw [read, Document.print, print_eq_render, hread]
  rfl

end Reader

/-! ### Elements by name -/

/-- The attributes of a tag that begins an element with a given name. -/
def Tag.attributesNamed? (name : Text) : Tag → Option (List (Text × Text))
  | start n attributes => if n = name then some attributes else none
  | empty n attributes => if n = name then some attributes else none
  | _ => none

/-- The attributes of the elements with a given name, in document order. -/
def attributesNamed (name : Text) (tags : List Tag) : List (List (Text × Text)) :=
  tags.filterMap (Tag.attributesNamed? name)

section AttributesNamed

variable {name n : Text} {tags : List Tag}

theorem attributesNamed_filter (name : Text) (tags : List Tag) :
    attributesNamed name (tags.filter Tag.isMarkup) = attributesNamed name tags := by
  rw [attributesNamed, List.filterMap_filter]
  refine congrFun (congrArg List.filterMap (funext fun tag => ?_)) tags
  cases tag <;> rfl

theorem attributesNamed_withValues (f : Text → Text) (name : Text) (tags : List Tag) :
    attributesNamed name (tags.map (Tag.withValues f)) =
      (attributesNamed name tags).map (withValues f) := by
  rw [attributesNamed, List.filterMap_map, attributesNamed, List.map_filterMap]
  refine congrFun (congrArg List.filterMap (funext fun tag => ?_)) tags
  cases tag with
  | start n attributes =>
      by_cases hn : n = name <;> simp [Tag.withValues, Tag.attributesNamed?, hn]
  | empty n attributes =>
      by_cases hn : n = name <;> simp [Tag.withValues, Tag.attributesNamed?, hn]
  | _ => rfl

theorem attributesNamed_eq_told (name : Text) (tags : List Tag) : attributesNamed name tags =
    told (fun n attributes => if n = name then some attributes else none) tags := by
  refine congrFun (congrArg List.filterMap (funext fun tag => ?_)) tags
  cases tag <;> rfl

theorem attributesNamed_append (name : Text) (tags tags' : List Tag) :
    attributesNamed name (tags ++ tags') =
      attributesNamed name tags ++ attributesNamed name tags' :=
  List.filterMap_append

/-! ### The attributes of a document -/

theorem Part.ne_attribute {A : Char → Prop} {attributes : List (Text × Text)}
    {filling : Filling} (h : Part A n attributes filling) : n ≠ "attribute" := by
  cases h with
  | group kind mark => cases kind <;> decide
  | text hname _ => exact ne_of_mem_of_not_mem hname (by decide)
  | _ => decide

theorem IsElement.attributesNamed_eq {A : Char → Prop} {attributes : List (Text × Text)}
    {filling : Filling} (h : IsElement (Part A) n attributes filling tags) :
    attributesNamed "attribute" tags = if n = "attribute" then [attributes] else [] := by
  rw [attributesNamed_eq_told, h.told_eq fun hpart => if_neg hpart.ne_attribute]
  split <;> rfl

theorem attributesNamed_elementTags (e : Element) :
    attributesNamed "attribute" (elementTags e) = [] :=
  (isElement_elementTags (e.content.over_of_forall fun _ => trivial)).attributesNamed_eq

theorem attributesNamed_attributeTags (a : Attribute) :
    attributesNamed "attribute" (attributeTags a) = [declaredAttributes a] := by
  obtain ⟨filling, -, helement⟩ :=
    isElement_attributeTags (A := fun _ => True) (a := a) fun _ _ _ _ => trivial
  exact helement.attributesNamed_eq

theorem attributesNamed_entityTags (e : Entity) :
    attributesNamed "attribute" (entityTags e) = [] :=
  (isElement_entityTags (e.definition.over_of_forall fun _ => trivial)).attributesNamed_eq

theorem attributesNamed_notationTags (n : NotationType) :
    attributesNamed "attribute" (notationTags n) = [] := by
  obtain ⟨filling, -, helement⟩ :=
    isElement_notationTags (n.id.over_of_forall fun _ => trivial)
  exact helement.attributesNamed_eq

theorem attributesNamed_commentTags (c : Comment) :
    attributesNamed "attribute" (commentTags c) = [] :=
  (isElement_commentTags (A := fun _ => True) c).attributesNamed_eq

theorem attributesNamed_instructionTags (i : Instruction) :
    attributesNamed "attribute" (instructionTags i) = [] :=
  (isElement_instructionTags (A := fun _ => True) i).attributesNamed_eq

theorem attributesNamed_blockTags {α : Type} {f : α → List Tag} (hn : n ≠ name)
    (items : List α) :
    attributesNamed name (blockTags n f items) =
      items.flatMap fun a => attributesNamed name (f a) := by
  simp only [attributesNamed_eq_told, told_blockTags, if_neg hn]
  rfl

theorem attributesNamed_otherBlock {α : Type} {f : α → List Tag} (hn : n ≠ name)
    (h : ∀ a, attributesNamed name (f a) = []) (items : List α) :
    attributesNamed name (blockTags n f items) = [] := by
  rw [attributesNamed_blockTags hn, List.flatMap_eq_nil_iff]
  exact fun a _ => h a

/-- The elements for attributes in a document are those of the attributes that are written. -/
theorem Document.attributesNamed_tags (d : Document) : attributesNamed "attribute" d.tags =
    (d.graph.attributes.filter fun a => d.includes (.attributeOf a.element a.name)).map
      declaredAttributes := by
  have hhead : attributesNamed "attribute" d.headTags = [] := by
    obtain ⟨g, _ | title, _ | set⟩ := d <;> rfl
  have hattributes (items : List Attribute) :
      attributesNamed "attribute" (blockTags "attributes" attributeTags items) =
        items.map declaredAttributes := by
    rw [attributesNamed_blockTags (by decide)]
    simp only [attributesNamed_attributeTags, ← List.map_eq_flatMap]
  have hsplit : d.tags = [.declaration] ++
      (.start "declarations" [] :: (d.headTags ++ d.bodyTags) ++ [.close "declarations"]) := by
    simp only [tags, List.cons_append, List.append_assoc, List.nil_append]
  have hroot : attributesNamed "attribute" d.tags =
      attributesNamed "attribute" (d.headTags ++ d.bodyTags) := by
    rw [hsplit, attributesNamed_append, attributesNamed_eq_told _ (_ :: _ ++ _), told_enclosed,
      ← attributesNamed_eq_told]
    rfl
  rw [hroot, attributesNamed_append, hhead, bodyTags]
  simp only [attributesNamed_append, hattributes,
    attributesNamed_otherBlock (n := "elements") (by decide) attributesNamed_elementTags,
    attributesNamed_otherBlock (n := "parameterEntities") (by decide)
      attributesNamed_entityTags,
    attributesNamed_otherBlock (n := "generalEntities") (by decide) attributesNamed_entityTags,
    attributesNamed_otherBlock (n := "notations") (by decide) attributesNamed_notationTags,
    attributesNamed_otherBlock (n := "comments") (by decide) attributesNamed_commentTags,
    attributesNamed_otherBlock (n := "processingInstructions") (by decide)
      attributesNamed_instructionTags,
    List.nil_append, List.append_nil]

end AttributesNamed

/-! ### Default values -/

theorem Reader.spaced_eq_self_iff {c : Char} :
    spaced c = c ↔ c ≠ '\t' ∧ c ≠ '\n' ∧ c ≠ '\r' := by
  constructor
  · intro h
    refine ⟨?_, ?_, ?_⟩ <;>
    · rintro rfl
      revert h
      decide
  · rintro ⟨htab, hfeed, hreturn⟩
    by_cases hspace : c = ' '
    · rw [hspace]
      rfl
    · simp [spaced, isBlank, hspace, htab, hfeed, hreturn]

theorem Reader.spaced_spaced (c : Char) : spaced (spaced c) = spaced c := by
  cases hblank : isBlank c with
  | false =>
      have hsame : spaced c = c := by simp [spaced, hblank]
      rw [hsame, hsame]
  | true =>
      have hspace : spaced c = ' ' := by simp [spaced, hblank]
      rw [hspace]
      rfl

theorem Reader.readValue_eq_self_iff {v : Text} :
    readValue v = v ↔ ∀ c ∈ v, c ≠ '\t' ∧ c ≠ '\n' ∧ c ≠ '\r' := by
  constructor
  · intro heq c hc
    rw [← heq] at hc
    obtain ⟨d, -, rfl⟩ := List.mem_map.1 hc
    exact spaced_eq_self_iff.1 (spaced_spaced d)
  · intro hv
    have hreturn : '\r' ∉ v := fun hmem => (hv _ hmem).2.2 rfl
    have hends : normalizeLineEndings v = v := by
      simpa [normalizeLineEndings, Text.unifyLineEnds] using
        Text.normalizeLineEndings_append_of_notMem hreturn []
    have hsame : ∀ c ∈ v, spaced c = id c := fun c hc => spaced_eq_self_iff.2 (hv c hc)
    rw [readValue, hends, List.map_congr_left hsame, List.map_id]

theorem Document.read_attributes (d : Document) : ∃ items, Reader.read d.print = some items ∧
    attributesNamed "attribute" items =
      (d.graph.attributes.filter fun a => d.includes (.attributeOf a.element a.name)).map
        fun a =>
        withValues Reader.readValue (declaredAttributes a) := by
  obtain ⟨items, hread, hitems⟩ := Reader.read_print d
  refine ⟨items, hread, ?_⟩
  rw [← attributesNamed_filter, hitems, attributesNamed_withValues, attributesNamed_filter,
    attributesNamed_tags, List.map_map]
  rfl

theorem lookup_defaultValue (f : Text → Text) (a : Attribute) :
    (withValues f (declaredAttributes a)).lookup ("defaultValue" : Text) =
      a.default.value?.map f := by
  obtain ⟨element, name, kind, default, references, order⟩ := a
  cases default <;> rfl

/-- A reader of a document is told one element for each attribute that is written, in order.
The default value that it is told is the declared one with its line ends made plain and its
blanks turned into spaces, which is the declared one exactly if there are no tabs, line feeds
and carriage returns in it. -/
theorem Document.read_defaultValues (d : Document) :
    let written := d.graph.attributes.filter fun a =>
      d.includes (.attributeOf a.element a.name)
    ∃ items, Reader.read d.print = some items ∧
      attributesNamed "attribute" items =
        written.map (fun a => withValues Reader.readValue (declaredAttributes a)) ∧
      ∀ a ∈ written, ∀ v, a.default.value? = some v →
        (withValues Reader.readValue (declaredAttributes a)).lookup ("defaultValue" : Text) =
          some (Reader.readValue v) ∧
        (Reader.readValue v = v ↔ ∀ c ∈ v, c ≠ '\t' ∧ c ≠ '\n' ∧ c ≠ '\r') := by
  intro written
  obtain ⟨items, hread, hitems⟩ := d.read_attributes
  refine ⟨items, hread, hitems, fun a _ v hv => ⟨?_, Reader.readValue_eq_self_iff⟩⟩
  rw [lookup_defaultValue, hv]
  rfl

/-- A line feed, a legal character, that a default value has through a reference is read back
as a space. -/
theorem Document.read_defaultValues_lineFeed :
    let g := (Graph.build .standard
      [.element ['r'] "EMPTY", .attributeList ['r'] "a CDATA \"x&#10;y\""]).graph
    let d : Document := ⟨g, none, none⟩
    g.attributes.map (·.default.value?) = [some "x\ny".toList] ∧
      "x\ny".toList.all isLegal = true ∧
      ∃ items, Reader.read d.print = some items ∧
        (attributesNamed "attribute" items).map (·.lookup ("defaultValue" : Text)) =
          [some "x y".toList] := by
  intro g d
  obtain ⟨items, hread, hitems⟩ := d.read_attributes
  refine ⟨by decide +kernel, by decide, items, hread, ?_⟩
  rw [hitems, List.map_map]
  decide +kernel

/-- A default value with markup and a space in it is read back as it is. -/
theorem Document.read_defaultValues_markup :
    let a : Attribute := ⟨['r'], ['a'], .cdata, .plain "x <&\">", [], 2⟩
    let d : Document := ⟨(Graph.empty.insertAttribute a).2, none, none⟩
    ∃ items, Reader.read d.print = some items ∧
      (attributesNamed "attribute" items).map (·.lookup ("defaultValue" : Text)) =
        [some "x <&\">".toList] := by
  intro a d
  obtain ⟨items, hread, hitems, hvalue⟩ := d.read_defaultValues
  have hwritten : (d.graph.attributes.filter fun a =>
    d.includes (.attributeOf a.element a.name)) = [a] := rfl
  rw [hwritten] at hitems hvalue
  obtain ⟨hlookup, hsame⟩ := hvalue a (by simp) "x <&\">" rfl
  refine ⟨items, hread, ?_⟩
  rw [hitems, List.map_singleton, List.map_singleton, hlookup, hsame.2 (by simp)]

end Doctype.Xml
