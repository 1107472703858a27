import Doctype.Proofs.Xml.Layout
import Doctype.Xml.Writer

/-!
Documents in writers that run out of room. Each function of the writer writes the tags of what
it is given, and nothing else (`Writing.Writes`, with one lemma for each function). A run over
tags ends with the first one that is not taken whole, and until then it puts their text
(`Writing.ending_run`). So the first bytes of a document are taken and nothing behind them, and
the error tells whether more than the line feed at the end is missing
(`Document.write_truncated`).
-/

namespace Doctype.Xml

/-! ### Sinks -/

namespace Sink

def filled (s : Sink) (t : Text) : Sink :=
  ⟨s.taken ++ Text.toBytes t, s.room - (Text.toBytes t).length⟩

theorem toBytes_append (t u : Text) :
    Text.toBytes (t ++ u) = Text.toBytes t ++ Text.toBytes u :=
  List.flatMap_append

theorem put_eq (s : Sink) (t : Text) :
    s.put t = (⟨s.taken ++ (Text.toBytes t).take s.room, s.room - (Text.toBytes t).length⟩,
      decide ((Text.toBytes t).length ≤ s.room)) := by
  have htake : (Text.toBytes t).take (min (Text.toBytes t).length s.room) =
      (Text.toBytes t).take s.room := by
    rw [Nat.min_comm, ← List.take_take, List.take_length]
  have hroom : s.room - min (Text.toBytes t).length s.room =
      s.room - (Text.toBytes t).length := by
    omega
  unfold put
  dsimp only
  rw [htake, hroom]

@[simp] theorem put_nil (s : Sink) : s.put [] = (s, true) := by
  simp [put_eq, Text.toBytes]

theorem put_append (s : Sink) (t u : Text) :
    s.put (t ++ u) = if (s.put t).2 then (s.put t).1.put u else s.put t := by
  simp only [put_eq, toBytes_append, List.take_append, List.length_append, decide_eq_true_eq]
  split
  · next hfits =>
    have hleft : (Text.toBytes t).length + (Text.toBytes u).length ≤ s.room ↔
        (Text.toBytes u).length ≤ s.room - (Text.toBytes t).length := by omega
    simp [hleft, List.take_of_length_le hfits, Nat.sub_sub, ← Array.toList_inj]
  · next hfull =>
    have hover : s.room - (Text.toBytes t).length = 0 := by omega
    have hover' : s.room - ((Text.toBytes t).length + (Text.toBytes u).length) = 0 := by omega
    have hfull' : ¬(Text.toBytes t).length + (Text.toBytes u).length ≤ s.room := by omega
    simp [hover, hover', hfull, hfull']

end Sink

/-! ### What a step writes -/

namespace Writing

/-- A step that writes some tags, one after the other, until one is not taken whole. -/
def Writes (x : Writing Unit) (tags : List Tag) : Prop :=
  x = forM tags event

namespace Writes

variable {x y : Writing Unit} {tags tags' : List Tag} {tag : Tag}

theorem nil : Writes (pure ()) [] := rfl

theorem event : Writes (event tag) [tag] := by
  rw [Writes, List.forM_cons, List.forM_nil]
  exact (bind_pure _).symm

theorem seq (hx : Writes x tags) (hy : Writes y tags') : Writes (do x; y) (tags ++ tags') := by
  rw [Writes, List.forM_append, ← hx, ← hy]

theorem of_eq (hx : Writes x tags) (heq : tags = tags') : Writes x tags' :=
  heq ▸ hx

theorem before {z : Writing Unit} (hx : Writes x tags)
    (hy : y = (do ForM.forM tags' Writing.event; z)) :
    (do x; y) = (do ForM.forM (tags ++ tags') Writing.event; z) := by
  rw [List.forM_append, bind_assoc, ← hx, hy]

theorem forM {α : Type} {write : α → Writing Unit} {tagsOf : α → List Tag}
    (h : ∀ a, Writes (write a) (tagsOf a)) (items : List α) :
    Writes (forM items write) (items.flatMap tagsOf) := by
  induction items with
  | nil => exact nil
  | cons a items ih =>
      rw [List.forM_cons, List.flatMap_cons]
      exact (h a).seq ih

end Writes

theorem writes_startElement (name : Text) (attributes : List (Text × Text)) :
    Writes (startElement name attributes) [.start name attributes] :=
  .event

theorem writes_emptyElement (name : Text) (attributes : List (Text × Text)) :
    Writes (emptyElement name attributes) [.empty name attributes] :=
  .event

theorem writes_endElement (name : Text) : Writes (endElement name) [.close name] :=
  .event

theorem writes_textElement (name : Text) (attributes : List (Text × Text)) (t : Text) :
    Writes (textElement name attributes t) (Tag.element name attributes t) :=
  Writes.event.seq (Writes.event.seq Writes.event)

theorem writes_writeSteps (steps : List Step) :
    Writes (writeSteps steps) (treeTags steps) := by
  fun_induction treeTags steps with
  | case1 => rw [writeSteps]; exact .nil
  | case2 name steps ih => rw [writeSteps]; exact Writes.event.seq ih
  | case3 steps ih => rw [writeSteps]; exact Writes.event.seq ih
  | case4 steps n mark ih => rw [writeSteps]; exact (writes_textElement _ _ _).seq ih
  | case5 steps kind members mark ih => rw [writeSteps]; exact Writes.event.seq ih

theorem writes_writeModelTree (root : Content.Particle) :
    Writes (writeModelTree root) (treeTags [.tree root]) :=
  writes_writeSteps _

theorem writes_writeContentSpec (content : Content.Spec) :
    Writes (writeContentSpec content) (contentTags content) := by
  cases content with
  | empty => exact writes_emptyElement _ _
  | any => exact writes_emptyElement _ _
  | invalid raw message => exact writes_emptyElement _ _
  | mixed p =>
      exact (writes_startElement _ _).seq ((writes_writeModelTree p).seq (writes_endElement _))
  | children p =>
      exact (writes_startElement _ _).seq ((writes_writeModelTree p).seq (writes_endElement _))

theorem writes_writeElement (e : Element) : Writes (writeElement e) (elementTags e) :=
  Writes.event.seq ((writes_writeContentSpec e.content).seq .event)

theorem writes_writeAttribute (a : Attribute) :
    Writes (writeAttribute a) (attributeTags a) := by
  unfold writeAttribute attributeTags
  split
  · exact .event
  · have hvalues := Writes.forM (writes_textElement "value" []) a.kind.values
    exact Writes.event.seq (Writes.event.seq (hvalues.seq (Writes.event.seq Writes.event)))

theorem writes_writeExternalId (id : ExternalId) :
    Writes (writeExternalId id) (idTags id) := by
  unfold writeExternalId idTags
  cases id.publicId with
  | none =>
      cases id.systemId with
      | none => exact .nil
      | some t => exact writes_textElement _ _ t
  | some t =>
      cases id.systemId with
      | none => exact (writes_textElement _ _ t).seq .nil
      | some t' => exact (writes_textElement _ _ t).seq (writes_textElement _ _ t')

theorem writes_writeEntity (e : Entity) : Writes (writeEntity e) (entityTags e) := by
  unfold writeEntity entityTags definitionTags
  cases e.definition with
  | literal value => exact Writes.event.seq ((writes_textElement _ _ value).seq .event)
  | external id notationName =>
      have hid := writes_writeExternalId id
      cases notationName with
      | none =>
          exact ((writes_startElement _ _).seq (hid.seq (writes_endElement _))).of_eq (by simp)
      | some n =>
          have hname := writes_textElement "notation" [] n
          exact ((writes_startElement _ _).seq
            (hid.seq (hname.seq (writes_endElement _)))).of_eq (by simp)

theorem writes_writeNotation (n : NotationType) :
    Writes (writeNotation n) (notationTags n) := by
  unfold writeNotation notationTags
  split
  · exact .event
  · exact Writes.event.seq ((writes_writeExternalId n.id).seq .event)

theorem writes_writeComment (c : Comment) : Writes (writeComment c) (commentTags c) :=
  writes_textElement _ _ _

theorem writes_writeInstruction (i : Instruction) :
    Writes (writeInstruction i) (instructionTags i) :=
  writes_textElement _ _ _

theorem writes_writeBlock {α : Type} {write : α → Writing Unit} {tagsOf : α → List Tag}
    (h : ∀ a, Writes (write a) (tagsOf a)) (name : Text) (items : List α) :
    Writes (writeBlock name write items) (blockTags name tagsOf items) := by
  unfold writeBlock blockTags
  split
  · exact .event
  · exact Writes.event.seq ((Writes.forM h items).seq .event)

theorem writes_writeHead (d : Document) : Writes d.writeHead d.headTags := by
  unfold Document.writeHead Document.headTags
  cases d.title with
  | none =>
      cases d.filter with
      | none => exact .nil
      | some set => exact writes_emptyElement _ _
  | some title =>
      cases d.filter with
      | none => exact (writes_textElement _ _ title).seq .nil
      | some set => exact (writes_textElement _ _ title).seq (writes_emptyElement _ _)

/-- All tags are written, and then the line feed. -/
theorem writeAll_eq (d : Document) : d.writeAll = (do forM d.tags event; lineFeed) := by
  have helements := writes_writeBlock writes_writeElement "elements"
    (d.graph.elements.filter fun e => d.includes (.element e.name))
  have hattributes := writes_writeBlock writes_writeAttribute "attributes"
    (d.graph.attributes.filter fun a => d.includes (.attributeOf a.element a.name))
  have hparameter :=
    writes_writeBlock writes_writeEntity "parameterEntities" (d.entities .parameter)
  have hgeneral := writes_writeBlock writes_writeEntity "generalEntities" (d.entities .general)
  have hnotations := writes_writeBlock writes_writeNotation "notations"
    (d.graph.notations.filter fun n => d.includes (.notationType n.name))
  have hcomments := writes_writeBlock writes_writeComment "comments" d.graph.comments
  have hinstructions := writes_writeBlock writes_writeInstruction "processingInstructions"
    d.graph.instructions
  have hend : (do endElement "declarations"; lineFeed) =
      (do forM [.close "declarations"] event; lineFeed) :=
    congrArg (· >>= fun _ => lineFeed) (writes_endElement _)
  have hdeclaration : Writes (event .declaration) [.declaration] := .event
  have hall := hdeclaration.before <| (writes_startElement "declarations" []).before <|
    (writes_writeHead d).before <| helements.before <| hattributes.before <|
    hparameter.before <|
    hgeneral.before <| hnotations.before <| hcomments.before <| hinstructions.before hend
  refine hall.trans ?_
  simp only [Document.tags, Document.bodyTags, List.cons_append, List.nil_append,
    List.append_assoc]

/-! ### Runs over tags -/

theorem put_eq (t : Text) (e : Error) (w : Writer) : put t e w =
    if (w.sink.put t).2 then .ok () { w with sink := (w.sink.put t).1 }
    else .error e { w with sink := (w.sink.put t).1 } := by
  unfold put
  rcases w.sink.put t with ⟨sink, _ | _⟩ <;> rfl

theorem event_eq (tag : Tag) (w : Writer) : event tag w =
    put (w.layout.place tag).1 (.xml .full) { w with layout := (w.layout.place tag).2 } := rfl

/-- A run over tags puts their text. What comes behind it goes on if all of it is taken, and
otherwise the run fails. -/
theorem ending_run (tags : List Tag) (z : Writing Unit) (w : Writer) :
    ending ((do forM tags event; z) w) =
      if (w.sink.put (render w.layout tags)).2 then
        ending (z ⟨(w.sink.put (render w.layout tags)).1, w.layout.after tags⟩)
      else ((w.sink.put (render w.layout tags)).1, .error (.xml .full)) := by
  induction tags generalizing w with
  | nil => simp; rfl
  | cons tag tags ih =>
      have hrun : (do forM (tag :: tags) event; z : Writing Unit) w =
          EStateM.bind (event tag) (fun _ => do forM tags event; z) w := by
        rw [List.forM_cons, bind_assoc]
        rfl
      rw [hrun, render_cons, Sink.put_append]
      unfold EStateM.bind
      cases hwhole : (w.sink.put (w.layout.place tag).1).2 with
      | true =>
          simp only [event_eq, put_eq, hwhole, if_true]
          exact ih _
      | false => simp [event_eq, put_eq, hwhole, ending]

end Writing

/-! ### Documents -/

namespace Document

theorem print_eq_body (d : Document) : d.print = render .initial d.tags ++ ['\n'] :=
  print_eq_render d.tags

theorem length_toBytes_print (d : Document) : (Text.toBytes d.print).length =
    (Text.toBytes (render .initial d.tags)).length + 1 := by
  rw [print_eq_body, Sink.toBytes_append, List.length_append]
  rfl

/-- To write a document is to put its text. Where this ends tells which error there is. -/
theorem write_eq (d : Document) (s : Sink) :
    d.write s = ((s.put d.print).1,
      if (Text.toBytes d.print).length ≤ s.room then .ok ()
      else if (Text.toBytes d.print).length = s.room + 1 then .error (.io .full)
      else .error (.xml .full)) := by
  have hend : (Text.toBytes ['\n']).length = 1 := rfl
  rw [write, Writing.writeAll_eq, Writing.ending_run, length_toBytes_print, print_eq_body,
    Sink.put_append]
  generalize render .initial d.tags = body
  by_cases hbody : (Text.toBytes body).length ≤ s.room
  · simp only [Sink.put_eq, hend, hbody, decide_true, if_true, Writing.lineFeed,
      Writing.put_eq]
    by_cases hroom : 1 ≤ s.room - (Text.toBytes body).length
    · have hfits : (Text.toBytes body).length + 1 ≤ s.room := by omega
      simp [hroom, hfits, Writing.ending]
    · have hlast : (Text.toBytes body).length = s.room := by omega
      simp [hlast, Writing.ending]
  · have hfull : ¬(Text.toBytes body).length + 1 ≤ s.room := by omega
    have hmore : (Text.toBytes body).length ≠ s.room := by omega
    simp [Sink.put_eq, hbody, hfull, hmore]

theorem write_eq_ok_iff {d : Document} {s s' : Sink} :
    d.write s = (s', .ok ()) ↔ (Text.toBytes d.print).length ≤ s.room ∧
      s' = s.filled d.print := by
  rw [write_eq, Sink.put_eq, Prod.mk.injEq]
  by_cases hroom : (Text.toBytes d.print).length ≤ s.room
  · simp [hroom, Sink.filled, List.take_of_length_le hroom, eq_comm]
  · simp only [hroom, if_false, false_and, iff_false, not_and]
    intro _
    split <;> rintro ⟨⟩

/-- A writer takes the first bytes of a document, as many as it has room for. The document is
written exactly if this is all of it. Otherwise the XML writer fails, unless just the line feed
at the end is missing. -/
theorem write_truncated (d : Document) (s : Sink) :
    let bytes := Text.toBytes d.print
    (d.write s).1 = ⟨s.taken ++ bytes.take s.room, s.room - bytes.length⟩ ∧
      ((d.write s).2 = .ok () ↔ bytes.length ≤ s.room) ∧
      ((d.write s).2 = .error (.xml .full) ↔ s.room + 1 < bytes.length) ∧
      ((d.write s).2 = .error (.io .full) ↔ s.room + 1 = bytes.length) := by
  rw [write_eq, Sink.put_eq]
  dsimp only
  refine ⟨rfl, ?_⟩
  split
  · next hfits =>
    exact ⟨iff_of_true rfl hfits, iff_of_false nofun (by omega), iff_of_false nofun (by omega)⟩
  · next hfull =>
    split
    · next hend => exact ⟨iff_of_false nofun hfull, iff_of_false nofun (by omega),
        iff_of_true rfl hend.symm⟩
    · next hmore => exact ⟨iff_of_false nofun hfull, iff_of_true rfl (by omega),
        iff_of_false nofun (Ne.symm hmore)⟩

end Document
end Doctype.Xml
