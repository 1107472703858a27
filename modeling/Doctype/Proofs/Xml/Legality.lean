import Doctype.Analysis
import Doctype.Proofs.Markup.Confinement
import Doctype.Proofs.Reachability.Roots
import Doctype.Proofs.Xml.Nesting

/-!
The characters of a document. What is written for a graph are its texts, escaped, between tags
whose names are legal (`Document.over_print`). So a document that is written for a source of
legal characters has no others than these and those that character references in its events
denote (`Source.legal_print`): references are decoded to any character that has a number, also
to one that may not stand in a document.
-/

namespace Doctype

namespace Xml

variable {A : Char → Prop}

/-! ### Tags -/

/-- The values and texts of a tag that is named as XML asks for are over the alphabet. -/
def Tag.Over (A : Char → Prop) : Tag → Prop
  | declaration => True
  | start name attributes => isOpening name attributes = true ∧ ValuesOver A attributes
  | empty name attributes => isOpening name attributes = true ∧ ValuesOver A attributes
  | close name => Text.isName name = true
  | text t => Text.Over A t

section Print

variable (hA : Covers A)
include hA

theorem over_escape {t : Text} (ht : Text.Over A t) : Text.Over A (escape t) := by
  have hchar (c : Char) (hc : A c) : Text.Over A (escapeChar c) := by
    fun_cases escapeChar c with
    | case6 => exact Text.over_nil.cons hc
    | _ => exact hA.text (by decide)
  intro d hd
  obtain ⟨c, hc, hd⟩ := List.mem_flatMap.1 hd
  exact hchar c (ht c hc) d hd

theorem over_printAttribute {p : Text × Text} (hname : Text.Over A p.1)
    (hvalue : Text.Over A p.2) : Text.Over A (printAttribute p) := by
  simp only [printAttribute, Text.over_append, Text.over_cons, Text.over_nil, and_true]
  exact ⟨⟨⟨⟨hA.char (by decide), hname⟩, hA.text (by decide)⟩, over_escape hA hvalue⟩,
    hA.char (by decide)⟩

theorem Tag.over_print {tag : Tag} (h : tag.Over A) : Text.Over A tag.print := by
  have hopening {name : Text} {attributes : List (Text × Text)}
    (hname : isOpening name attributes = true)
      (hvalues : ValuesOver A attributes) :
        Text.Over A ('<' :: name ++ attributes.flatMap printAttribute) := by
    obtain ⟨hname, hnames, -⟩ := isOpening_iff.1 hname
    refine .append ((hA.name hname).cons (hA.char (by decide))) fun c hc => ?_
    obtain ⟨p, hp, hc⟩ := List.mem_flatMap.1 hc
    exact over_printAttribute hA (hA.name (hnames p hp)) (hvalues p hp) c hc
  cases tag with
  | declaration => exact hA.text (by decide)
  | start name attributes => exact (hopening h.1 h.2).append (hA.text (by decide))
  | empty name attributes => exact (hopening h.1 h.2).append (hA.text (by decide))
  | close name =>
      exact .append (.append (hA.text (by decide)) (hA.name h)) (hA.text (by decide))
  | text t => exact over_escape hA h

theorem Layout.over_place (l : Layout) {tag : Tag} (h : tag.Over A) :
    Text.Over A (l.place tag).1 := by
  have hbreak (l : Layout) : Text.Over A l.lineBreak := by
    unfold lineBreak
    split
    · refine .cons (hA.char (by decide)) fun c hc => ?_
      rw [List.eq_of_mem_replicate hc]
      exact hA.char (by decide)
    · exact Text.over_nil
  cases tag with
  | text t => exact Tag.over_print hA h
  | _ => exact (hbreak _).append (Tag.over_print hA h)

/-- What is written for nested tags. -/
theorem Nested.over_render {tags : List Tag} (h : Nested (Plain A) tags) (l : Layout) :
    Text.Over A (render l tags) := by
  induction h generalizing l with
  | nil => exact Text.over_nil
  | @empty name attributes tags hplain _ ih =>
      have htag : (Tag.empty name attributes).Over A := ⟨hplain.opening, hplain.values⟩
      exact (l.over_place hA htag).append (ih _)
  | @element name attributes u tags hplain _ ih =>
      have hstart : (Tag.start name attributes).Over A := ⟨hplain.opening, hplain.values⟩
      have hclose : (Tag.close name).Over A := (isOpening_iff.1 hplain.opening).1
      rw [render_element]
      exact (l.over_place hA hstart).append
        ((over_escape hA hplain.filling).append ((Tag.over_print hA hclose).append (ih _)))
  | @enclosed name attributes inner tags hplain _ _ ihinner ih =>
      have hstart : (Tag.start name attributes).Over A := ⟨hplain.opening, hplain.values⟩
      have hclose : (Tag.close name).Over A := (isOpening_iff.1 hplain.opening).1
      rw [render_cons, render_append, render_cons]
      exact (l.over_place hA hstart).append
        ((ihinner _).append ((Layout.over_place hA _ hclose).append (ih _)))

/-- What is written of a document whose declarations, title and roots are over the alphabet. -/
theorem Document.over_print {d : Document} (hgraph : d.graph.Over A)
    (htitle : ∀ t ∈ d.title, Text.Over A t)
    (hroots : ∀ set ∈ d.filter, ∀ r ∈ set.roots, Text.Over A r) : Text.Over A d.print := by
  have hjoin : ∀ t ∈ d.view.roots, Text.Over A t := by
    intro t ht
    obtain ⟨set, hset, rfl⟩ := Option.map_eq_some_iff.1 ht
    exact .join (hA.text (by decide)) (hroots set hset)
  obtain ⟨root, hwritten, htags⟩ := exists_tags hgraph htitle hjoin
  have hroot : Nested (Plain A) root := hwritten.mono (Written.plain hA)
  have hdeclaration : Tag.declaration.Over A := trivial
  rw [print, print_eq_render, htags, render_cons]
  exact .append (.append (Layout.over_place hA _ hdeclaration) (hroot.over_render hA _))
    (hA.text (by decide))

end Print
end Xml

/-! ### Sources -/

theorem Analysis.roots_of_mem_filter {o : Options} {log : Log} {set : ReachableSet}
    (h : set ∈ (ofLog o log).document.filter) : set.roots = o.roots := by
  have hinserted := Graph.inserted_build o.limits log.events
  have hreach := reach_eq (Graph.build o.limits log.events).graph o.roots
    (Graph.build o.limits log.events).findings
  have hreachable : (Graph.build o.limits log.events).graph.reachable o.roots = .ok set :=
    toOption_eq_some_iff.1 ((congrArg Prod.fst hreach).symm.trans h)
  rw [Graph.eq_closure_of_reachable hreachable]
  exact (Graph.searching_closure hinserted o.roots).reached.roots_eq

theorem Source.legal_ofText (kind : Kind) {t : Text} (ht : t.all isLegal = true) :
    (ofText kind t).text.all isLegal = true := by
  have hover : Text.Over (isLegal · = true) t := List.all_eq_true.1 ht
  exact List.all_eq_true.2 (hover.normalizeLineEndings (by decide))

theorem Resolver.legal_ofCatalog {catalog : List (Text × Text)}
    (h : ∀ p ∈ catalog, p.2.all isLegal = true) {asked : List Request} {request : Request}
    {r : Resource} (hr : (ofCatalog catalog).answer asked request = .ok r) :
    r.text.all isLegal = true := by
  obtain ⟨location, -, hr⟩ := Content.bind_eq_ok_iff.1 hr
  split at hr
  · next text hlookup =>
    cases hr
    obtain ⟨before, after, rfl, -⟩ := List.lookup_eq_some_iff.1 hlookup
    exact h (location.print, text) (by simp)
  · cases hr

/-- A document that is written for a source of legal characters, with external texts, a title
and roots of legal characters, has no others than these and those that a character reference in
an event of the source denotes. -/
theorem Source.legal_print {s : Source} {resolver : Resolver} {limits : Limits} {log : Log}
    (h : s.collect resolver limits = .ok log) (o : Analysis.Options)
    (htext : s.text.all isLegal = true)
    (hresolver : ∀ asked request r, resolver.answer asked request = .ok r →
      r.text.all isLegal = true)
    (htitle : ∀ t ∈ o.title, t.all isLegal = true)
    (hroots : ∀ r ∈ o.roots, r.all isLegal = true) :
    ∀ c ∈ (Analysis.ofLog o log).document.print, isLegal c = true ∨
      ∃ e ∈ log.events, e.Denotes c := by
  let A (c : Char) : Prop := isLegal c = true ∨ ∃ e ∈ log.events, e.Denotes c
  have hA : Covers A := fun c hc => .inl hc
  have hclean : ∀ e ∈ log.events, e.Clean A := fun e he c hc => .inr ⟨e, he, hc⟩
  have hevents : ∀ e ∈ log.events, e.Over A :=
    Source.over_collect hA h (hA.text htext)
      (fun {_ _ _} hr => hA.text (hresolver _ _ _ hr)) hclean
  have hgraph : (Analysis.ofLog o log).document.graph.Over A :=
    Graph.over_build hA hevents hclean
  refine Xml.Document.over_print hA hgraph (fun t ht => hA.text (htitle t ht))
    fun set hset r hr => ?_
  rw [Analysis.roots_of_mem_filter hset] at hr
  exact hA.text (hroots r hr)

/-- A reference to a control character in the literal of an entity brings that character into
the document. -/
theorem Source.legal_print_control :
    let s := Source.ofText .dtd "<!ENTITY e \"&#1;\">"
    s.text.all isLegal = true ∧ isLegal '\u0001' = false ∧
      ∃ log, s.collect (.ofCatalog []) .standard = .ok log ∧
        '\u0001' ∈ (Analysis.ofLog ⟨none, [], .standard⟩ log).document.print := by
  intro s
  let events : List Event := [.entity .general ['e'] "\"&#1;\""]
  have hevents : (s.collect (.ofCatalog []) .standard).toOption.map Log.events =
    some events := by decide +kernel
  have hprint : '\u0001' ∈
      (Analysis.ofLog ⟨none, [], .standard⟩ ⟨events, false⟩).document.print := by
    decide +kernel
  obtain ⟨log, hlog, hlogged⟩ := Option.map_eq_some_iff.1 hevents
  have hsame : (Analysis.ofLog ⟨none, [], .standard⟩ log).document =
      (Analysis.ofLog ⟨none, [], .standard⟩ ⟨events, false⟩).document := by
    rw [Analysis.document, Analysis.ofLog, hlogged]
    rfl
  exact ⟨by decide, by decide, log, toOption_eq_some_iff.1 hlog, hsame ▸ hprint⟩

/-- A document with a title, a root and an external subset in which a reference to a tab
stands. -/
theorem Source.legal_print_externalSubset :
    let s := Source.ofText .document "<!DOCTYPE r SYSTEM \"/x\" [<!ELEMENT r EMPTY>]>"
    let resolver := Resolver.ofCatalog [("/x", "<!ATTLIST r a CDATA 'b&#9;c'>")]
    let o : Analysis.Options := ⟨some "t", [['r']], .standard⟩
    ∃ log, s.collect resolver .standard = .ok log ∧
      ∀ c ∈ (Analysis.ofLog o log).document.print, isLegal c = true ∨
      ∃ e ∈ log.events, e.Denotes c := by
  intro s resolver o
  have hevents : (s.collect resolver .standard).toOption.isSome = true := by decide +kernel
  obtain ⟨log, hlog⟩ := Option.isSome_iff_exists.1 hevents
  have hcollect := toOption_eq_some_iff.1 hlog
  refine ⟨log, hcollect,
    Source.legal_print hcollect o (legal_ofText _ (by decide)) (fun _ _ _ hr => ?_) ?_ ?_⟩
  · exact Resolver.legal_ofCatalog (by decide) hr
  · decide
  · decide

end Doctype
