import Doctype.Proofs.Xml.View
import Mathlib.Data.List.Basic

/-!
Narrowing a document to some declarations writes what the document of these declarations alone
writes, and one line more, which tells the roots (`Document.print_narrowed`).
-/

namespace Doctype

/-! ### The declarations in a set -/

def Graph.positionsIn (attributes : List Attribute) : List (Text × List Nat) :=
  attributes.zipIdx.foldl (fun positions a => Table.addTo a.1.element a.2 positions) []

def Graph.restrict (g : Graph) (s : ReachableSet) : Graph :=
  let attributes := g.attributes.filter fun a => s.contains (.attributeOf a.element a.name)
  { g with
    elements := g.elements.filter fun e => s.contains (.element e.name)
    attributes := attributes
    positions := positionsIn attributes
    generalEntities := g.generalEntities.filter fun e => s.contains (.entity .general e.name)
    parameterEntities :=
      g.parameterEntities.filter fun e => s.contains (.entity .parameter e.name)
    notations := g.notations.filter fun n => s.contains (.notationType n.name) }

namespace Graph

theorem keys_restrict (g : Graph) (s : ReachableSet) :
    (g.restrict s).keys = g.keys.filter s.contains := by
  simp only [keys, restrict, List.filter_append, List.filter_map, Function.comp_def]

theorem restrict_eq_self {g : Graph} {s : ReachableSet}
    (h : ∀ k ∈ g.keys, s.contains k = true) :
    g.restrict s = { g with positions := positionsIn g.attributes } := by
  simp only [keys, List.mem_append, List.mem_map, or_imp, forall_and,
    forall_exists_index, and_imp, forall_apply_eq_imp_iff₂] at h
  obtain ⟨⟨⟨⟨helements, hattributes⟩, hgeneral⟩, hparameter⟩, hnotations⟩ := h
  rw [restrict, List.filter_eq_self.2 helements, List.filter_eq_self.2 hattributes,
    List.filter_eq_self.2 hgeneral, List.filter_eq_self.2 hparameter,
    List.filter_eq_self.2 hnotations]

theorem restrict_everything (g : Graph) :
    g.restrict (.everything g) = { g with positions := positionsIn g.attributes } :=
  restrict_eq_self fun k hk => by
    simpa [ReachableSet.contains, ReachableSet.everything] using hk

end Graph

namespace Xml

/-! ### The beginning of a document -/

def front (title : Option Text) : Text :=
  "<?xml version=\"1.0\" encoding=\"UTF-8\"?>\n<declarations>".toList ++
    title.elim [] fun t => "\n  <title>".toList ++ escape t ++ "</title>".toList

def rootsLine (roots : List Text) : Text :=
  "  <reachability roots=\"".toList ++ escape (Text.join [' '] roots) ++ "\"/>".toList

/-- Whether a text is another one with one more line behind `front`. -/
def AddsLine (front line s t : Text) : Prop :=
  ∃ back, s = front ++ '\n' :: back ∧ t = front ++ '\n' :: (line ++ '\n' :: back)

def Layout.inner : Layout :=
  ⟨1, true⟩

theorem render_front (title : Option Text) (tags : List Tag) :
    render .initial (.declaration :: .start "declarations" [] ::
      (optionTags "title" title ++ tags)) = front title ++ render .inner tags := by
  have hopen : render .initial [.declaration, .start "declarations" []] = front none := by
    decide +kernel
  have hstart : (Layout.inner.place (.start "title" [])).1 = "\n  <title>".toList := by
    decide +kernel
  have hclose : (Tag.close "title").print = "</title>".toList := by decide +kernel
  have htitle : render .inner (optionTags "title" title ++ tags) =
      (title.elim [] fun t => "\n  <title>".toList ++ escape t ++ "</title>".toList) ++
        render .inner tags := by
    cases title with
    | none => rfl
    | some t =>
        rw [optionTags, Option.elim, render_element, hstart, hclose, Option.elim]
        simp only [List.append_assoc]
        rfl
  have hfront : front title = front none ++
      title.elim [] fun t => "\n  <title>".toList ++ escape t ++ "</title>".toList := by
    cases title <;> rfl
  rw [hfront, List.append_assoc, ← htitle, ← hopen]
  exact render_append .initial [.declaration, .start "declarations" []] _

theorem render_filterTags (roots : List Text) (tags : List Tag) :
    render .inner (filterTags (some (Text.join [' '] roots)) ++ tags) =
      '\n' :: (rootsLine roots ++ render .inner tags) := by
  have hline : rootsLine roots =
      "  <reachability roots=\"".toList ++ escape (Text.join [' '] roots) ++ "\"/>".toList :=
        rfl
  rw [hline]
  generalize Text.join [' '] roots = u
  have htag : render .inner (filterTags (some u) ++ tags) =
      Layout.inner.lineBreak ++ ('<' :: "reachability".toList ++
        ((' ' :: "roots".toList ++ "=\"".toList ++ escape u ++ ['"']) ++ []) ++ "/>".toList) ++
          render .inner tags := rfl
  have hbegin : Layout.inner.lineBreak ++ '<' :: ("reachability".toList ++
      ' ' :: ("roots".toList ++ "=\"".toList)) =
        '\n' :: "  <reachability roots=\"".toList := by
    decide +kernel
  have hend : "\"/>".toList = '"' :: "/>".toList := by decide +kernel
  rw [htag, hend]
  simpa only [List.append_assoc, List.cons_append, List.nil_append] using
    congrArg (· ++ (escape u ++ '"' :: ("/>".toList ++ render .inner tags))) hbegin

namespace Document

theorem exists_render_bodyTags (d : Document) (tags : List Tag) :
    ∃ u, render .inner (d.bodyTags ++ tags) = '\n' :: u := by
  unfold bodyTags
  simp only [List.append_assoc]
  cases d.graph.elements.filter fun e => d.includes (.element e.name) with
  | nil => exact ⟨_, rfl⟩
  | cons a as => exact ⟨_, rfl⟩

theorem print_eq (d : Document) : d.print = front d.title ++
    (render .inner (filterTags d.view.roots ++ (d.bodyTags ++ [.close "declarations"])) ++
      ['\n']) := by
  rw [← List.append_assoc, ← render_front, ← print_eq_render, print, tags, headTags_eq]
  simp only [List.cons_append, List.append_assoc]
  rfl

theorem bodyTags_restrict (g : Graph) (title : Option Text) (s : ReachableSet) :
    bodyTags ⟨g.restrict s, title, none⟩ = bodyTags ⟨g, title, some s⟩ := by
  simp only [bodyTags, Graph.restrict, entities, includes, Graph.entities, List.filter_true]

theorem print_restrict_everything (g : Graph) (title : Option Text) :
    print ⟨g.restrict (.everything g), title, none⟩ = print ⟨g, title, none⟩ := by
  rw [g.restrict_everything]
  rfl

theorem addsLine_print {g g' : Graph} {title : Option Text} {s : ReachableSet}
    (h : bodyTags ⟨g', title, none⟩ = bodyTags ⟨g, title, some s⟩) :
    AddsLine (front title) (rootsLine s.roots) (print ⟨g', title, none⟩)
      (print ⟨g, title, some s⟩) := by
  obtain ⟨u, hu⟩ := exists_render_bodyTags ⟨g, title, some s⟩ [.close "declarations"]
  refine ⟨u ++ ['\n'], ?_, ?_⟩
  · have hroots : filterTags (view ⟨g', title, none⟩).roots = [] := rfl
    rw [print_eq, hroots, List.nil_append, h, hu, List.cons_append]
  · have hroots : (view ⟨g, title, some s⟩).roots = some (Text.join [' '] s.roots) := rfl
    rw [print_eq, hroots, render_filterTags, hu]
    simp only [List.append_assoc, List.cons_append]

/-- Narrowed to a set, a document is written like that of the declarations in the set, with one
more line for the roots behind the title. If the set holds everything, all declarations are
written. -/
theorem print_narrowed (g : Graph) (title : Option Text) :
    (∀ s : ReachableSet, (g.restrict s).keys = g.keys.filter s.contains ∧
      AddsLine (front title) (rootsLine s.roots) (print ⟨g.restrict s, title, none⟩)
        (print ⟨g, title, some s⟩)) ∧
    AddsLine (front title) (rootsLine (ReachableSet.everything g).roots)
      (print ⟨g, title, none⟩) (print ⟨g, title, some (.everything g)⟩) := by
  have hrestrict (s : ReachableSet) := addsLine_print (bodyTags_restrict g title s)
  refine ⟨fun s => ⟨g.keys_restrict s, hrestrict s⟩, ?_⟩
  have heverything := hrestrict (.everything g)
  rwa [print_restrict_everything] at heverything

end Document
end Xml
end Doctype
