import Doctype.Proofs.Xml.Nesting
import Doctype.Proofs.Xml.Writing

/-!
Writing a document loses nothing of what it shows (`Document.view_eq_of_write`). The bytes
determine the written text, the text determines the tags, since it is known from its name and
attributes whether an element holds text (`holdsText`, `Document.regular_tags`), and the tags
determine what is shown.
-/

namespace Doctype.Xml

/-- Whether an element holds text. A notation does in the declaration of an entity, where it
has no attributes, but not as a declaration of its own. -/
def holdsText (name : Text) (attributes : List (Text × Text)) : Bool :=
  let names : List Text := ["title", "child", "value", "publicId", "systemId", "comment", "pi"]
  names.contains name || (name = "notation" && attributes.isEmpty)

/-- An element is well named, and holds text if its name and attributes say so. -/
structure Held (name : Text) (attributes : List (Text × Text)) (filling : Filling) : Prop where
  named : (Tag.start name attributes).isNamed = true
  text : holdsText name attributes = filling.isText

theorem Written.held {A : Char → Prop} {name : Text} {attributes : List (Text × Text)}
    {filling : Filling} (h : Written A name attributes filling) :
    Held name attributes filling := by
  cases h with
  | part h =>
      cases h with
      | child mark _ => exact ⟨by cases mark <;> rfl, by cases mark <;> rfl⟩
      | pcdata => exact ⟨rfl, rfl⟩
      | group kind mark =>
          exact ⟨by cases kind <;> cases mark <;> rfl, by cases kind <;> cases mark <;> rfl⟩
      | model _ hfilling => exact ⟨rfl, hfilling.symm⟩
      | invalid _ _ => exact ⟨rfl, rfl⟩
      | enumeration => exact ⟨rfl, rfl⟩
      | text hname _ =>
          have hnames : ∀ n ∈ textNames, (Tag.start n []).isNamed = true ∧
              holdsText n [] = true := by
            decide
          obtain ⟨hnamed, htext⟩ := hnames name hname
          exact ⟨hnamed, htext⟩
  | element _ => exact ⟨rfl, rfl⟩
  | @attributeOf a _ _ hfilling =>
      obtain ⟨element, name, kind, default, references, order⟩ := a
      cases default <;> exact ⟨rfl, hfilling.symm⟩
  | entity _ => exact ⟨rfl, rfl⟩
  | notationType _ hfilling => exact ⟨rfl, hfilling.symm⟩
  | comment _ => exact ⟨rfl, rfl⟩
  | instruction _ _ => exact ⟨rfl, rfl⟩
  | block hname hfilling =>
      have hnames : ∀ n ∈ blockNames, (Tag.start n []).isNamed = true ∧
          holdsText n [] = false := by
        decide
      obtain ⟨hnamed, htext⟩ := hnames name hname
      exact ⟨hnamed, htext.trans hfilling.symm⟩
  | title _ => exact ⟨rfl, rfl⟩
  | filter _ => exact ⟨rfl, rfl⟩

theorem Nested.regular {tags : List Tag} (h : Nested Held tags) : Regular holdsText tags := by
  induction h with
  | nil => exact .nil
  | empty hheld _ ih => exact .other hheld.named (by simp) ih
  | element hheld _ ih => exact .element hheld.named hheld.text ih
  | @enclosed name _ _ _ hheld _ _ ihinner ih =>
      have hclose : (Tag.close name).isNamed = true :=
        (Bool.and_eq_true_iff.1 hheld.named).1
      exact .start hheld.named hheld.text (ihinner.append (.other hclose (by simp) ih))

/-- In a document it is known which elements hold text. -/
theorem Document.regular_tags (d : Document) : Regular holdsText d.tags := by
  obtain ⟨root, hroot, htags⟩ := d.exists_tags_of_forall
  rw [htags]
  exact .other rfl (by simp) (hroot.mono Written.held).regular

/-! ### Documents -/

theorem Document.tags_eq_of_print_eq {d d' : Document} (h : d.print = d'.print) :
    d.tags = d'.tags := by
  rw [print, print, print_eq_render, print_eq_render] at h
  exact d.regular_tags.render_inj d'.regular_tags .initial (List.append_cancel_right h)

/-- Two documents of which the same bytes are written show the same. -/
theorem Document.view_eq_of_write {d d' : Document} {s s' t t' : Sink} {bytes : List UInt8}
    (hwrite : d.write s = (t, .ok ())) (hwrite' : d'.write s' = (t', .ok ()))
    (hbytes : t.taken = s.taken ++ bytes) (hbytes' : t'.taken = s'.taken ++ bytes) :
    d.view = d'.view := by
  have hprint {d : Document} {s t : Sink} (hwrite : d.write s = (t, .ok ()))
      (hbytes : t.taken = s.taken ++ bytes) : Text.toBytes d.print = bytes := by
    obtain ⟨-, rfl⟩ := write_eq_ok_iff.1 hwrite
    simpa [Sink.filled, ← Array.toList_inj] using hbytes
  have heq : Text.toBytes d.print = Text.toBytes d'.print :=
    (hprint hwrite hbytes).trans (hprint hwrite' hbytes').symm
  -- from the bytes to the text, to the tags, to what is shown
  exact view_eq_of_tags_eq (tags_eq_of_print_eq (Text.toBytes_injective heq))

/-- A notation that the filter leaves out does not show: with it and without it the same is
written. -/
theorem Document.view_eq_of_write_hiddenNotation :
    let model : Content.Particle :=
      .group .choice [.name ['b'] none, .name ['c'] (some .optional)] none
    let shown : Graph := { Graph.empty with
      elements := [⟨['a'], .children model, 1⟩]
      comments := [⟨" <\"\n".toList, 2⟩] }
    let set : ReachableSet := ⟨[['a']], [.element ['a']]⟩
    let d : Document := ⟨{ shown with notations := [⟨['n'], .none, 3⟩] }, some [], some set⟩
    let d' : Document := ⟨shown, some [], some set⟩
    let s : Sink := ⟨#[], 1000⟩
    let bytes := Text.toBytes d'.print
    d.write s = (s.filled d.print, .ok ()) ∧ d'.write s = (s.filled d'.print, .ok ()) ∧
      (s.filled d.print).taken = s.taken ++ bytes ∧
      (s.filled d'.print).taken = s.taken ++ bytes ∧
      d.view = d'.view := by
  intro model shown set d d' s bytes
  have hprint : d.print = d'.print := rfl
  have hroom : (Text.toBytes d'.print).length ≤ s.room := by decide +kernel
  have hwrite : d.write s = (s.filled d.print, .ok ()) :=
    write_eq_ok_iff.2 ⟨by rwa [hprint], rfl⟩
  have hwrite' : d'.write s = (s.filled d'.print, .ok ()) := write_eq_ok_iff.2 ⟨hroom, rfl⟩
  have hbytes : (s.filled d.print).taken = s.taken ++ bytes := by rw [hprint]; rfl
  have hbytes' : (s.filled d'.print).taken = s.taken ++ bytes := rfl
  exact ⟨hwrite, hwrite', hbytes, hbytes', view_eq_of_write hwrite hwrite' hbytes hbytes'⟩

end Doctype.Xml
