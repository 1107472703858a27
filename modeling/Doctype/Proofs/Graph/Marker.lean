import Doctype.Proofs.Content.Blanks
import Doctype.Proofs.Graph.Alphabet

/-!
The markers of content models that could not be read (`Graph.marker_build`). The message of a
marker is the one of the text as declared, but the text that it holds is trimmed. Blanks make
no difference to a content model, so that text has the same fault; white space that is not
blank makes one (`Graph.build_noBreakSpace`).
-/

namespace Doctype

namespace Content

variable {bound : Nat}

theorem faultOnly_eq_error_iff {α : Type} {x : Except Failure α} {fault : Fault} :
    faultOnly x = .error fault ↔ ∃ failure, x = .error failure ∧ failure.fault = fault := by
  cases x <;> simp [faultOnly, Except.mapError]

theorem Spec.parseFor_eq_error {element raw : Text} {failure : Failure}
    (h : Spec.parse bound raw = .error failure) :
    Spec.parseFor element bound raw = .error ⟨element, raw, failure⟩ := by
  rw [parseFor, h]
  rfl

theorem Spec.ofRaw_eq_invalid {text raw message : Text}
    (h : Spec.ofRaw bound text = .invalid raw message) :
    ∃ failure, Spec.parse bound text = .error failure ∧ raw = Text.trim text ∧
      message = failure.fault.message := by
  unfold ofRaw at h
  split at h
  · next spec hparse =>
    have hregular := Spec.regular_of_parse hparse
    rw [h] at hregular
    cases hregular
  · next failure hparse =>
    cases h
    exact ⟨failure, hparse, rfl, rfl⟩

theorem Spec.exists_parse_trimBy {text : Text} {failure : Failure}
    (h : Spec.parse bound text = .error failure) :
    ∃ failure', Spec.parse bound (Text.trimBy isBlank text) = .error failure' ∧
      failure'.fault = failure.fault := by
  obtain ⟨a, b, htext, ha, hb⟩ := Text.exists_append_trimBy isBlank text
  have hfault : faultOnly (Spec.parse bound text) =
      faultOnly (Spec.parse bound (Text.trimBy isBlank text)) := by
    conv_lhs => rw [htext]
    exact Spec.faultOnly_parse_blanks ha hb
  rw [h] at hfault
  exact faultOnly_eq_error_iff.1 hfault.symm

end Content

namespace Graph

variable {limits : Limits} {events : List Event}

theorem exists_mem_elements_build (limits : Limits) {n raw : Text}
    (h : (events.filterMap (·.contentModel? n)).getLast? = some raw) :
    ∃ e ∈ (build limits events).graph.elements, e.name = n ∧
      e.content = .ofRaw limits.contentModelDepth raw := by
  have hcontent := content_build limits events n
  rw [h] at hcontent
  obtain ⟨e, hfind, hcontent⟩ := Option.map_eq_some_iff.1 hcontent
  obtain ⟨he, hname⟩ :=
    (Table.find?_eq_some_iff (inserted_build limits events).keyed.elements).1 hfind
  exact ⟨e, he, hname, hcontent⟩

/-- An element with a marker has a last content model that cannot be read, and the marker says
what is wrong with that text as declared. It holds the text without the white space around it.
Where this is no more than the blanks around it, the text that it holds cannot be read either,
and has the same message. -/
theorem marker_build {e : Element} {raw message : Text}
    (he : e ∈ (build limits events).graph.elements)
    (hmarker : e.content = .invalid raw message) :
    ∃ text failure, (events.filterMap (·.contentModel? e.name)).getLast? = some text ∧
      Content.Spec.parseFor e.name limits.contentModelDepth text =
        .error ⟨e.name, text, failure⟩ ∧
      message = failure.fault.message ∧ raw = Text.trim text ∧
      (Text.trimBy isBlank text = raw → ∃ failure',
        Content.Spec.parseFor e.name limits.contentModelDepth raw =
          .error ⟨e.name, raw, failure'⟩ ∧
        failure'.fault.message = message) := by
  obtain ⟨text, hlast, hcontent⟩ := contentModel_of_mem_elements he
  obtain ⟨failure, hparse, hraw, hmessage⟩ :=
    Content.Spec.ofRaw_eq_invalid (hcontent.symm.trans hmarker)
  refine ⟨text, failure, hlast, Content.Spec.parseFor_eq_error hparse, hmessage, hraw,
    fun htrim => ?_⟩
  obtain ⟨failure', hparse', hfault⟩ := Content.Spec.exists_parse_trimBy hparse
  rw [htrim] at hparse'
  exact ⟨failure', Content.Spec.parseFor_eq_error hparse', by rw [hfault, hmessage]⟩

/-- A group in a group where only one is allowed, declared behind a model that can be read. -/
theorem marker_build_tooDeep :
    let limits : Limits := { Limits.standard with contentModelDepth := 1 }
    let events : List Event := [.element "e" "EMPTY", .element "e" "\n ((a)) "]
    let message : Text := "groups nested deeper than 1"
    ∃ e ∈ (build limits events).graph.elements, e.name = "e".toList ∧
      e.content = .invalid "((a))" message ∧
      ∃ failure, Content.Spec.parseFor "e" 1 "((a))" = .error ⟨"e", "((a))", failure⟩ ∧
        failure.fault.message = message := by
  intro limits events message
  have htokens : Content.tokens "\n ((a)) " =
      .ok [⟨2, .leftParen⟩, ⟨3, .leftParen⟩, ⟨4, .name "a"⟩, ⟨5, .rightParen⟩,
        ⟨6, .rightParen⟩] := by decide +kernel
  have hmodel : Content.Spec.ofRaw 1 "\n ((a)) " = .invalid "((a))" message := by
    rw [Content.Spec.ofRaw, Content.Spec.parse_eq_ofTokens htokens]
    rfl
  have hlast : (events.filterMap (·.contentModel? "e")).getLast? =
    some "\n ((a)) ".toList := by decide
  obtain ⟨e, he, hname, hcontent⟩ := exists_mem_elements_build limits hlast
  have hmarker : e.content = .invalid "((a))" message := hcontent.trans hmodel
  obtain ⟨text, failure, hlast', -, -, -, hfaithful⟩ := marker_build he hmarker
  rw [hname, hlast] at hlast'
  cases hlast'
  rw [hname] at hfaithful
  exact ⟨e, he, hname, hmarker, hfaithful (by decide)⟩

/-- A no-break space is white space and no blank. So the marker of `EMPTY` with one behind it
holds `EMPTY`, which can be read. -/
theorem build_noBreakSpace :
    (∃ e ∈ (build .standard [.element "e" "EMPTY\u00a0"]).graph.elements, e.name = "e".toList ∧
      e.content = .invalid "EMPTY" "unexpected character '\u00a0'") ∧
      Content.Spec.parseFor "e" Limits.standard.contentModelDepth "EMPTY" = .ok .empty := by
  have htokens : Content.tokens "EMPTY\u00a0" =
      .error ((Content.Fault.unexpectedChar '\u00a0').at 5) := by
    decide +kernel
  have hmodel : Content.Spec.ofRaw Limits.standard.contentModelDepth "EMPTY\u00a0" =
      .invalid "EMPTY" "unexpected character '\u00a0'" := by
    unfold Content.Spec.ofRaw Content.Spec.parse
    rw [htokens]
    rfl
  have hlast : ([Event.element "e" "EMPTY\u00a0"].filterMap (·.contentModel? "e")).getLast? =
      some "EMPTY\u00a0".toList := by decide
  obtain ⟨e, he, hname, hcontent⟩ := exists_mem_elements_build .standard hlast
  exact ⟨⟨e, he, hname, hcontent.trans hmodel⟩, rfl⟩

end Graph
end Doctype
