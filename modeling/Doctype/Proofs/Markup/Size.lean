import Doctype.Proofs.Markup.Excerpts

/-!
Sizes in bytes. The texts of a declaration are parts of its body, so together they are at most
as long (`DeclarationKind.size_le_of_read`), and a character reference has at least as many
bytes as the character that it denotes (`Reference.size_expandChars_le`); so what a parameter
entity is replaced by is no longer than its definition
(`Replacement.size_le_of_ofDefinition?`).
-/

namespace Doctype

namespace Text

theorem length_le_size (t : Text) : t.length ≤ size t := by
  induction t with
  | nil => exact Nat.le_refl 0
  | cons c t ih =>
      have hc := c.utf8Size_pos
      rw [List.length_cons, size_cons]
      omega

theorem size_le_of_infix {u t : Text} (h : u <:+: t) : size u ≤ size t := by
  obtain ⟨a, b, rfl⟩ := h
  rw [size_append, size_append]
  omega

theorem trim_infix (t : Text) : trim t <:+: t := by
  obtain ⟨a, b, ht, -, -⟩ := exists_append_trimBy isWhiteSpace t
  exact ⟨a, b, ht.symm⟩

end Text

namespace Reference

theorem size_reference (body rest : Text) :
    Text.size ('&' :: (body ++ ';' :: rest)) = Text.size body + 2 + Text.size rest := by
  have hmark : '&'.utf8Size = 1 ∧ ';'.utf8Size = 1 := by decide
  simp only [Text.size_cons, Text.size_append, hmark.1, hmark.2]
  omega

theorem size_of_decode {body : Text} {c : Char} (h : decode body = some c) :
    c.utf8Size ≤ Text.size body + 2 := by
  have hlength : 2 ≤ body.length := by
    unfold decode at h
    split at h
    · simp only [List.length_cons]
      omega
    · next digits _ =>
      cases digits with
      | nil => cases h
      | cons d digits => simp
    · cases h
  have hbody := Text.length_le_size body
  have hc := c.utf8Size_le_four
  omega

theorem size_of_char? {t rest : Text} {c : Char} (h : char? t = some (c, rest)) :
    c.utf8Size + Text.size rest ≤ Text.size ('&' :: t) := by
  obtain ⟨body, rfl, -, -, hdecode⟩ := exists_of_char?_eq_some h
  rw [size_reference]
  exact Nat.add_le_add_right (size_of_decode hdecode) _

theorem size_expandChars_le (t : Text) : Text.size (expandChars t) ≤ Text.size t := by
  induction t using chars_induction with
  | nil => simp
  | reference t c rest h ih =>
      have hsize := size_of_char? h
      rw [expandChars_of_char? h, Text.size_cons]
      omega
  | ampersand t h ih =>
      rw [expandChars_ampersand h, Text.size_cons, Text.size_cons]
      omega
  | cons c t hc ih =>
      rw [expandChars_cons hc, Text.size_cons, Text.size_cons]
      omega

end Reference

theorem Lexer.infix_of_quoted {t v rest : Text} (h : quoted t = .ok (v, rest)) : v <:+: t := by
  unfold quoted at h
  split at h
  · cases h
  · next q t =>
    split at h
    · split at h
      · cases h
      · cases h
        exact (List.takeWhile_prefix _).isInfix.trans (List.suffix_cons q t).isInfix
    · cases h

/-- A literal is a part of the definition. -/
theorem Entity.Definition.infix_of_parse {t value : Text}
    (h : parse t = .ok (.literal value)) : value <:+: t := by
  unfold parse Lexer.whole at h
  split at h
  · cases h
  · next d rest hread =>
    split at h
    · cases h
      unfold read at hread
      split at hread
      · obtain ⟨⟨v, u⟩, hquoted, hread⟩ := Lexer.bind_eq_ok hread
        cases hread
        exact (Lexer.infix_of_quoted hquoted).trans (Text.skipBlanks_suffix t).isInfix
      · obtain ⟨⟨id, u⟩, -, hread⟩ := Lexer.bind_eq_ok hread
        obtain ⟨⟨n, u⟩, -, hread⟩ := Lexer.bind_eq_ok hread
        cases hread
    · cases h

def Event.size (e : Event) : Nat :=
  Text.size e.texts.flatten

namespace Markup

theorem Replacement.size_le_of_ofDefinition? {base : Option Location}
    {definition text : Text} (h : ofDefinition? base definition = some (.internal text)) :
    Text.size text ≤ Text.size definition := by
  unfold ofDefinition? at h
  split at h
  · next value hparse =>
    cases h
    exact (Reference.size_expandChars_le value).trans
      (Text.size_le_of_infix (Entity.Definition.infix_of_parse hparse))
  · cases h
  · cases h

theorem DeclarationKind.size_event (kind : DeclarationKind) (scope : Scope)
    (name definition : Text) :
    (kind.event scope name definition).size = Text.size name + Text.size definition := by
  have htexts : (kind.event scope name definition).texts = [name, definition] := by
    cases kind <;> rfl
  unfold Event.size
  rw [htexts, List.flatten_cons, List.flatten_singleton, Text.size_append]

/-- The event that a body tells is no longer than the body. -/
theorem DeclarationKind.size_le_of_read {kind : DeclarationKind} {t : Text} {e : Event}
    (h : kind.read t = .ok e) : e.size ≤ Text.size t := by
  have hnamed (scope : Scope) {u name rest : Text} (hu : u <:+ t)
      (hname : Text.name? u = some (name, rest)) :
      (kind.event scope name (Text.trim rest)).size ≤ Text.size t := by
    have hsplit := congrArg Text.size (Text.name?_eq_some hname).1
    have htrim := Text.size_le_of_infix (Text.trim_infix rest)
    have hbody := Text.size_le_of_infix hu.isInfix
    rw [Text.size_append] at hsplit
    rw [size_event]
    omega
  have hblanks := Text.skipBlanks_suffix t
  unfold read at h
  dsimp only at h
  split at h
  · obtain ⟨⟨scope, rest⟩, hscope, h⟩ := Content.bind_eq_ok_iff.1 h
    split at h
    · next hname =>
      cases h
      exact hnamed scope ((readScope_suffix hscope).trans hblanks) hname
    · cases h
  · obtain ⟨p, hp, h⟩ := Content.bind_eq_ok_iff.1 h
    cases hp
    split at h
    · next hname =>
      cases h
      exact hnamed .general hblanks hname
    · cases h

end Markup
end Doctype
