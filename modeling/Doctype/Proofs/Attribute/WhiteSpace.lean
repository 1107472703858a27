import Doctype.Proofs.Attribute.Nesting
import Doctype.Proofs.Reference.Characters

/-!
White space in normal forms. Every blank of a text becomes a space, so a tab, a line feed or a
carriage return of a normal form was let through by a reference: by one that denotes it, or by
one that denotes no character and is copied with all that stands in it
(`controlBlanks_normalize`). Splitting into tokens leaves these blanks where they are
(`filter_collapse`).
-/

namespace Doctype

namespace Text

variable {p : Char → Bool}

theorem filter_join (hp : p ' ' = false) (ws : List Text) :
    (join [' '] ws).filter p = ws.flatMap (List.filter p) := by
  induction ws with
  | nil => rfl
  | cons w ws ih =>
      cases ws with
      | nil => simp [join]
      | cons v ws =>
          have hspace : [' '].filter p = [] := by simp [hp]
          rw [join_cons_cons, List.filter_append, List.filter_append, hspace,
            List.append_nil, ih]
          rfl

theorem filter_splitBy (hp : p ' ' = false) (t : Text) :
    (splitBy (· = ' ') t).flatMap (List.filter p) = t.filter p := by
  induction t with
  | nil => rfl
  | cons c t ih =>
      obtain ⟨part, parts, ht, hct⟩ := splitBy_cons (fun c => decide (c = ' ')) c t
      rw [ht, List.flatMap_cons] at ih
      rw [hct]
      split
      · next hc =>
        have hspace : p c = false := by rwa [of_decide_eq_true hc]
        rw [List.filter_cons_of_neg (by simp [hspace])]
        exact ih
      · rw [List.flatMap_cons, List.filter_cons]
        split
        · rw [List.filter_cons_of_pos ‹_›, List.cons_append, ih]
        · rw [List.filter_cons_of_neg ‹_›, ih]

theorem flatMap_filter_isEmpty (p : Char → Bool) (ws : List Text) :
    (ws.filter (! ·.isEmpty)).flatMap (List.filter p) = ws.flatMap (List.filter p) := by
  induction ws with
  | nil => rfl
  | cons w ws ih =>
      cases w with
      | nil => exact ih
      | cons c w =>
          rw [List.filter_cons_of_pos rfl, List.flatMap_cons, List.flatMap_cons, ih]

end Text

namespace Attribute.Value

variable {g : Graph} {limits : Limits} {t u raw n : Text} {c : Char} {piece : Piece}
  {ps : List Piece}
  {x : Expansion}

def isControlBlank (c : Char) : Bool :=
  isBlank c && c ≠ ' '

/-- Splitting into tokens takes nothing but spaces away. -/
theorem filter_collapse {p : Char → Bool} (hp : p ' ' = false) (t : Text) :
    (collapse t).filter p = t.filter p := by
  rw [collapse, Text.filter_join hp, Text.flatMap_filter_isEmpty, Text.filter_splitBy hp]

/-! ### Pieces -/

def Piece.controlBlanks : Piece → Text
  | .denoted c => [c].filter isControlBlank
  | .verbatim t => t.filter isControlBlank
  | .literal _ => []
  | .reference _ => []

/-- `CopiesIn t c`: a character reference that denotes no character stands in the text, with
the character `c` in it. -/
def CopiesIn (t : Text) (c : Char) : Prop :=
  ∃ before body after, t = before ++ '&' :: (body ++ ';' :: after) ∧ ';' ∉ body ∧
    body.head? = some '#' ∧
    Reference.decode body = none ∧ c ∈ body

theorem filter_writeReference (hname : Text.isName n = true) :
    (writeReference n).filter isControlBlank = [] := by
  rw [List.filter_eq_nil_iff]
  intro c hc
  have hmem : c = '&' ∨ c ∈ n ∨ c = ';' := by simpa [writeReference] using hc
  rcases hmem with rfl | hc | rfl
  · decide
  · simp [isControlBlank, isBlank_eq_false_of_mem_name hname hc]
  · decide

theorem filter_written (h : piece ∈ pieces t) :
    piece.written.filter isControlBlank = piece.controlBlanks := by
  cases piece with
  | literal c =>
      show [if isBlank c then ' ' else c].filter isControlBlank = []
      split
      · rfl
      · next hc => simp [isControlBlank, hc]
  | denoted c => rfl
  | verbatim t => rfl
  | reference n => exact filter_writeReference ((segments_pieces t).reference_mem h).1

theorem isControlBlank_of_predefined? {name : Text} (h : predefined? name = some c) :
    isControlBlank c = false := by
  have hall : ∀ e ∈ predefined, isControlBlank e.2 = false := by decide
  exact hall _ (predefined?_eq_some_iff.1 h)

/-- A control blank that a piece lets through is denoted by a reference in the text, or copied
with one. -/
theorem origin_of_mem_controlBlanks (h : piece ∈ pieces t) (hc : c ∈ piece.controlBlanks) :
    Reference.Denotes t c ∨ CopiesIn t c := by
  rcases exists_of_mem_pieces h with ⟨d, -, rfl⟩ | ⟨before, body, after, ht, hbody, hpiece⟩
  · cases hc
  · rcases Piece.ofBody?_cases hpiece with
      ⟨hhead, ⟨d, hdecode, rfl⟩ | ⟨hnone, rfl⟩⟩ | ⟨-, -, ⟨d, hpredefined, rfl⟩ | ⟨-, rfl⟩⟩
    · obtain rfl : c = d := List.mem_singleton.1 (List.mem_of_mem_filter hc)
      exact .inl ⟨before, body, after, ht, hbody, hdecode⟩
    · obtain ⟨hmem, hblank⟩ := List.mem_filter.1 hc
      have hmem : c = '&' ∨ c ∈ body ∨ c = ';' := by simpa [writeReference] using hmem
      rcases hmem with rfl | hmem | rfl
      · cases hblank
      · exact .inr ⟨before, body, after, ht, hbody, hhead, hnone, hmem⟩
      · cases hblank
    · obtain ⟨hmem, hblank⟩ := List.mem_filter.1 hc
      obtain rfl : c = d := List.mem_singleton.1 hmem
      rw [isControlBlank_of_predefined? hpredefined] at hblank
      cases hblank
    · cases hc

/-! ### Trees -/

theorem Expands.mem_leaves (h : Expands g ps x) (hpiece : piece ∈ x.leaves) :
    piece ∈ ps ∨ ∃ n u, Replacement g n u ∧ piece ∈ pieces u := by
  induction h with
  | nil => cases hpiece
  | written _ _ ih =>
      rcases List.mem_cons.1 hpiece with rfl | hpiece
      · exact .inl List.mem_cons_self
      · exact (ih hpiece).imp_left (List.mem_cons_of_mem _)
  | replaced hu hqs _ _ ihInner ih =>
      rcases List.mem_append.1 hpiece with hpiece | hpiece
      · obtain rfl := segments_iff.1 hqs
        exact .inr ((ihInner hpiece).elim (fun hmem => ⟨_, _, hu, hmem⟩) id)
      · exact (ih hpiece).imp_left (List.mem_cons_of_mem _)

theorem Expands.mem_text (h : Expands g (pieces t) x) (hpiece : piece ∈ x.leaves) :
    ∃ u, (u = t ∨ ∃ n, Replacement g n u) ∧ piece ∈ pieces u := by
  rcases h.mem_leaves hpiece with hmem | ⟨n, u, hu, hmem⟩
  · exact ⟨t, .inl rfl, hmem⟩
  · exact ⟨u, .inr ⟨n, hu⟩, hmem⟩

theorem Expands.filter_value (h : Expands g (pieces t) x) :
    x.value.filter isControlBlank = x.leaves.flatMap Piece.controlBlanks := by
  rw [Expansion.value, List.filter_flatMap]
  refine List.flatMap_congr fun piece hpiece => ?_
  obtain ⟨u, -, hmem⟩ := h.mem_text hpiece
  exact filter_written hmem

/-! ### Normal forms -/

/-- The control blanks of a normal form are those that the pieces of the value and of the
replacement texts let through, in their order: each is denoted by a character reference in one
of these texts, or it stands in one that denotes no character. -/
theorem controlBlanks_normalize {isTokenized : Bool} {v : Normalized}
    (h : normalize g limits raw isTokenized = .ok v) :
    (∃ ps x, Segments raw ps ∧ Expands g ps x ∧
        v.value.filter isControlBlank = x.leaves.flatMap Piece.controlBlanks) ∧
      ∀ c ∈ v.value, isControlBlank c = true →
        ∃ t, (t = raw ∨ ∃ n, Replacement g n t) ∧ (Reference.Denotes t c ∨ CopiesIn t c) := by
  obtain ⟨x, q, hx, hvalue, -, -⟩ := exists_expands_of_normalize h
  have hfilter : v.value.filter isControlBlank = x.leaves.flatMap Piece.controlBlanks := by
    rw [hvalue, ← hx.filter_value]
    split
    · exact filter_collapse rfl x.value
    · rfl
  refine ⟨⟨pieces raw, x, segments_pieces raw, hx, hfilter⟩, fun c hc hblank => ?_⟩
  have hmem : c ∈ x.leaves.flatMap Piece.controlBlanks := by
    rw [← hfilter]
    exact List.mem_filter.2 ⟨hc, hblank⟩
  obtain ⟨piece, hpiece, hc⟩ := List.mem_flatMap.1 hmem
  obtain ⟨t, ht, hpieces⟩ := hx.mem_text hpiece
  exact ⟨t, ht, origin_of_mem_controlBlanks hpieces hc⟩

/-- A tab in the value, another one in a replacement text, a line feed and a carriage return
that references denote, and a tab that is copied. -/
theorem controlBlanks_normalize_denoted :
    let g : Graph :=
      { Graph.empty with generalEntities := [⟨"e", .general, .literal "a\tb&#10;", 1⟩] }
    let v : Normalized := ⟨"x a b\n\r&#\t;", ["e"], []⟩
    normalize g .standard "x\t&e;&#13;&#\t;" false = .ok v ∧
      (∃ x, Expands g (pieces "x\t&e;&#13;&#\t;") x ∧
        x.leaves.flatMap Piece.controlBlanks = "\n\r\t".toList) ∧
      ∃ t, (t = ("x\t&e;&#13;&#\t;" : Text) ∨ ∃ n, Replacement g n t) ∧
        (Reference.Denotes t '\n' ∨ CopiesIn t '\n') := by
  intro g v
  have hok : normalize g .standard "x\t&e;&#13;&#\t;" false = .ok v := by decide +kernel
  obtain ⟨⟨ps, x, hps, hx, hfilter⟩, horigin⟩ := controlBlanks_normalize hok
  obtain rfl := segments_iff.1 hps
  exact ⟨hok, ⟨x, hx, hfilter.symm⟩, horigin '\n' (by decide) rfl⟩

/-- A tab that no reference denotes: it stands in a reference without digits, which is copied
as it is. -/
theorem normalize_copiedTab :
    normalize Graph.empty .standard "&#\t;" false = .ok ⟨"&#\t;", [], []⟩ ∧
      '\t' ∈ ("&#\t;" : Text) ∧
      (∀ c, ¬Reference.Denotes "&#\t;" c) ∧ ∀ n u, ¬Replacement Graph.empty n u := by
  refine ⟨by decide +kernel, by decide, ?_, ?_⟩
  · rintro c ⟨before, body, after, ht, hbody, hdecode⟩
    rw [show ("&#\t;" : Text) = ['&', '#', '\t', ';'] by decide] at ht
    cases before with
    | nil =>
        have hbody : body = ['#', '\t'] := by
          have htake := congrArg (List.takeWhile (· ≠ ';')) (List.cons.inj ht).2
          rw [List.takeWhile_append_of_pos
            fun d hd => by simpa using ne_of_mem_of_not_mem hd hbody] at htake
          simpa using htake.symm
        rw [hbody] at hdecode
        cases hdecode
    | cons d before =>
        have hmem : '&' ∈ (['#', '\t', ';'] : Text) := by
          rw [(List.cons.inj ht).2]
          simp
        exact absurd hmem (by decide)
  · rintro n u ⟨e, he, -⟩
    cases he

end Attribute.Value
end Doctype
