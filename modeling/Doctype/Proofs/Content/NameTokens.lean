import Doctype.Proofs.Content.Offsets
import Doctype.Proofs.Cursor.Runs

/-!
Names are recognised alike everywhere. A text is a name if a cursor reads all of it as one, and
if it is a single token of a content model; a cursor reads the longest name that stands in
front of it, and so do the tokens: each name among them is the one that a cursor reads at its
offset (`names_agree`).
-/

namespace Doctype

namespace Cursor

variable {input n : Text} {c : Cursor}

theorem name_eq_map (c : Cursor) : c.name.1 = (Text.name? c.rest).map Prod.fst := by
  rw [name, read?]
  cases Text.name? c.rest <;> rfl

theorem name_eq_some_iff :
    c.name.1 = some n ↔ Text.IsLongest (Text.isName · = true) c.rest n := by
  rw [name_eq_map, Option.map_eq_some_iff]
  constructor
  · rintro ⟨⟨n, r⟩, hname, rfl⟩
    exact (Text.name?_eq_some_iff_isLongest.1 hname).2
  · intro hn
    obtain ⟨r, hr⟩ := hn.isPrefix
    exact ⟨(n, r), Text.name?_eq_some_iff_isLongest.2 ⟨hr.symm, hn⟩, rfl⟩

theorem name_eq_none_iff :
    c.name.1 = none ↔ ∀ n, n <+: c.rest → n ≠ [] → Text.isName n = false := by
  rw [name_eq_map, Option.map_eq_none_iff, Text.name?_eq_none_iff]
  refine ⟨fun h n hn _ => h n hn, fun h n hn => ?_⟩
  cases n with
  | nil => rfl
  | cons d n => exact h (d :: n) hn (List.cons_ne_nil d n)

theorem Stands.performAt_name (h : Stands input c) (hname : c.name.1 = some n) :
    Cursor.performAt input .name c.position = some (.text n, c.position + Text.size n) := by
  have hanswer : (c.perform .name).1 = .text n := congrArg Answer.ofText? hname
  obtain ⟨u, r, hu, -, hposition, -⟩ := h.reads (s := .name) rfl (by rw [hanswer]; rfl)
  rw [hanswer] at hu
  cases hu
  rw [h.performAt, hanswer, hposition]

end Cursor

namespace Content

theorem tokens_eq_name_iff {s : Text} :
    tokens s = .ok [⟨0, .name s⟩] ↔ Text.isName s = true := by
  constructor
  · intro h
    have hlexes : Lexes s [.name s] := exists_tokens_iff.1 ⟨_, h, rfl⟩
    exact hlexes.valid _ List.mem_cons_self
  · intro h
    have hread : tokensFrom [] 0 ((Lexeme.name s).print ++ []) =
        tokensFrom [⟨0, .name s⟩] (0 + Text.size s) [] :=
      tokensFrom_lexeme h rfl
    rw [Lexeme.print_name, List.append_nil] at hread
    rw [tokens, hread, tokensFrom]
    rfl

/-- At a token that is a name a cursor reads this name. -/
theorem name_of_token {s n : Text} {toks : List Token} {tok : Token}
    (h : tokens s = .ok toks) (htok : tok ∈ toks) (hname : tok.lexeme = .name n) :
    s.IsBoundary tok.offset ∧ ((Cursor.start s).seek tok.offset).name.1 = some n ∧
      Cursor.performAt s .name tok.offset = some (.text n, tok.offset + Text.size n) := by
  obtain ⟨more, rfl, hplaced⟩ := placed_of_tokensFrom h
  obtain ⟨before, after, rfl⟩ := List.append_of_mem htok
  obtain ⟨front, u, hoffset, hoccurs⟩ := hplaced.occurs
  rw [hname] at hoccurs
  have heq : s = front ++ (n ++ u) := hoccurs.eq
  rw [Nat.zero_add] at hoffset
  have hboundary : s.IsBoundary tok.offset := ⟨front, n ++ u, heq, hoffset.symm⟩
  have hstands := (Cursor.stands_start s).seek hboundary
  have hposition : ((Cursor.start s).seek tok.offset).position = tok.offset := by
    rw [Cursor.position_seek]
    exact Nat.min_eq_left hboundary.le_size
  have hrest : ((Cursor.start s).seek tok.offset).rest = n ++ u := by
    rw [hoffset, heq]
    exact Text.dropBytes_size front (n ++ u)
  have hread : ((Cursor.start s).seek tok.offset).name.1 = some n := by
    rw [Cursor.name_eq_map, hrest, Text.name?_eq_some_iff.2 ⟨rfl, hoccurs.valid, hoccurs.ends⟩]
    rfl
  have hslices := hstands.performAt_name hread
  rw [hposition] at hslices
  exact ⟨hboundary, hread, hslices⟩

/-- All that recognise names agree. A text is a name if a cursor reads all of it, and if it is
a single token; a cursor reads the longest name in front of it, or none if there is none; and
if a text gives tokens, each name among them is what is read at its offset. -/
theorem names_agree (s : Text) :
    (Text.isName s = true ↔ (Cursor.start s).name.1 = some s) ∧
      (Text.isName s = true ↔ tokens s = .ok [⟨0, .name s⟩]) ∧
      (∀ n, (Cursor.start s).name.1 = some n ↔ Text.IsLongest (Text.isName · = true) s n) ∧
      ((Cursor.start s).name.1 = none ↔ ∀ n, n <+: s → n ≠ [] → Text.isName n = false) ∧
      ∀ toks, tokens s = .ok toks → ∀ tok ∈ toks, ∀ n, tok.lexeme = .name n →
        s.IsBoundary tok.offset ∧ ((Cursor.start s).seek tok.offset).name.1 = some n ∧
          Cursor.performAt s .name tok.offset = some (.text n, tok.offset + Text.size n) := by
  have hlongest (n : Text) : (Cursor.start s).name.1 = some n ↔
      Text.IsLongest (Text.isName · = true) s n :=
    Cursor.name_eq_some_iff
  refine ⟨?_, tokens_eq_name_iff.symm, hlongest, Cursor.name_eq_none_iff, ?_⟩
  · rw [hlongest, Text.isLongest_self_iff]
  · exact fun toks h tok htok n hname => name_of_token h htok hname

/-- Behind a name of two bytes the next one is read where its token begins. -/
theorem names_agree_group :
    let toks : List Token :=
      [⟨0, .leftParen⟩, ⟨1, .name "é"⟩, ⟨3, .bar⟩, ⟨4, .name "b"⟩, ⟨5, .rightParen⟩]
    tokens "(é|b)" = .ok toks ∧ ((Cursor.start "(é|b)").seek 4).name.1 = some "b" ∧
      Cursor.performAt "(é|b)" .name 4 = some (.text "b", 5) := by
  intro toks
  have htoks : tokens "(é|b)" = .ok toks := by decide +kernel
  obtain ⟨-, -, -, -, hread⟩ := names_agree "(é|b)"
  exact ⟨htoks, (hread toks htoks ⟨4, .name "b"⟩ (by decide) "b" rfl).2⟩

end Content
end Doctype
