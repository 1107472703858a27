import Doctype.Proofs.Markup.Expansion
import Doctype.Proofs.Markup.Pieces
import Doctype.Proofs.Markup.Scanning
import Doctype.Proofs.Text.Lexer
import Doctype.Source

/-!
Entity declarations with a literal. The value that is reported for such a declaration is the
expansion of the literal between its quotation marks (`declare_literal`). It is read a second
time where the entity is defined, and there a quotation mark of the literal's own kind that an
expansion has brought in ends it: the definition is accepted exactly if no reference is
expanded to a text with that mark.
-/

namespace Doctype.Markup

variable {σ : Type} {scope : Scope} {lit value : Text} {q : Char}

/-! ### Reading a literal again -/

def quoted (q : Char) (value : Text) : Text :=
  q :: (value ++ [q])

theorem isBlank_eq_false_of_isQuote (hq : Lexer.isQuote q = true) : isBlank q = false := by
  simp only [Lexer.isQuote, Bool.or_eq_true, decide_eq_true_eq] at hq
  rcases hq with rfl | rfl <;> decide

theorem isWhiteSpace_eq_false_of_isQuote (hq : Lexer.isQuote q = true) :
    isWhiteSpace q = false := by
  simp only [Lexer.isQuote, Bool.or_eq_true, decide_eq_true_eq] at hq
  rcases hq with rfl | rfl <;> decide

theorem read_quote_cons (hq : Lexer.isQuote q = true) {t : Text} (ht : q ∉ t) (u : Text) :
    Entity.Definition.read (q :: (t ++ q :: u)) = .ok (.literal t, u) := by
  have hquoted : Lexer.quoted (q :: (t ++ q :: u)) = .ok (t, u) :=
    Lexer.quoted_eq_ok_iff.2 ⟨q, hq, ht, rfl⟩
  simp [Entity.Definition.read, Lexer.startsQuoted, hq, hquoted, bind, Except.bind, pure,
    Except.pure]

/-- A value between quotation marks is accepted as a literal exactly if it holds no such mark
itself. -/
theorem parse_quoted (hq : Lexer.isQuote q = true) (value : Text) :
    (q ∉ value → Entity.Definition.parse (quoted q value) = .ok (.literal value)) ∧
      (q ∈ value → ∃ e, Entity.Definition.parse (quoted q value) = .error e) := by
  have hblank := isBlank_eq_false_of_isQuote hq
  have hskip : Text.skipBlanks (quoted q value) = quoted q value := by
    simp [quoted, Text.skipBlanks, hblank]
  constructor
  · intro hmem
    have hread : Entity.Definition.read (quoted q value) = .ok (.literal value, []) :=
      read_quote_cons hq hmem []
    have hnone : Text.skipBlanks [] = [] := rfl
    simp [Entity.Definition.parse, Lexer.whole, hskip, hread, hnone]
  · intro hmem
    -- the literal ends at the first mark in the value, and the last mark is left behind it
    obtain ⟨a, b, rfl, ha⟩ := List.eq_append_cons_of_mem hmem
    have hread : Entity.Definition.read (quoted q (a ++ q :: b)) =
        .ok (.literal a, b ++ [q]) := by
      rw [quoted, List.append_assoc, List.cons_append, read_quote_cons hq ha]
    have hrest : Text.skipBlanks (b ++ [q]) = Text.skipBlanks b ++ [q] :=
      (Text.span_append_cons hblank b []).2
    obtain ⟨c, w, hleft⟩ : ∃ c w, Text.skipBlanks (b ++ [q]) = c :: w := by
      rw [hrest]
      cases Text.skipBlanks b with
      | nil => exact ⟨_, _, rfl⟩
      | cons c w => exact ⟨_, _, rfl⟩
    refine ⟨Lexer.Failure.toError (quoted q (a ++ q :: b)) ⟨.unexpectedText (c :: w), c :: w⟩,
      ?_⟩
    simp [Entity.Definition.parse, Lexer.whole, hskip, hread, hleft]

/-! ### Bodies with a literal -/

/-- What may stand in front of the name of an entity: blanks, and for a parameter entity a
percent sign with blanks behind it. -/
def IsFront : Scope → Text → Prop
  | .general, t => ∀ c ∈ t, isBlank c = true
  | .parameter, t => ∃ a b, t = a ++ '%' :: b ∧ b ≠ [] ∧ (∀ c ∈ a, isBlank c = true) ∧
      ∀ c ∈ b, isBlank c = true

/-- What stands around the literal in the body of an entity declaration whose definition is one
literal, followed by blanks only. -/
structure LiteralFrame (scope : Scope) where
  front : Text
  name : Text
  between : Text
  quote : Char
  behind : Text
  isFront : IsFront scope front
  isName : Text.isName name = true
  isQuote : Lexer.isQuote quote = true
  isBlank_between : ∀ c ∈ between, isBlank c = true
  isBlank_behind : ∀ c ∈ behind, isBlank c = true

def literalPieces (q : Char) (lit : Text) : List Piece :=
  piecesFrom true (some q) [] lit

theorem plain_of_isBlank {c : Char} (h : isBlank c = true) :
    c ≠ '%' ∧ Lexer.isQuote c = false := by
  simp only [isBlank, Bool.or_eq_true, decide_eq_true_eq] at h
  rcases h with ((rfl | rfl) | rfl) | rfl <;> decide

theorem plain_of_isNameChar {c : Char} (h : isNameChar c = true) :
    c ≠ '%' ∧ Lexer.isQuote c = false := by
  constructor
  · rintro rfl
    exact absurd h (by decide)
  · cases hq : Lexer.isQuote c with
    | false => rfl
    | true => rw [isNameChar_eq_false_of_isQuote hq] at h; cases h

theorem reference?_blank {c : Char} (hc : isBlank c = true) (t : Text) :
    reference? (c :: t) = none := by
  have hstart : isNameStart c = false := by
    have hname := isNameChar_eq_false_of_isBlank hc
    rw [isNameChar, Bool.or_eq_false_iff] at hname
    exact hname.1
  simp [reference?, Text.name?, hstart]

theorem pieces_front {front : Text} (h : IsFront scope front) (t : Text) :
    piecesFrom true none [] (front ++ t) = front.map .char ++ piecesFrom true none [] t := by
  cases scope with
  | general => exact pieces_plain_append (fun c hc => plain_of_isBlank (h c hc)) t
  | parameter =>
      obtain ⟨a, b, rfl, hne, ha, hb⟩ := h
      obtain ⟨c, b, rfl⟩ := List.exists_cons_of_ne_nil hne
      have hpercent : piecesFrom true none [] ('%' :: (c :: b ++ t)) =
          .char '%' :: piecesFrom true none [] (c :: b ++ t) := by
        have hnone : reference? (c :: b ++ t) = none :=
          reference?_blank (hb c (by simp)) (b ++ t)
        rw [piecesFrom_percent hnone rfl, piecesFrom_eq]
        rfl
      rw [List.append_assoc, pieces_plain_append fun d hd => plain_of_isBlank (ha d hd),
        List.cons_append, hpercent, pieces_plain_append fun d hd => plain_of_isBlank (hb d hd)]
      simp

theorem readScope_front {front : Text} (h : IsFront scope front) {t : Text}
    (ht : Text.startsBlank t = false) (hpercent : t.head? ≠ some '%') :
    readScope (Text.skipBlanks (front ++ t)) = .ok (scope, t) := by
  cases scope with
  | general =>
      rw [Text.skipBlanks_append h ht]
      cases t with
      | nil => rfl
      | cons c t =>
          have hc : c ≠ '%' := by simpa using hpercent
          simp [readScope, hc]
  | parameter =>
      obtain ⟨a, b, rfl, hne, ha, hb⟩ := h
      obtain ⟨c, b, rfl⟩ := List.exists_cons_of_ne_nil hne
      have hstarts : Text.startsBlank (c :: b ++ t) = true := hb c (by simp)
      rw [List.append_assoc, Text.skipBlanks_append ha (by rfl), List.cons_append, readScope,
        if_pos hstarts, Text.skipBlanks_append hb ht]

theorem startsBlank_name_append {name : Text} (hn : Text.isName name = true) (t : Text) :
    Text.startsBlank (name ++ t) = false ∧ (name ++ t).head? ≠ some '%' := by
  cases hname : name with
  | nil =>
      rw [hname] at hn
      cases hn
  | cons c n =>
      have hc : c ∈ name := by simp [hname]
      refine ⟨isBlank_eq_false_of_mem_name hn hc, ?_⟩
      simpa using (plain_of_isNameChar (isNameChar_of_mem_name hn hc)).1

namespace LiteralFrame

variable (f : LiteralFrame scope)

def body (lit : Text) : Text :=
  f.front ++ (f.name ++ (f.between ++ f.quote :: (lit ++ f.quote :: f.behind)))

theorem startsBlank_name (t : Text) :
    Text.startsBlank (f.name ++ t) = false ∧ (f.name ++ t).head? ≠ some '%' :=
  startsBlank_name_append f.isName t

theorem trim_definition (value : Text) :
    Text.trim (f.between ++ f.quote :: (value ++ f.quote :: f.behind)) =
      quoted f.quote value := by
  have hsplit : f.between ++ f.quote :: (value ++ f.quote :: f.behind) =
      f.between ++ quoted f.quote value ++ f.behind := by
    simp [quoted]
  have hlast : (quoted f.quote value).getLast? = some f.quote := by
    rw [quoted, ← List.cons_append, List.getLast?_concat]
  have hquote := isWhiteSpace_eq_false_of_isQuote f.isQuote
  rw [hsplit, Text.trim]
  refine Text.trimBy_append_of_ends
    (fun c hc => isWhiteSpace_of_isBlank (f.isBlank_between c hc)) ?_ ?_
    (fun c hc => isWhiteSpace_of_isBlank (f.isBlank_behind c hc)) (by simp [quoted])
  · simpa [quoted] using hquote
  · simpa [hlast] using hquote

theorem read_body (value : Text) :
    DeclarationKind.entity.read (f.body value) =
      .ok (.entity scope f.name (quoted f.quote value)) := by
  obtain ⟨hstarts, hpercent⟩ :=
    f.startsBlank_name (f.between ++ f.quote :: (value ++ f.quote :: f.behind))
  have hends : Text.startsNameChar (f.between ++ f.quote :: (value ++ f.quote :: f.behind)) =
      false := by
    cases hb : f.between with
    | nil => exact isNameChar_eq_false_of_isQuote f.isQuote
    | cons c b => exact isNameChar_eq_false_of_isBlank (f.isBlank_between c (by simp [hb]))
  have hscope := readScope_front f.isFront hstarts hpercent
  have hname := Text.name?_append f.isName hends
  rw [← f.trim_definition, body]
  simp only [DeclarationKind.read, if_true, hscope, bind, Except.bind, hname]
  rfl

theorem pieces_body (hlit : f.quote ∉ lit) : pieces true (f.body lit) =
    (f.front ++ (f.name ++ f.between)).map .char ++
      .char f.quote :: (literalPieces f.quote lit ++ .char f.quote :: f.behind.map .char) := by
  have hpercent : f.quote ≠ '%' := by
    intro h
    have hq := f.isQuote
    rw [h] at hq
    cases hq
  have hname : ∀ c ∈ f.name ++ f.between, c ≠ '%' ∧ Lexer.isQuote c = false := by
    intro c hc
    rcases List.mem_append.1 hc with hc | hc
    · exact plain_of_isNameChar (isNameChar_of_mem_name f.isName hc)
    · exact plain_of_isBlank (f.isBlank_between c hc)
  have hafter : quoteAfter none f.quote = some f.quote := by simp [quoteAfter, f.isQuote]
  have hend : piecesFrom true none [] f.behind = f.behind.map .char := by
    rw [← List.append_nil f.behind, pieces_plain_append fun c hc =>
      plain_of_isBlank (f.isBlank_behind c hc)]
    simp [piecesFrom]
  rw [pieces, body, pieces_front f.isFront, ← List.append_assoc f.name,
    pieces_plain_append hname,
    pieces_char (by simp [hpercent]), hafter, pieces_literal_append f.isQuote hlit, hend,
    ← List.append_assoc, ← List.map_append]
  rfl

/-- What a body with a literal is expanded to is the body with the expansion of the literal. -/
theorem exists_of_expands_body {resolver : Resolver} {entities : List (Text × Replacement)}
    {out : Text} {asked asked' : List Request} (hlit : f.quote ∉ lit)
    (h : Expands resolver entities true asked (pieces true (f.body lit)) out asked') :
    ∃ value, Expands resolver entities true asked (literalPieces f.quote lit) value asked' ∧
      out = f.body value := by
  rw [f.pieces_body hlit] at h
  obtain ⟨u, v, _, rfl, hu, hv⟩ := h.exists_of_append
  obtain ⟨rfl, rfl⟩ := hu.eq_of_chars
  cases hv with
  | char hv =>
      obtain ⟨value, w, _, rfl, hvalue, hw⟩ := hv.exists_of_append
      cases hw with
      | char hw =>
          obtain ⟨rfl, rfl⟩ := hw.eq_of_chars
          refine ⟨value, hvalue, ?_⟩
          rw [body]
          simp only [List.append_assoc]

end LiteralFrame

/-! ### Declaring -/

theorem report_eq_ok {c : Setting σ} {e : Event} {s s' : State σ} {u : Unit}
    (h : report c e s = .ok u s') :
    c.handler.accept s.handled e = .ok s'.handled ∧ s' = { s with handled := s'.handled } := by
  obtain ⟨_, s₁, hget, haccept⟩ := bind_eq_ok h
  cases hget
  cases hr : c.handler.accept s.handled e with
  | error e =>
      simp only [hr] at haccept
      cases haccept
  | ok handled =>
      simp only [hr] at haccept
      cases haccept
      exact ⟨rfl, rfl⟩

/-- A quotation mark of the literal's own kind can only come from a reference. -/
theorem quote_mem_value_iff {resolver : Resolver} {entities : List (Text × Replacement)}
    {asked asked' : List Request} (hlit : q ∉ lit)
    (h : Expands resolver entities true asked (literalPieces q lit) value asked') :
    q ∈ value ↔ ∃ front n isQuoted behind u v asked₁ asked₂,
      literalPieces q lit = front ++ .reference n isQuoted :: behind ∧
        Expands resolver entities true asked front u asked₁ ∧
          Expands resolver entities true asked₁ [.reference n isQuoted] v asked₂ ∧ q ∈ v := by
  rw [h.mem_iff]
  constructor
  · rintro ⟨front, p, behind, u, v, asked₁, asked₂, hpieces, hu, hv, hmem⟩
    have hp : p ∈ literalPieces q lit := by simp [hpieces]
    obtain ⟨c, hc, rfl⟩ | ⟨n, isQuoted, rfl⟩ := exists_of_mem_pieces hp
    · obtain ⟨rfl, -⟩ := Expands.eq_of_chars (s := [c]) hv
      exact absurd (List.mem_singleton.1 hmem ▸ hc) hlit
    · exact ⟨front, n, isQuoted, behind, u, v, asked₁, asked₂, hpieces, hu, hv, hmem⟩
  · rintro ⟨front, n, isQuoted, behind, u, v, asked₁, asked₂, hpieces, hu, hv, hmem⟩
    exact ⟨front, _, behind, u, v, asked₁, asked₂, hpieces, hu, hv, hmem⟩

/-- A declaration with a literal is reported with the expansion of the literal between its
quotation marks. That definition is accepted, as this literal, exactly if the expansion does
not hold the quotation mark; it holds the mark exactly if a reference in the literal is
expanded to a text with it. -/
theorem declare_literal {c : Setting σ} {fail : Fault → Error} {site : Site} {level : Nat}
    {s s' : State σ} (f : LiteralFrame scope) (hlit : f.quote ∉ lit)
    (hrun : declare c fail site level .entity (f.body lit) s = .ok () s') :
    ∃ value, Expands c.resolver s.entities true s.asked (literalPieces f.quote lit)
      value s'.asked ∧
      c.handler.accept s.handled (.entity scope f.name (quoted f.quote value)) =
        .ok s'.handled ∧
      (f.quote ∉ value → Entity.Definition.parse (quoted f.quote value) =
        .ok (.literal value)) ∧
      (f.quote ∈ value → ∃ e, Entity.Definition.parse (quoted f.quote value) = .error e) ∧
      (f.quote ∈ value ↔ ∃ front n isQuoted behind u v asked₁ asked₂,
        literalPieces f.quote lit = front ++ .reference n isQuoted :: behind ∧
          Expands c.resolver s.entities true s.asked front u asked₁ ∧
            Expands c.resolver s.entities true asked₁ [.reference n isQuoted] v asked₂ ∧
              f.quote ∈ v) := by
  -- the body is expanded, read again as a whole, and reported
  obtain ⟨out, s₁, hexpand, hread⟩ := bind_eq_ok hrun
  obtain ⟨hkeeps, hout⟩ := expand_eq_ok level _ _ _ _ hexpand
  obtain ⟨value, hvalue, rfl⟩ := f.exists_of_expands_body hlit hout
  rw [f.read_body] at hread
  obtain ⟨_, s₂, hreport, hdefine⟩ := bind_eq_ok hread
  obtain ⟨haccept, hs₂⟩ := report_eq_ok hreport
  cases hdefine
  rw [hkeeps.handled] at haccept
  have hasked : s₂.asked = s₁.asked := by rw [hs₂]
  rw [handled_define, asked_define, hasked]
  obtain ⟨haccepted, hrejected⟩ := parse_quoted f.isQuote value
  exact ⟨value, hvalue, haccept, haccepted, hrejected, quote_mem_value_iff hlit hvalue⟩

/-- The body of the declaration of an entity `e` with a literal between double quotation
marks. -/
def frameOfE : LiteralFrame .general where
  front := [' ']
  name := ['e']
  between := [' ']
  quote := '"'
  behind := []
  isFront := by simp [IsFront, isBlank]
  isName := rfl
  isQuote := rfl
  isBlank_between := by simp [isBlank]
  isBlank_behind := by simp

/-- The theorem applies where a reference brings in the other kind of quotation mark. -/
theorem declare_literal_otherQuote :
    let c : Setting Recording := ⟨Recording.handler, .ofCatalog [], .standard⟩
    let fail : Fault → Error := fun _ => .endOfDtd
    let site : Site := ⟨[], none, 0⟩
    let s : State Recording := ⟨.empty, [(['q'], .internal ['\''])], [], 0, []⟩
    let lit : Text := "a%q;b"
    '"' ∉ lit ∧
      ∃ s', declare c fail site 1 .entity (frameOfE.body lit) s = .ok () s' ∧
      ∃ value, Expands c.resolver s.entities true s.asked (literalPieces '"' lit)
        value s'.asked ∧
        c.handler.accept s.handled (.entity .general ['e'] (quoted '"' value)) =
          .ok s'.handled ∧
        ('"' ∉ value → Entity.Definition.parse (quoted '"' value) = .ok (.literal value)) ∧
        ('"' ∈ value → ∃ e, Entity.Definition.parse (quoted '"' value) = .error e) ∧
        ('"' ∈ value ↔ ∃ front n isQuoted behind u v asked₁ asked₂,
          literalPieces '"' lit = front ++ .reference n isQuoted :: behind ∧
            Expands c.resolver s.entities true s.asked front u asked₁ ∧
              Expands c.resolver s.entities true asked₁ [.reference n isQuoted] v asked₂ ∧
                '"' ∈ v) := by
  intro c fail site s lit
  have hlit : '"' ∉ lit := by decide
  have hok : (match declare c fail site 1 .entity (frameOfE.body lit) s with
      | .ok _ _ => true
      | .error _ _ => false) = true := by
    decide +kernel
  cases hrun : declare c fail site 1 .entity (frameOfE.body lit) s with
  | error e s' =>
      rw [hrun] at hok
      cases hok
  | ok u s' => exact ⟨hlit, s', rfl, declare_literal frameOfE hlit hrun⟩

/-- The definition of `e` is, as written, one literal, and its reference brings in a quotation
mark of the literal's own kind: what is reported is no definition. -/
theorem reported_ownQuote :
    let lit : Text := "a%q;b"
    let written : Text := "<!ENTITY % q '\"'><!ENTITY".toList ++ frameOfE.body lit ++ ['>']
    '"' ∉ lit ∧
      (Source.collect (.ofText .dtd written) (.ofCatalog []) .standard).toOption.map
        Log.events =
        some [.entity .parameter ['q'] "'\"'", .entity .general ['e'] (quoted '"' "a\"b")] ∧
      (Entity.Definition.parse (quoted '"' "a\"b")).toOption = none := by
  intro lit written
  exact ⟨by decide, by decide +kernel, by decide +kernel⟩

end Doctype.Markup
