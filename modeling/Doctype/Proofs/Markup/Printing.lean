import Doctype.Proofs.Markup.Literal
import Doctype.Proofs.Text.Declaration
import Doctype.Proofs.Text.Mark

/-!
Events written as markup. A declaration is written with blanks between its parts, a comment and
an instruction between their marks (`Event.print`). What is written for an event whose parts do
not end it early (`Event.Printable`) is one item of markup, whatever follows
(`Event.Printable.exists_read`), and what a declaration holds between its keyword and its end
is read as the same declaration again (`read_inside`).
-/

namespace Doctype

open Markup

/-- A text whose quotation marks are all closed and which has no `>` outside of them. -/
inductive Text.IsClosed : Text → Prop
  | nil : IsClosed []
  | plain {c : Char} {t : Text} :
      c ≠ '>' → Lexer.isQuote c = false → IsClosed t → IsClosed (c :: t)
  | literal {q : Char} {lit t : Text} : Lexer.isQuote q = true → q ∉ lit → IsClosed t →
      IsClosed (q :: (lit ++ q :: t))

structure IsDeclared (name body : Text) : Prop where
  isName : Text.isName name = true
  noReference : '%' ∉ body
  isClosed : Text.IsClosed body
  isTrimmed : Text.trim body = body

namespace Event

/-- An event whose parts can be told apart where it is written. -/
def Printable : Event → Prop
  | element name body => IsDeclared name body
  | attributeList owner body => IsDeclared owner body
  | entity _ name body => IsDeclared name body
  | notationType name body => IsDeclared name body
  | comment text => ¬ "-->".toList <:+: text
  | instruction target data =>
    Text.isName target = true ∧ Item.isDeclarationTarget target = false ∧
      ¬ "?>".toList <:+: data ∧ Text.startsBlank data = false

end Event

def Markup.DeclarationKind.keyword : DeclarationKind → Text
  | element => "ELEMENT"
  | attributeList => "ATTLIST"
  | entity => "ENTITY"
  | notationType => "NOTATION"

def Scope.front : Scope → Text
  | general => " "
  | parameter => " % "

def Markup.inside (scope : Scope) (name body : Text) : Text :=
  scope.front ++ (name ++ ' ' :: body)

def Markup.printDeclaration (kind : DeclarationKind) (scope : Scope) (name body : Text) :
    Text :=
  '<' :: '!' :: (kind.keyword ++ (inside scope name body ++ ['>']))

namespace Event

def print : Event → Text
  | element name body => printDeclaration .element .general name body
  | attributeList owner body => printDeclaration .attributeList .general owner body
  | entity scope name body => printDeclaration .entity scope name body
  | notationType name body => printDeclaration .notationType .general name body
  | comment text => '<' :: '!' :: '-' :: '-' :: (text ++ "-->".toList)
  | instruction target data => '<' :: '?' :: (target ++ ' ' :: (data ++ "?>".toList))

def item : Event → Item
  | element name body => .declaration .element (inside .general name body)
  | attributeList owner body => .declaration .attributeList (inside .general owner body)
  | entity scope name body => .declaration .entity (inside scope name body)
  | notationType name body => .declaration .notationType (inside .general name body)
  | comment text => .comment text
  | instruction target data => .instruction target data

end Event

namespace Markup

variable {name body t : Text} {scope : Scope} {kind : DeclarationKind}

/-! ### The end of a declaration -/

theorem declarationFrom?_literal {q : Char} {lit : Text} (hlit : q ∉ lit) (done rest : Text) :
    declarationFrom? (some q) done (lit ++ q :: rest) =
      declarationFrom? none (q :: (lit.reverse ++ done)) rest := by
  induction lit generalizing done with
  | nil => simp [declarationFrom?, quoteAfter]
  | cons c lit ih =>
      obtain ⟨hc, hlit⟩ := not_or.1 (mt List.mem_cons.2 hlit)
      have hafter : quoteAfter (some q) c = some q := by simp [quoteAfter, Ne.symm hc]
      simp [declarationFrom?, hafter, ih hlit]

/-- A closed text is passed up to the `>` behind it. -/
theorem declarationFrom?_closed (ht : Text.IsClosed t) (done rest : Text) :
    declarationFrom? none done (t ++ '>' :: rest) = some (done.reverse ++ t, rest) := by
  induction ht generalizing done with
  | nil => simp [declarationFrom?]
  | @plain c t hc hquote _ ih =>
      have hafter : quoteAfter none c = none := by simp [quoteAfter, hquote]
      simp [declarationFrom?, hc, hafter, ih]
  | @literal q lit t hq hlit _ ih =>
      have hne : q ≠ '>' := by
        rintro rfl
        cases hq
      have hafter : quoteAfter none q = some q := by simp [quoteAfter, hq]
      have hliteral := declarationFrom?_literal hlit (q :: done) (t ++ '>' :: rest)
      simp only [List.cons_append, List.append_assoc, declarationFrom?, hne, decide_false,
        Bool.false_and, Bool.false_eq_true, if_false, hafter, hliteral, ih]
      simp

theorem isClosed_append {s : Text} (hs : ∀ c ∈ s, c ≠ '>' ∧ Lexer.isQuote c = false)
    (ht : Text.IsClosed t) : Text.IsClosed (s ++ t) := by
  induction s with
  | nil => exact ht
  | cons c s ih =>
      obtain ⟨⟨hc, hquote⟩, hs⟩ := List.forall_mem_cons.1 hs
      exact .plain hc hquote (ih hs)

theorem ne_of_isNameChar {c : Char} (hc : isNameChar c = true) : c ≠ '>' := by
  rintro rfl
  exact absurd hc (by decide)

theorem isClosed_inside (h : IsDeclared name body) (scope : Scope) :
    Text.IsClosed (inside scope name body) := by
  have hname : ∀ c ∈ name, c ≠ '>' ∧ Lexer.isQuote c = false := fun c hc =>
    have hchar := isNameChar_of_mem_name h.isName hc
    ⟨ne_of_isNameChar hchar, (plain_of_isNameChar hchar).2⟩
  refine isClosed_append ?_ (isClosed_append hname (.plain (by decide) (by decide) h.isClosed))
  cases scope <;> simp [Scope.front, Lexer.isQuote]

/-! ### Items -/

theorem isName_keyword (kind : DeclarationKind) : Text.isName kind.keyword = true := by
  cases kind <;> decide

theorem ofKeyword?_keyword (kind : DeclarationKind) :
    DeclarationKind.ofKeyword? kind.keyword = some kind := by
  cases kind <;> decide

theorem read_declaration (kind : DeclarationKind) (t : Text) :
    Item.read '<' ('!' :: (kind.keyword ++ t)) = match declaration? (kind.keyword ++ t) with
      | some (inside, rest) =>
        match Item.ofDeclaration inside with
        | .ok item => .ok (item, rest)
        | .error fault => .error ⟨fault, '<' :: '!' :: (kind.keyword ++ t)⟩
      | none => .error ⟨.unterminatedDeclaration, '<' :: '!' :: (kind.keyword ++ t)⟩ := by
  cases kind <;> rfl

theorem read_printDeclaration (h : IsDeclared name body) (kind : DeclarationKind)
    (scope : Scope) (rest : Text) :
    Item.read '<' ('!' :: (kind.keyword ++ (inside scope name body ++ '>' :: rest))) =
        .ok (.declaration kind (inside scope name body), rest) := by
  have hkeyword : ∀ c ∈ kind.keyword, c ≠ '>' ∧ Lexer.isQuote c = false := fun c hc =>
    have hchar := isNameChar_of_mem_name (isName_keyword kind) hc
    ⟨ne_of_isNameChar hchar, (plain_of_isNameChar hchar).2⟩
  have hend : declaration? (kind.keyword ++ (inside scope name body ++ '>' :: rest)) =
      some (kind.keyword ++ inside scope name body, rest) := by
    rw [← List.append_assoc]
    exact declarationFrom?_closed (isClosed_append hkeyword (isClosed_inside h scope)) [] rest
  have hname : Text.name? (kind.keyword ++ inside scope name body) =
      some (kind.keyword, inside scope name body) :=
    Text.name?_append (isName_keyword kind) (by cases scope <;> rfl)
  rw [read_declaration, hend]
  simp [Item.ofDeclaration, nameOrEmpty, hname, ofKeyword?_keyword]

/-! ### What a declaration holds -/

theorem isFront_front (scope : Scope) : IsFront scope scope.front := by
  cases scope with
  | general => exact fun c hc => by simp_all [Scope.front, isBlank]
  | parameter => exact ⟨[' '], [' '], rfl, by simp, by simp [isBlank], by simp [isBlank]⟩

/-- The name is told from what stands around it, and the body is trimmed of the blank in
front. -/
theorem read_inside (h : IsDeclared name body) (hscope : scope = .parameter → kind = .entity) :
    kind.read (inside scope name body) = .ok (kind.event scope name body) := by
  have hread : Text.name? (name ++ ' ' :: body) = some (name, ' ' :: body) :=
    Text.name?_append h.isName (by rfl)
  have htrim : Text.trim (' ' :: body) = body := h.isTrimmed
  obtain ⟨hstarts, hpercent⟩ := startsBlank_name_append h.isName (' ' :: body)
  by_cases hkind : kind = .entity
  · have hfront := readScope_front (isFront_front scope) hstarts hpercent
    simp only [DeclarationKind.read, inside, hkind, if_true, hfront, bind, Except.bind,
      hread, htrim]
    rfl
  · have hgeneral : scope = .general := by
      cases scope with
      | general => rfl
      | parameter => exact absurd (hscope rfl) hkind
    subst hgeneral
    have hskip : Text.skipBlanks (inside .general name body) = name ++ ' ' :: body :=
      Text.skipBlanks_append (isFront_front .general) hstarts
    simp only [DeclarationKind.read, hskip, hkind, if_false, bind, Except.bind, pure,
      Except.pure, hread, htrim]

theorem pieces_inside (h : IsDeclared name body)
    (hscope : scope = .parameter → kind = .entity) :
    pieces (kind = .entity) (inside scope name body) = (inside scope name body).map .char := by
  have hname : '%' ∉ name :=
    fun hmem => (plain_of_isNameChar (isNameChar_of_mem_name h.isName hmem)).1 rfl
  have hrest : '%' ∉ name ++ ' ' :: body := by simp [hname, h.noReference]
  by_cases hkind : kind = .entity
  · simp only [hkind, decide_true]
    rw [pieces, inside, pieces_front (isFront_front scope),
      pieces_eq_map_char hrest, ← List.map_append]
  · have hgeneral : scope = .general := by
      cases scope with
      | general => rfl
      | parameter => exact absurd (hscope rfl) hkind
    subst hgeneral
    have hinside : '%' ∉ inside .general name body := by
      rw [inside, List.mem_append, not_or]
      exact ⟨by decide, hrest⟩
    exact pieces_eq_map_char hinside

/-! ### Instructions -/

theorem notInfix_instruction {target data : Text} (hname : Text.isName target = true)
    (hdata : ¬ "?>".toList <:+: data) : ¬ "?>".toList <:+: target ++ ' ' :: data := by
  have hmark : ∀ c ∈ target ++ [' '], c ≠ '?' := by
    intro c hc
    rcases List.mem_append.1 hc with hc | hc
    · exact Text.ne_question_of_mem_name hname hc
    · rw [List.mem_singleton.1 hc]
      decide
  rw [← List.singleton_append, ← List.append_assoc]
  generalize target ++ [' '] = s at hmark
  induction s with
  | nil => exact hdata
  | cons c s ih =>
      obtain ⟨hc, hs⟩ := List.forall_mem_cons.1 hmark
      intro hinfix
      rcases List.infix_cons_iff.1 hinfix with hprefix | hinfix
      · exact hc (List.cons_prefix_cons.1 hprefix).1.symm
      · exact ih hs hinfix

end Markup

open Markup

/-- What is written for an event is one item, whatever follows. -/
theorem Event.Printable.exists_read {e : Event} (h : e.Printable) :
    ∃ t, e.print = '<' :: t ∧ ∀ rest, Item.read '<' (t ++ rest) = .ok (e.item, rest) := by
  have hdeclaration {name body : Text} (h : IsDeclared name body) (kind : DeclarationKind)
      (scope : Scope) : ∃ t, printDeclaration kind scope name body = '<' :: t ∧
        ∀ rest, Item.read '<' (t ++ rest) =
          .ok (.declaration kind (inside scope name body), rest) := by
    refine ⟨_, rfl, fun rest => ?_⟩
    simpa using read_printDeclaration h kind scope rest
  cases e with
  | element name body => exact hdeclaration h .element .general
  | attributeList owner body => exact hdeclaration h .attributeList .general
  | entity scope name body => exact hdeclaration h .entity scope
  | notationType name body => exact hdeclaration h .notationType .general
  | comment text =>
      refine ⟨_, rfl, fun rest => ?_⟩
      have hbreak : Text.breakAt? "-->" (text ++ ("-->".toList ++ rest)) = some (text, rest) :=
        Text.breakAt?_append (m := ['-', '-']) (by decide) h rest
      simp only [List.cons_append, List.append_assoc, Item.read, hbreak]
      rfl
  | instruction target data =>
      obtain ⟨hname, htarget, hdata, hstarts⟩ := h
      refine ⟨_, rfl, fun rest => ?_⟩
      have hbreak : Text.breakAt? "?>" ((target ++ ' ' :: data) ++ ("?>".toList ++ rest)) =
          some (target ++ ' ' :: data, rest) :=
        Text.breakAt?_append (m := ['?']) (by decide) (notInfix_instruction hname hdata) rest
      have hread : Text.name? (target ++ ' ' :: data) = some (target, ' ' :: data) :=
        Text.name?_append hname (by rfl)
      have hskip : Text.skipBlanks (' ' :: data) = data :=
        Text.skipBlanks_append (a := [' ']) (by simp [isBlank]) hstarts
      simp only [List.append_assoc, List.cons_append] at hbreak
      simp only [List.cons_append, List.append_assoc, Item.read, hbreak, Item.ofInstruction,
        hread, htarget, hskip]
      rfl

end Doctype
