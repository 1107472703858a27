import Doctype.Markup.Fault
import Doctype.Text.Search

/-!
The items of markup: comments, processing instructions, declarations with their bodies as
written, references to parameter entities, and the starts of conditional sections. Reading an
item looks at the text alone and always leaves less of it (`Item.read_length`).
-/

namespace Doctype.Markup

/-- How the keyword of a conditional section is given: as it is, or by a parameter entity. -/
inductive SectionKeyword
  | literal (keyword : Text)
  | reference (name : Text)
  deriving DecidableEq

/-- An item of markup. The start of a section keeps the text from its keyword on, which is
where a fault of the keyword is told. -/
inductive Item
  | comment (text : Text)
  | instruction (target data : Text)
  | textDeclaration
  | declaration (kind : DeclarationKind) (body : Text)
  | reference (name : Text)
  | sectionStart (keyword : SectionKeyword) (start : Text)

structure Failure where
  fault : Fault
  rest : Text

/-- The name in a reference to a parameter entity, its percent sign already read, and what is
left. -/
def reference? (t : Text) : Option (Text × Text) :=
  match Text.name? t with
  | some (name, ';' :: rest) => some (name, rest)
  | _ => none

theorem reference?_eq_some {t name rest : Text} (h : reference? t = some (name, rest)) :
    t = name ++ ';' :: rest := by
  unfold reference? at h
  split at h
  · next hn =>
    cases h
    exact (Text.name?_eq_some hn).1
  · cases h

/-- The quotation mark that is open behind the character `c`. -/
def quoteAfter (quote : Option Char) (c : Char) : Option Char :=
  match quote with
  | none => if Lexer.isQuote c then some c else none
  | some q => if c = q then none else some q

/-- The text up to the first `>` outside quotation marks, and what is behind it; `quote` is the
mark that is open, and `done` is what was passed, reversed. -/
def declarationFrom? (quote : Option Char) (done : Text) : Text → Option (Text × Text)
  | [] => none
  | c :: t =>
    if c = '>' && quote.isNone then some (done.reverse, t)
    else declarationFrom? (quoteAfter quote c) (c :: done) t

def declaration? (t : Text) : Option (Text × Text) :=
  declarationFrom? none [] t

theorem declarationFrom?_eq_some {quote : Option Char} {done t inside rest : Text}
    (h : declarationFrom? quote done t = some (inside, rest)) :
    done.reverse ++ t = inside ++ '>' :: rest := by
  fun_induction declarationFrom? quote done t with
  | case1 => simp at h
  | case2 quote done c t hc =>
    simp only [Bool.and_eq_true, decide_eq_true_eq] at hc
    cases h
    rw [hc.1]
  | case3 quote done c t _ ih => simpa using ih h

def DeclarationKind.ofKeyword? (keyword : Text) : Option DeclarationKind :=
  if keyword = "ELEMENT" then some element
  else if keyword = "ATTLIST" then some attributeList
  else if keyword = "NOTATION" then some notationType
  else if keyword = "ENTITY" then some entity
  else none

def nameOrEmpty (t : Text) : Text × Text :=
  (Text.name? t).getD ([], t)

theorem nameOrEmpty_append (t : Text) : (nameOrEmpty t).1 ++ (nameOrEmpty t).2 = t := by
  unfold nameOrEmpty
  cases h : Text.name? t with
  | none => simp
  | some p => simp [← (Text.name?_eq_some h).1]

namespace Item

def ofDeclaration (inside : Text) : Except Fault Item :=
  let (keyword, body) := nameOrEmpty inside
  match DeclarationKind.ofKeyword? keyword with
  | some kind => .ok (.declaration kind body)
  | none => .error (if keyword.isEmpty then .keywordMissing else .unknownDeclaration keyword)

/-- Whether a target is the one of text declarations, in letters of any case. -/
def isDeclarationTarget (target : Text) : Bool :=
  target.map Char.toLower = "xml"

def ofInstruction (inside : Text) : Except Fault Item :=
  match Text.name? inside with
  | some (target, data) =>
    .ok (if isDeclarationTarget target then .textDeclaration
      else .instruction target (Text.skipBlanks data))
  | none => .error .instructionWithoutTarget

/-- Reads the keyword of a conditional section from where it must stand. -/
def readSectionStart (start : Text) : Except Failure (Item × Text) :=
  match start with
  | '%' :: t =>
    match reference? t with
    | some (name, rest) => .ok (.sectionStart (.reference name) start, rest)
    | none => .error ⟨.malformedReference, start⟩
  | _ =>
    let (keyword, rest) := nameOrEmpty start
    .ok (.sectionStart (.literal keyword) start, rest)

/-- Reads the item that begins with the character `c` and goes on in the text `t`. -/
def read (c : Char) (t : Text) : Except Failure (Item × Text) :=
  match c, t with
  | '<', '!' :: '-' :: '-' :: body =>
    match Text.breakAt? "-->" body with
    | some (text, rest) => .ok (.comment text, rest)
    | none => .error ⟨.unterminatedComment, c :: t⟩
  | '<', '?' :: body =>
    match Text.breakAt? "?>" body with
    | some (inside, rest) =>
      match ofInstruction inside with
      | .ok item => .ok (item, rest)
      | .error fault => .error ⟨fault, c :: t⟩
    | none => .error ⟨.unterminatedInstruction, c :: t⟩
  | '<', '!' :: '[' :: body => readSectionStart (Text.skipBlanks body)
  | '<', '!' :: body =>
    match declaration? body with
    | some (inside, rest) =>
      match ofDeclaration inside with
      | .ok item => .ok (item, rest)
      | .error fault => .error ⟨fault, c :: t⟩
    | none => .error ⟨.unterminatedDeclaration, c :: t⟩
  | '%', body =>
    match reference? body with
    | some (name, rest) => .ok (.reference name, rest)
    | none => .error ⟨.malformedReference, c :: t⟩
  | c, t => .error ⟨.unexpectedChar c, c :: t⟩

theorem readSectionStart_length {start rest : Text} {item : Item}
    (h : readSectionStart start = .ok (item, rest)) : rest.length ≤ start.length := by
  unfold readSectionStart at h
  split at h
  · split at h
    · next hr =>
      cases h
      simp [reference?_eq_some hr]
      omega
    · cases h
  · have hl := congrArg List.length (nameOrEmpty_append start)
    rw [List.length_append] at hl
    generalize nameOrEmpty start = p at h hl
    cases h
    omega

/-- What an item leaves is no longer than what is behind its first character. -/
theorem read_length {c : Char} {t rest : Text} {item : Item}
    (h : read c t = .ok (item, rest)) : rest.length ≤ t.length := by
  unfold read at h
  split at h
  · split at h
    · next hb =>
      cases h
      simp [Text.breakAt?_eq_some hb]
      omega
    · cases h
  · split at h
    · next hb =>
      split at h <;> cases h
      simp [Text.breakAt?_eq_some hb]
      omega
    · cases h
  · next body =>
    have := readSectionStart_length h
    have := (Text.skipBlanks_suffix body).length_le
    simp only [List.length_cons]
    omega
  · split at h
    · next hb =>
      have hd := declarationFrom?_eq_some hb
      split at h <;> cases h
      simp only [List.reverse_nil, List.nil_append] at hd
      simp [hd]
      omega
    · cases h
  · split at h
    · next hr =>
      cases h
      simp [reference?_eq_some hr]
      omega
    · cases h
  · cases h

end Item
end Doctype.Markup
