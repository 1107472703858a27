import Doctype.Attribute.Type
import Doctype.Error
import Doctype.Lexer

/-!
The body of an attribute-list declaration: definitions of a name, a type and a default, with
blanks between all parts. The body is read as a whole or not at all.
-/

namespace Doctype.Attribute

/-- A definition in an attribute list, its default value as written. -/
structure Definition where
  name : Text
  kind : Kind
  default : Default
  deriving DecidableEq

/-- A member of a group: a name, or any name token. -/
def member? (namesOnly : Bool) (t : Text) : Option (Text × Text) :=
  if namesOnly then Text.name? t else Text.nmtoken? t

theorem member?_eq_some {namesOnly : Bool} {t v rest : Text}
    (h : member? namesOnly t = some (v, rest)) : t = v ++ rest ∧ v ≠ [] := by
  unfold member? at h
  split at h
  · exact Text.name?_eq_some h
  · exact Text.nmtoken?_eq_some h

theorem member?_length {namesOnly : Bool} {t v rest : Text}
    (h : member? namesOnly t = some (v, rest)) : rest.length < t.length := by
  obtain ⟨rfl, hne⟩ := member?_eq_some h
  have := List.length_pos_iff.2 hne
  simp only [List.length_append]
  omega

/-- Reads a group from where a member must stand; `done` are the members before it, last
first. -/
def readMembers (namesOnly : Bool) (done : List Text) (t : Text) :
    Except Lexer.Failure (List Text × Text) :=
  match _h : member? namesOnly (Text.skipBlanks t) with
  | none => .error ⟨.expectedGroupMember namesOnly, Text.skipBlanks t⟩
  | some (value, after) =>
    match _h' : Text.skipBlanks after with
    | '|' :: rest => readMembers namesOnly (value :: done) rest
    | ')' :: rest => .ok ((value :: done).reverse, rest)
    | rest => .error ⟨.expectedGroupEnd, rest⟩
termination_by t.length
decreasing_by
  have h1 := member?_length _h
  have h2 := (Text.skipBlanks_suffix t).length_le
  have h3 := (Text.skipBlanks_suffix after).length_le
  rw [_h', List.length_cons] at h3
  omega

def readGroup (namesOnly : Bool) : Lexer (List Text) := fun t => do
  let (_, t) ← Lexer.char '(' t
  readMembers namesOnly [] t

def readKind : Lexer Kind := fun t =>
  match t with
  | '(' :: _ => do
    let (values, t) ← readGroup false t
    return (.enumeration values, t)
  | _ =>
    match Text.name? t with
    | none => .error ⟨.expectedAttributeType, t⟩
    | some (keyword, t) =>
      if keyword = "NOTATION" then do
        let (_, t) ← Lexer.blanks (.blankRequired "after 'NOTATION'") t
        let (names, t) ← readGroup true t
        return (.notations names, t)
      else
        match Kind.ofKeyword? keyword with
        | some kind => .ok (kind, t)
        | none => .error ⟨.unknownAttributeType keyword, t⟩

def readFixed : Lexer Default := fun t => do
  let (_, t) ← Lexer.blanks (.blankRequired "after '#FIXED'") t
  let (value, t) ← Lexer.quoted t
  return (.fixed value, t)

/-- A default value without a keyword, in which no less-than sign may stand. -/
def readPlain : Lexer Default := fun t => do
  let (value, t) ← Lexer.quoted t
  if value.contains '<' then throw ⟨.lessThanInValue, t⟩
  return (.plain value, t)

def readDefault : Lexer Default := fun t =>
  match Lexer.keyword? "#REQUIRED" t with
  | some rest => .ok (.required, rest)
  | none =>
    match Lexer.keyword? "#IMPLIED" t with
    | some rest => .ok (.implied, rest)
    | none =>
      match Lexer.keyword? "#FIXED" t with
      | some rest => readFixed rest
      | none => if Lexer.startsQuoted t then readPlain t else .error ⟨.expectedDefault, t⟩

/-- Blanks between two definitions; none are needed behind the last one. -/
def readGap : Lexer Unit := fun t =>
  match t with
  | [] => .ok ((), [])
  | t => Lexer.blanks (.blankRequired "between attribute definitions") t

def readRest (name : Text) : Lexer Definition := fun t => do
  let (_, t) ← Lexer.blanks (.blankRequired ("after attribute '" ++ name ++ "'")) t
  let (kind, t) ← readKind t
  let (_, t) ← Lexer.blanks (.defaultMissing name) t
  let (default, t) ← readDefault t
  let (_, t) ← readGap t
  return (⟨name, kind, default⟩, t)

theorem readMembers_bounded (namesOnly : Bool) (done : List Text) :
    Lexer.Bounded (readMembers namesOnly done) := by
  intro t vs r h
  fun_induction readMembers namesOnly done t with
  | case1 => cases h
  | case2 done t value after hm rest hs ih =>
    have hafter : after <:+ Text.skipBlanks t := ⟨value, (member?_eq_some hm).1.symm⟩
    have hrest : '|' :: rest <:+ after := hs ▸ Text.skipBlanks_suffix after
    exact (ih h).trans ((List.suffix_cons _ _).trans (hrest.trans
      (hafter.trans (Text.skipBlanks_suffix t))))
  | case3 done t value after hm rest hs =>
    cases h
    have hafter : after <:+ Text.skipBlanks t := ⟨value, (member?_eq_some hm).1.symm⟩
    have hrest : ')' :: r <:+ after := hs ▸ Text.skipBlanks_suffix after
    exact (List.suffix_cons _ _).trans (hrest.trans (hafter.trans (Text.skipBlanks_suffix t)))
  | case4 => cases h

theorem readGroup_bounded (namesOnly : Bool) : Lexer.Bounded (readGroup namesOnly) := by
  intro t vs r h
  obtain ⟨⟨_, t'⟩, h1, h2⟩ := Lexer.bind_eq_ok h
  exact (readMembers_bounded _ _ _ _ _ h2).trans (Lexer.char_bounded _ _ _ _ h1)

theorem readKind_bounded : Lexer.Bounded readKind := by
  intro t k r h
  unfold readKind at h
  split at h
  · next t =>
    obtain ⟨⟨_, t'⟩, h1, h2⟩ := Lexer.bind_eq_ok h
    cases h2
    exact readGroup_bounded _ _ _ _ h1
  · split at h
    · cases h
    · rename_i keyword t1 hn
      have hs : t1 <:+ t := ⟨keyword, (Text.name?_eq_some hn).1.symm⟩
      split at h
      · obtain ⟨⟨_, t2⟩, h1, h2⟩ := Lexer.bind_eq_ok h
        obtain ⟨⟨_, t3⟩, h3, h4⟩ := Lexer.bind_eq_ok h2
        cases h4
        exact (readGroup_bounded _ _ _ _ h3).trans ((Lexer.blanks_bounded _ _ _ _ h1).trans hs)
      · split at h
        · cases h; exact hs
        · cases h

theorem readFixed_bounded : Lexer.Bounded readFixed := by
  intro t d r h
  obtain ⟨⟨_, t1⟩, h1, h2⟩ := Lexer.bind_eq_ok h
  obtain ⟨⟨_, t2⟩, h3, h4⟩ := Lexer.bind_eq_ok h2
  cases h4
  exact (Lexer.quoted_bounded _ _ _ h3).trans (Lexer.blanks_bounded _ _ _ _ h1)

theorem readPlain_bounded : Lexer.Bounded readPlain := by
  intro t d r h
  obtain ⟨⟨v, t1⟩, h1, h2⟩ := Lexer.bind_eq_ok h
  have hs := Lexer.quoted_bounded _ _ _ h1
  dsimp only at h2
  split at h2
  · cases h2
  · cases h2; exact hs

theorem readDefault_bounded : Lexer.Bounded readDefault := by
  intro t d r h
  unfold readDefault at h
  split at h
  · next hk => cases h; exact Lexer.keyword?_suffix hk
  · split at h
    · next hk => cases h; exact Lexer.keyword?_suffix hk
    · split at h
      · next hk => exact (readFixed_bounded _ _ _ h).trans (Lexer.keyword?_suffix hk)
      · split at h
        · exact readPlain_bounded _ _ _ h
        · cases h

theorem readGap_bounded : Lexer.Bounded readGap := by
  intro t u r h
  unfold readGap at h
  split at h
  · cases h; exact List.suffix_rfl
  · exact Lexer.blanks_bounded _ _ _ _ h

theorem readRest_bounded (name : Text) : Lexer.Bounded (readRest name) := by
  intro t d r h
  obtain ⟨⟨_, t1⟩, h1, h⟩ := Lexer.bind_eq_ok h
  obtain ⟨⟨k, t2⟩, h2, h⟩ := Lexer.bind_eq_ok h
  obtain ⟨⟨_, t3⟩, h3, h⟩ := Lexer.bind_eq_ok h
  obtain ⟨⟨v, t4⟩, h4, h⟩ := Lexer.bind_eq_ok h
  obtain ⟨⟨_, t5⟩, h5, h⟩ := Lexer.bind_eq_ok h
  cases h
  exact (readGap_bounded _ _ _ h5).trans ((readDefault_bounded _ _ _ h4).trans
    ((Lexer.blanks_bounded _ _ _ _ h3).trans ((readKind_bounded _ _ _ h2).trans
      (Lexer.blanks_bounded _ _ _ _ h1))))

/-- Reads definitions to the end of the text; `done` are the ones before, last first. -/
def readDefinitions (done : List Definition) (t : Text) :
    Except Lexer.Failure (List Definition) :=
  match _hs : Text.skipBlanks t with
  | [] => .ok done.reverse
  | c :: front =>
    match _hn : Text.name? (c :: front) with
    | none => .error ⟨.expectedAttributeName, c :: front⟩
    | some (name, after) =>
      match _hr : readRest name after with
      | .error f => .error f
      | .ok (d, rest) => readDefinitions (d :: done) rest
termination_by t.length
decreasing_by
  obtain ⟨hn, hne⟩ := Text.name?_eq_some _hn
  have h1 := (Text.skipBlanks_suffix t).length_le
  have h2 := congrArg List.length hn
  have h3 := (readRest_bounded _ _ _ _ _hr).length_le
  have h4 := List.length_pos_iff.2 hne
  rw [_hs] at h1
  simp only [List.length_append] at h2
  omega

def Definition.parseAll (t : Text) : Except Lexer.Error (List Definition) :=
  (readDefinitions [] t).mapError (·.toError t)

/-- The definitions in the attribute list of an element, or an error about the list. -/
def Definition.parseFor (element raw : Text) : Except Error (List Definition) :=
  (parseAll raw).mapError fun e => .attributeList ⟨element, raw, e⟩

end Doctype.Attribute
