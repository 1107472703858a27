import Doctype.Attribute.Definition
import Doctype.Proofs.Text.Lexer

/-!
The grammar of attribute lists, apart from any way of reading it. Each relation says which
texts write a part of a list and what they write: `AttType` a type, `DefaultDecl` a default,
`AttDef` a definition and `AttList` the body of a list. The value in a default is the text
between its quotation marks, as it is written. What a definition is printed as follows the
grammar (`attList_print`).
-/

namespace Doctype.Attribute

namespace Grammar

/-! ### Productions -/

/-- `S?` -/
def Gap (s : Text) : Prop :=
  ∀ c ∈ s, isBlank c = true

/-- `S` -/
def Space (s : Text) : Prop :=
  s ≠ [] ∧ Gap s

/-- A quoted literal and what stands between its quotation marks, where there is no such
mark. -/
inductive Literal : Text → Text → Prop
  | double {v : Text} : '"' ∉ v → Literal ('"' :: (v ++ ['"'])) v
  | single {v : Text} : '\'' ∉ v → Literal ('\'' :: (v ++ ['\''])) v

def IsMember (namesOnly : Bool) (v : Text) : Prop :=
  if namesOnly then Text.isName v = true else Text.IsNmtoken v

/-- `Members ::= S? Member S? (')' | '|' Members)`, which is the rest of a group behind its
parenthesis, `S? Member (S? '|' S? Member)* S? ')'`. -/
inductive Members (namesOnly : Bool) : Text → List Text → Prop
  | last {s v s' : Text} : Gap s → IsMember namesOnly v → Gap s' →
      Members namesOnly (s ++ v ++ s' ++ [')']) [v]
  | more {s v s' t : Text} {vs : List Text} : Gap s → IsMember namesOnly v → Gap s' →
      Members namesOnly t vs → Members namesOnly (s ++ v ++ s' ++ '|' :: t) (v :: vs)

inductive Keyword : Text → Kind → Prop
  | cdata : Keyword "CDATA" .cdata
  | id : Keyword "ID" .id
  | idref : Keyword "IDREF" .idref
  | idrefs : Keyword "IDREFS" .idrefs
  | entity : Keyword "ENTITY" .entity
  | entities : Keyword "ENTITIES" .entities
  | nmtoken : Keyword "NMTOKEN" .nmtoken
  | nmtokens : Keyword "NMTOKENS" .nmtokens

/-- `AttType ::= Keyword | 'NOTATION' S '(' Members | '(' Members` -/
inductive AttType : Text → Kind → Prop
  | keyword {t : Text} {k : Kind} : Keyword t k → AttType t k
  | notations {s t : Text} {ns : List Text} : Space s → Members true t ns →
      AttType ("NOTATION".toList ++ s ++ '(' :: t) (.notations ns)
  | enumeration {t : Text} {vs : List Text} :
      Members false t vs → AttType ('(' :: t) (.enumeration vs)

/-- `DefaultDecl ::= '#REQUIRED' | '#IMPLIED' | '#FIXED' S Literal | Literal`, where there is
no less-than sign in a literal without a keyword. -/
inductive DefaultDecl : Text → Default → Prop
  | required : DefaultDecl "#REQUIRED" .required
  | implied : DefaultDecl "#IMPLIED" .implied
  | fixed {s t v : Text} :
      Space s → Literal t v → DefaultDecl ("#FIXED".toList ++ s ++ t) (.fixed v)
  | plain {t v : Text} : Literal t v → '<' ∉ v → DefaultDecl t (.plain v)

/-- `AttDef ::= Name S AttType S DefaultDecl` -/
inductive AttDef : Text → Definition → Prop
  | mk {n s t s' u : Text} {k : Kind} {d : Default} :
      Text.isName n = true → Space s → AttType t k →
      Space s' → DefaultDecl u d → AttDef (n ++ s ++ t ++ s' ++ u) ⟨n, k, d⟩

/-- `(S AttDef)*` -/
inductive More : Text → List Definition → Prop
  | nil : More [] []
  | cons {s t u : Text} {d : Definition} {ds : List Definition} :
      Space s → AttDef t d → More u ds →
      More (s ++ t ++ u) (d :: ds)

/-- `AttList ::= S? (AttDef (S AttDef)*)? S?` -/
inductive AttList : Text → List Definition → Prop
  | empty {s s' : Text} : Gap s → Gap s' → AttList (s ++ s') []
  | definitions {s t u s' : Text} {d : Definition} {ds : List Definition} :
      Gap s → AttDef t d →
      More u ds → Gap s' → AttList (s ++ t ++ u ++ s') (d :: ds)

/-! ### Literals and keywords -/

variable {t v : Text} {k : Kind}

theorem literal_iff :
    Literal t v ↔ ∃ q, Lexer.isQuote q = true ∧ q ∉ v ∧ t = q :: (v ++ [q]) := by
  constructor
  · rintro (hv | hv)
    · exact ⟨'"', by decide, hv, rfl⟩
    · exact ⟨'\'', by decide, hv, rfl⟩
  · rintro ⟨q, hq, hv, rfl⟩
    obtain rfl | rfl : q = '"' ∨ q = '\'' := by simpa [Lexer.isQuote] using hq
    · exact .double hv
    · exact .single hv

theorem exists_literal_iff : (∃ t, Literal t v) ↔ '"' ∉ v ∨ '\'' ∉ v := by
  constructor
  · rintro ⟨t, hv | hv⟩
    · exact .inl hv
    · exact .inr hv
  · rintro (hv | hv)
    · exact ⟨_, .double hv⟩
    · exact ⟨_, .single hv⟩

theorem keyword_iff : Keyword t k ↔ Kind.ofKeyword? t = some k := by
  constructor
  · rintro ⟨⟩ <;> rfl
  · intro h
    unfold Kind.ofKeyword? at h
    split_ifs at h <;> cases h <;> subst t
    · exact .cdata
    · exact .id
    · exact .idref
    · exact .idrefs
    · exact .entity
    · exact .entities
    · exact .nmtoken
    · exact .nmtokens

theorem Keyword.isName (h : Keyword t k) : Text.isName t = true := by
  cases h <;> decide

theorem IsMember.isNmtoken {namesOnly : Bool} (h : IsMember namesOnly v) :
    Text.IsNmtoken v := by
  unfold IsMember at h
  split at h
  · exact Text.isNmtoken_of_isName h
  · exact h

end Grammar

/-! ### What can be written -/

/-- What a type lists can stand in its group, and it lists something. -/
def Kind.WellFormed : Kind → Prop
  | enumeration vs => vs ≠ [] ∧ ∀ v ∈ vs, Text.IsNmtoken v
  | notations ns => ns ≠ [] ∧ ∀ n ∈ ns, Text.isName n = true
  | _ => True

/-- A value can stand between quotation marks, and has no less-than sign if no keyword is in
front of it. -/
def Default.WellFormed : Default → Prop
  | fixed v => '"' ∉ v ∨ '\'' ∉ v
  | plain v => ('"' ∉ v ∨ '\'' ∉ v) ∧ '<' ∉ v
  | _ => True

structure Definition.WellFormed (d : Definition) : Prop where
  name : Text.isName d.name = true
  kind : d.kind.WellFormed
  default : d.default.WellFormed

/-- A value between quotation marks that are not in it, if there are any such. -/
def quote (v : Text) : Text :=
  if '"' ∈ v then '\'' :: (v ++ ['\'']) else '"' :: (v ++ ['"'])

def Default.print : Default → Text
  | required => "#REQUIRED"
  | implied => "#IMPLIED"
  | fixed v => "#FIXED ".toList ++ quote v
  | plain v => quote v

def Definition.print (d : Definition) : Text :=
  d.name ++ ' ' :: (d.kind.print ++ ' ' :: d.default.print)

def Definition.printAll (ds : List Definition) : Text :=
  Text.join [' '] (ds.map print)

namespace Grammar

variable {ds : List Definition} {d : Definition}

theorem Members.wellFormed {namesOnly : Bool} {vs : List Text} (h : Members namesOnly t vs) :
    vs ≠ [] ∧ ∀ v ∈ vs, IsMember namesOnly v := by
  induction h with
  | last _ hv _ => exact ⟨by simp, by simpa using hv⟩
  | more _ hv _ _ ih => exact ⟨by simp, List.forall_mem_cons.2 ⟨hv, ih.2⟩⟩

theorem AttType.wellFormed (h : AttType t k) : k.WellFormed := by
  cases h with
  | keyword h => cases h <;> trivial
  | notations _ h => exact h.wellFormed
  | enumeration h => exact h.wellFormed

theorem DefaultDecl.wellFormed {d : Default} (h : DefaultDecl t d) : d.WellFormed := by
  cases h with
  | required => trivial
  | implied => trivial
  | fixed _ hv => exact exists_literal_iff.1 ⟨_, hv⟩
  | plain hv hless => exact ⟨exists_literal_iff.1 ⟨_, hv⟩, hless⟩

theorem AttDef.wellFormed (h : AttDef t d) : d.WellFormed := by
  cases h with
  | mk hname _ hkind _ hdefault => exact ⟨hname, hkind.wellFormed, hdefault.wellFormed⟩

theorem More.wellFormed (h : More t ds) : ∀ d ∈ ds, d.WellFormed := by
  induction h with
  | nil => simp
  | cons _ hd _ ih => exact List.forall_mem_cons.2 ⟨hd.wellFormed, ih⟩

theorem AttList.wellFormed (h : AttList t ds) : ∀ d ∈ ds, d.WellFormed := by
  cases h with
  | empty => simp
  | definitions _ hd hds _ => exact List.forall_mem_cons.2 ⟨hd.wellFormed, hds.wellFormed⟩

theorem space_singleton : Space [' '] :=
  ⟨by simp, by simp [Gap, isBlank]⟩

theorem literal_quote (h : '"' ∉ v ∨ '\'' ∉ v) : Literal (quote v) v := by
  unfold quote
  split
  · next hmem => exact .single (h.resolve_left (not_not_intro hmem))
  · next hmem => exact .double hmem

theorem members_join {namesOnly : Bool} {vs : List Text} (hne : vs ≠ [])
    (h : ∀ v ∈ vs, IsMember namesOnly v) :
    Members namesOnly (Text.join ['|'] vs ++ [')']) vs := by
  have hgap : Gap [] := by simp [Gap]
  induction vs with
  | nil => exact absurd rfl hne
  | cons v vs ih =>
      obtain ⟨hv, hvs⟩ := List.forall_mem_cons.1 h
      cases vs with
      | nil => simpa [Text.join] using Members.last hgap hv hgap
      | cons w vs => simpa [Text.join] using Members.more hgap hv hgap (ih (by simp) hvs)

theorem attType_print (h : k.WellFormed) : AttType k.print k := by
  cases k with
  | enumeration vs =>
      have hmembers : Members false (Text.join ['|'] vs ++ [')']) vs := members_join h.1 h.2
      have hprint : (Kind.enumeration vs).print = '(' :: (Text.join ['|'] vs ++ [')']) := rfl
      rw [hprint]
      exact .enumeration hmembers
  | notations ns =>
      have hmembers : Members true (Text.join ['|'] ns ++ [')']) ns := members_join h.1 h.2
      have hprint : (Kind.notations ns).print = "NOTATION".toList ++ [' '] ++
          '(' :: (Text.join ['|'] ns ++ [')']) :=
        rfl
      rw [hprint]
      exact .notations space_singleton hmembers
  | cdata => exact .keyword .cdata
  | id => exact .keyword .id
  | idref => exact .keyword .idref
  | idrefs => exact .keyword .idrefs
  | entity => exact .keyword .entity
  | entities => exact .keyword .entities
  | nmtoken => exact .keyword .nmtoken
  | nmtokens => exact .keyword .nmtokens

theorem defaultDecl_print {d : Default} (h : d.WellFormed) : DefaultDecl d.print d := by
  cases d with
  | required => exact .required
  | implied => exact .implied
  | fixed v =>
      have hprint : (Default.fixed v).print = "#FIXED".toList ++ [' '] ++ quote v := rfl
      rw [hprint]
      exact .fixed space_singleton (literal_quote h)
  | plain v => exact .plain (literal_quote h.1) h.2

theorem attDef_print (h : d.WellFormed) : AttDef d.print d := by
  simpa [Definition.print] using
    AttDef.mk h.name space_singleton (attType_print h.kind) space_singleton
      (defaultDecl_print h.default)

theorem more_print (h : ∀ d ∈ ds, d.WellFormed) :
    More (ds.flatMap fun d => ' ' :: d.print) ds := by
  induction ds with
  | nil => exact .nil
  | cons d ds ih =>
      obtain ⟨hd, hds⟩ := List.forall_mem_cons.1 h
      simpa using More.cons space_singleton (attDef_print hd) (ih hds)

theorem printAll_cons (d : Definition) (ds : List Definition) :
    Definition.printAll (d :: ds) = d.print ++ ds.flatMap fun d => ' ' :: d.print := by
  induction ds generalizing d with
  | nil => simp [Definition.printAll, Text.join]
  | cons e ds ih =>
      have hrest := ih e
      simp only [Definition.printAll, Text.join, List.map_cons] at hrest ⊢
      rw [List.intercalate_cons_cons, hrest]
      simp

/-- Well-formed definitions are written by what is printed of them. -/
theorem attList_print (h : ∀ d ∈ ds, d.WellFormed) : AttList (Definition.printAll ds) ds := by
  have hgap : Gap [] := by simp [Gap]
  cases ds with
  | nil => exact .empty hgap hgap
  | cons d ds =>
      obtain ⟨hd, hds⟩ := List.forall_mem_cons.1 h
      rw [printAll_cons]
      simpa using AttList.definitions hgap (attDef_print hd) (more_print hds) hgap

end Grammar
end Doctype.Attribute
