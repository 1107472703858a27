import Mathlib.Data.Nat.Init
import Doctype.Proofs.Markup.Expansion

/-!
Expansions as trees. The pieces of a text are opened to a tree that holds, in place of each
reference to an entity, what the replacement text of the entity is opened to (`Opened`,
`Opens`). From the tree can be read what is written for it, which is what the pieces are
expanded to (`Opens.expands`), what would be written if every replacement were inserted as it
is, and how many entities are entered and how deep. A text has a tree where no entity leads
back to itself (`exists_opens`).
-/

namespace Doctype.Markup

/-- A text in which references to entities are opened to what their replacement texts are
opened to. -/
inductive Opened
  | nil
  | char (c : Char) (rest : Opened)
  | undeclared (name : Text) (rest : Opened)
  | declared (name : Text) (isQuoted : Bool) (body rest : Opened)

namespace Opened

/-- The text with every replacement as it is. -/
def asIs : Opened → Text
  | nil => []
  | char c rest => c :: rest.asIs
  | undeclared name rest => writeReference name ++ rest.asIs
  | declared _ _ body rest => body.asIs ++ rest.asIs

/-- The text with every replacement as it is inserted. -/
def written : Opened → Text
  | nil => []
  | char c rest => c :: rest.written
  | undeclared name rest => writeReference name ++ rest.written
  | declared _ isQuoted body rest => inserted isQuoted body.written ++ rest.written

/-- How many replacements stand outside of quotation marks in the text that refers to them. -/
def paddings : Opened → Nat
  | nil => 0
  | char _ rest => rest.paddings
  | undeclared _ rest => rest.paddings
  | declared _ isQuoted body rest =>
    (if isQuoted then 0 else 1) + body.paddings + rest.paddings

def count : Opened → Nat
  | nil => 0
  | char _ rest => rest.count
  | undeclared _ rest => rest.count
  | declared _ _ body rest => 1 + body.count + rest.count

def depth : Opened → Nat
  | nil => 0
  | char _ rest => rest.depth
  | undeclared _ rest => rest.depth
  | declared _ _ body rest => max (body.depth + 1) rest.depth

def largest : Opened → Nat
  | nil => 0
  | char _ rest => rest.largest
  | undeclared _ rest => rest.largest
  | declared _ _ body rest => max (max (Text.size body.written) body.largest) rest.largest

def names : Opened → List Text
  | nil => []
  | char _ rest => rest.names
  | undeclared _ rest => rest.names
  | declared name _ body rest => name :: (body.names ++ rest.names)

def append : Opened → Opened → Opened
  | nil, o => o
  | char c rest, o => char c (rest.append o)
  | undeclared name rest, o => undeclared name (rest.append o)
  | declared name isQuoted body rest, o => declared name isQuoted body (rest.append o)

def ofText (t : Text) : Opened :=
  t.foldr char nil

section Append

variable (o o' : Opened)

@[simp] theorem written_append : (o.append o').written = o.written ++ o'.written := by
  induction o with
  | nil => rfl
  | char c rest ih => simp [append, written, ih]
  | undeclared name rest ih => simp [append, written, ih]
  | declared name isQuoted body rest _ ih => simp [append, written, ih]

@[simp] theorem count_append : (o.append o').count = o.count + o'.count := by
  induction o with
  | nil => simp [append, count]
  | char c rest ih => simp [append, count, ih]
  | undeclared name rest ih => simp [append, count, ih]
  | declared name isQuoted body rest _ ih => simp [append, count, ih, Nat.add_assoc]

@[simp] theorem depth_append : (o.append o').depth = max o.depth o'.depth := by
  induction o with
  | nil => simp [append, depth]
  | char c rest ih => simp [append, depth, ih]
  | undeclared name rest ih => simp [append, depth, ih]
  | declared name isQuoted body rest _ ih => simp [append, depth, ih, Nat.max_assoc]

@[simp] theorem largest_append : (o.append o').largest = max o.largest o'.largest := by
  induction o with
  | nil => simp [append, largest]
  | char c rest ih => simp [append, largest, ih]
  | undeclared name rest ih => simp [append, largest, ih]
  | declared name isQuoted body rest _ ih => simp [append, largest, ih, Nat.max_assoc]

@[simp] theorem names_append : (o.append o').names = o.names ++ o'.names := by
  induction o with
  | nil => rfl
  | char c rest ih => simp [append, names, ih]
  | undeclared name rest ih => simp [append, names, ih]
  | declared name isQuoted body rest _ ih => simp [append, names, ih]

end Append

@[simp] theorem ofText_eq (t : Text) : (ofText t).written = t ∧ (ofText t).count = 0 ∧
    (ofText t).depth = 0 ∧ (ofText t).largest = 0 ∧ (ofText t).names = [] := by
  induction t with
  | nil => exact ⟨rfl, rfl, rfl, rfl, rfl⟩
  | cons c t ih =>
      obtain ⟨hwritten, hcount, hdepth, hlargest, hnames⟩ := ih
      exact ⟨congrArg (c :: ·) hwritten, hcount, hdepth, hlargest, hnames⟩

/-! ### Padding -/

theorem sublist_written (o : Opened) : List.Sublist o.asIs o.written := by
  induction o with
  | nil => exact .slnil
  | char c rest ih => exact ih.cons_cons c
  | undeclared name rest ih => exact (List.Sublist.refl _).append ih
  | declared name isQuoted body rest ihbody ih =>
      refine List.Sublist.append (ihbody.trans ?_) ih
      cases isQuoted with
      | true => exact .refl _
      | false => exact .cons _ (List.sublist_append_left _ _)

theorem length_written (o : Opened) : o.written.length = o.asIs.length + 2 * o.paddings := by
  induction o with
  | nil => rfl
  | char c rest ih => simp only [written, asIs, paddings, List.length_cons, ih]; omega
  | undeclared name rest ih =>
      simp only [written, asIs, paddings, List.length_append, ih]; omega
  | declared name isQuoted body rest ihbody ih =>
      have hinserted : (inserted isQuoted body.written).length =
          body.written.length + 2 * (if isQuoted then 0 else 1) := by
        cases isQuoted <;> simp [inserted]
      simp only [written, asIs, paddings, List.length_append, hinserted, ihbody, ih]
      omega

theorem written_eq_asIs_iff (o : Opened) : o.written = o.asIs ↔ o.paddings = 0 := by
  have hlength := o.length_written
  constructor
  · intro h
    rw [h] at hlength
    omega
  · intro h
    exact (o.sublist_written.eq_of_length (by omega)).symm

end Opened

/-! ### Opening a text -/

/-- `Opens resolver entities inLiterals asked ps o asked'`: after the requests `asked`, the
pieces of a text are opened to the tree `o`, which leaves the requests `asked'`. No entity
leads back to itself. -/
inductive Opens (resolver : Resolver) (entities : List (Text × Replacement))
    (inLiterals : Bool) : List Request → List Piece → Opened → List Request → Prop
  | nil {asked : List Request} : Opens resolver entities inLiterals asked [] .nil asked
  | char {asked asked' : List Request} {c : Char} {ps : List Piece} {o : Opened} :
      Opens resolver entities inLiterals asked ps o asked' →
        Opens resolver entities inLiterals asked (.char c :: ps) (.char c o) asked'
  | undeclared {asked asked' : List Request} {name : Text} {isQuoted : Bool} {ps : List Piece}
      {o : Opened} :
      entities.lookup name = none → Opens resolver entities inLiterals asked ps o asked' →
        Opens resolver entities inLiterals asked (.reference name isQuoted :: ps)
          (.undeclared name o) asked'
  | declared {asked asked₁ asked' : List Request} {name : Text} {isQuoted : Bool}
      {r : Replacement} {u : Text} {body : Opened} {ps : List Piece} {o : Opened} :
      entities.lookup name = some r → r.text? resolver asked = some u →
        Opens resolver entities inLiterals (asked ++ r.requests) (pieces inLiterals u)
          body asked₁ →
          name ∉ body.names → Opens resolver entities inLiterals asked₁ ps o asked' →
            Opens resolver entities inLiterals asked (.reference name isQuoted :: ps)
              (.declared name isQuoted body o) asked'

namespace Opens

variable {resolver : Resolver} {entities : List (Text × Replacement)} {inLiterals : Bool}
  {asked asked' asked₁ : List Request} {ps : List Piece} {o o' : Opened}

theorem append {qs : List Piece} (h : Opens resolver entities inLiterals asked ps o asked₁)
    (h' : Opens resolver entities inLiterals asked₁ qs o' asked') :
    Opens resolver entities inLiterals asked (ps ++ qs) (o.append o') asked' := by
  induction h with
  | nil => exact h'
  | char _ ih => exact .char (ih h')
  | undeclared hname _ ih => exact .undeclared hname (ih h')
  | declared hname htext hbody hfree _ _ ih => exact .declared hname htext hbody hfree (ih h')

theorem ofText (t : Text) :
    Opens resolver entities inLiterals asked (t.map .char) (.ofText t) asked := by
  induction t with
  | nil => exact .nil
  | cons c t ih => exact .char ih

/-- What the pieces are expanded to is what is written for their tree. -/
theorem expands (h : Opens resolver entities inLiterals asked ps o asked') :
    Expands resolver entities inLiterals asked ps o.written asked' := by
  induction h with
  | nil => exact .nil
  | char _ ih => exact .char ih
  | undeclared hname _ ih => exact .undeclared hname ih
  | declared hname htext _ _ _ ihbody ih => exact .declared hname htext ihbody ih

end Opens

/-- The entities that the replacement texts refer to, as far as they are declared, are of lower
rank than the entities of these texts, and all these texts can be found. So no entity leads
back to itself. -/
structure Descends (resolver : Resolver) (entities : List (Text × Replacement))
    (inLiterals : Bool) (rank : Text → Nat) : Prop where
  exists_text : ∀ {name r}, entities.lookup name = some r → ∀ asked, ∃ u,
    r.text? resolver asked = some u
  rank_lt : ∀ {name r asked u n isQuoted}, entities.lookup name = some r →
    r.text? resolver asked = some u →
    .reference n isQuoted ∈ pieces inLiterals u → (entities.lookup n).isSome →
    rank n < rank name

section Existence

variable {resolver : Resolver} {entities : List (Text × Replacement)} {inLiterals : Bool}
  {rank : Text → Nat}

theorem exists_opens_of_rank_lt (h : Descends resolver entities inLiterals rank)
    (bound : Nat) (asked : List Request) (ps : List Piece)
    (hps : ∀ n isQuoted, .reference n isQuoted ∈ ps → (entities.lookup n).isSome →
      rank n < bound) :
    ∃ o asked', Opens resolver entities inLiterals asked ps o asked' ∧ ∀ n ∈ o.names,
      rank n < bound := by
  -- the rank falls from a text to its replacements, and the pieces of one text are taken in
  -- their order
  induction bound using Nat.strong_induction_on generalizing asked ps with
  | _ bound ih =>
      induction ps generalizing asked with
      | nil => exact ⟨_, _, .nil, by simp [Opened.names]⟩
      | cons p ps ihps =>
          have htail (asked : List Request) :=
            ihps asked fun n isQuoted hmem => hps n isQuoted (List.mem_cons_of_mem _ hmem)
          cases p with
          | char c =>
              obtain ⟨o, asked', ho, hnames⟩ := htail asked
              exact ⟨_, _, .char ho, hnames⟩
          | reference name isQuoted =>
              cases hname : entities.lookup name with
              | none =>
                  obtain ⟨o, asked', ho, hnames⟩ := htail asked
                  exact ⟨_, _, .undeclared hname ho, hnames⟩
              | some r =>
                  have hrank := hps name isQuoted List.mem_cons_self (by simp [hname])
                  obtain ⟨u, htext⟩ := h.exists_text hname asked
                  obtain ⟨body, asked₁, hbody, hinner⟩ :=
                    ih (rank name) hrank (asked ++ r.requests)
                    (pieces inLiterals u) fun n isQuoted hmem => h.rank_lt hname htext hmem
                  obtain ⟨o, asked', ho, hnames⟩ := htail asked₁
                  have hfree : name ∉ body.names :=
                    fun hmem => Nat.lt_irrefl _ (hinner name hmem)
                  refine ⟨_, _, .declared hname htext hbody hfree ho, fun n hn => ?_⟩
                  simp only [Opened.names, List.mem_cons, List.mem_append] at hn
                  rcases hn with rfl | hn | hn
                  · exact hrank
                  · exact Nat.lt_trans (hinner n hn) hrank
                  · exact hnames n hn

/-- Where no entity leads back to itself, every text has a tree. -/
theorem exists_opens (h : Descends resolver entities inLiterals rank) (asked : List Request)
    (ps : List Piece) : ∃ o asked', Opens resolver entities inLiterals asked ps o asked' := by
  have hbound : ∃ bound, ∀ n isQuoted, .reference n isQuoted ∈ ps → rank n < bound := by
    induction ps with
    | nil => exact ⟨0, by simp⟩
    | cons p ps ih =>
        obtain ⟨bound, hbound⟩ := ih
        cases p with
        | char c => exact ⟨bound, by simpa using hbound⟩
        | reference name isQuoted =>
            refine ⟨max bound (rank name + 1), fun n q hmem => ?_⟩
            rcases List.mem_cons.1 hmem with hfirst | hrest
            · cases hfirst
              omega
            · have := hbound n q hrest
              omega
  obtain ⟨bound, hbound⟩ := hbound
  obtain ⟨o, asked', ho, -⟩ :=
    exists_opens_of_rank_lt h bound asked ps fun n isQuoted hmem _ => hbound n isQuoted hmem
  exact ⟨o, asked', ho⟩

end Existence

end Doctype.Markup
