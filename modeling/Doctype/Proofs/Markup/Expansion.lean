import Doctype.Proofs.Markup.Scanning

/-!
What the references of a text are expanded to, as a relation between its pieces and the
resulting text (`Expands`), and that a run which expands a text gives such a text and leaves
declarations, the handler and the stack of entities as they were (`expand_eq_ok`).
-/

namespace Doctype.Markup

variable {σ α β : Type}

/-! ### Runs -/

theorem bind_eq_ok {x : Scan σ α} {f : α → Scan σ β} {s s' : State σ} {b : β}
    (h : (x >>= f) s = .ok b s') : ∃ a s₁, x s = .ok a s₁ ∧ f a s₁ = .ok b s' := by
  change EStateM.bind x f s = .ok b s' at h
  unfold EStateM.bind at h
  split at h
  · exact ⟨_, _, ‹_›, h⟩
  · cases h

theorem check_eq_ok {checked : Except Limits.Excess Unit} {s s' : State σ} {u : Unit}
    (h : check checked s = .ok u s') : s' = s := by
  cases checked with
  | error e => cases h
  | ok _ => cases h; rfl

theorem enter_eq_ok {c : Setting σ} {fail : Fault → Error} {deeper : Option β} {name : Text}
    {s s' : State σ} {next : β} (h : enter c fail deeper name s = .ok next s') :
    deeper = some next ∧
        s' = { s with active := s.active ++ [name], expansions := s.expansions + 1 } := by
  unfold enter at h
  obtain ⟨s₀, s₁, hget, h⟩ := bind_eq_ok h
  cases hget
  by_cases hactive : s.active.contains name = true
  · simp only [hactive, if_true] at h
    obtain ⟨_, s₁, hthrow, -⟩ := bind_eq_ok h
    cases hthrow
  · simp only [hactive, Bool.false_eq_true, if_false] at h
    obtain ⟨_, s₂, hset, hrest⟩ := bind_eq_ok h
    cases hset
    obtain ⟨_, s₃, hcheck, hnext⟩ := bind_eq_ok hrest
    cases check_eq_ok hcheck
    cases deeper with
    | none => cases hnext
    | some next' =>
        cases hnext
        exact ⟨rfl, rfl⟩

structure State.Keeps (s s' : State σ) : Prop where
  handled : s'.handled = s.handled
  entities : s'.entities = s.entities
  active : s'.active = s.active

namespace State.Keeps

theorem refl (s : State σ) : s.Keeps s :=
  ⟨rfl, rfl, rfl⟩

theorem trans {s s₁ s₂ : State σ} (h : s.Keeps s₁) (h' : s₁.Keeps s₂) : s.Keeps s₂ :=
  ⟨h'.handled.trans h.handled, h'.entities.trans h.entities, h'.active.trans h.active⟩

end State.Keeps

/-! ### The expansion of pieces -/

def Replacement.requests : Replacement → List Request
  | internal _ => []
  | external id base => [⟨base, id⟩]

/-- The replacement text of an entity, if it is known or can be found after what was asked
before. -/
def Replacement.text? (resolver : Resolver) (asked : List Request) : Replacement → Option Text
  | internal text => some text
  | external id base => (resolver.answer asked ⟨base, id⟩).toOption.map Resource.text

/-- A replacement as it is inserted: between quotation marks as it is, and else between
spaces. -/
def inserted (isQuoted : Bool) (t : Text) : Text :=
  if isQuoted then t else ' ' :: t ++ [' ']

/-- `Expands resolver entities inLiterals asked ps t asked'`: after the requests `asked`, the
pieces are expanded to the text `t`, which leaves the requests `asked'`. A reference to an
entity stands for the expansion of its replacement text, and one that is undeclared for
itself. -/
inductive Expands (resolver : Resolver) (entities : List (Text × Replacement))
    (inLiterals : Bool) : List Request → List Piece → Text → List Request → Prop
  | nil {asked : List Request} : Expands resolver entities inLiterals asked [] [] asked
  | char {asked asked' : List Request} {c : Char} {ps : List Piece} {t : Text} :
      Expands resolver entities inLiterals asked ps t asked' →
        Expands resolver entities inLiterals asked (.char c :: ps) (c :: t) asked'
  | undeclared {asked asked' : List Request} {name : Text} {isQuoted : Bool} {ps : List Piece}
      {t : Text} :
      entities.lookup name = none → Expands resolver entities inLiterals asked ps t asked' →
        Expands resolver entities inLiterals asked (.reference name isQuoted :: ps)
          (writeReference name ++ t) asked'
  | declared {asked asked₁ asked' : List Request} {name : Text} {isQuoted : Bool}
      {r : Replacement} {u v : Text} {ps : List Piece} {t : Text} :
      entities.lookup name = some r → r.text? resolver asked = some u →
        Expands resolver entities inLiterals (asked ++ r.requests)
          (pieces inLiterals u) v asked₁ →
          Expands resolver entities inLiterals asked₁ ps t asked' →
            Expands resolver entities inLiterals asked (.reference name isQuoted :: ps)
              (inserted isQuoted v ++ t) asked'

namespace Expands

variable {resolver : Resolver} {entities : List (Text × Replacement)} {inLiterals : Bool}
  {asked asked' asked₁ : List Request} {ps qs : List Piece} {t u : Text}

theorem append (h : Expands resolver entities inLiterals asked ps t asked₁)
    (h' : Expands resolver entities inLiterals asked₁ qs u asked') :
    Expands resolver entities inLiterals asked (ps ++ qs) (t ++ u) asked' := by
  induction h with
  | nil => exact h'
  | char _ ih => exact .char (ih h')
  | undeclared hname _ ih => exact List.append_assoc _ _ u ▸ .undeclared hname (ih h')
  | declared hname htext hexpands _ _ ih =>
      exact List.append_assoc _ _ u ▸ .declared hname htext hexpands (ih h')

theorem exists_of_append (h : Expands resolver entities inLiterals asked (ps ++ qs) t asked') :
    ∃ u v asked₁, t = u ++ v ∧ Expands resolver entities inLiterals asked ps u asked₁ ∧
      Expands resolver entities inLiterals asked₁ qs v asked' := by
  induction ps generalizing asked t with
  | nil => exact ⟨[], t, asked, rfl, .nil, h⟩
  | cons p ps ih =>
      cases h with
      | char hrest =>
          obtain ⟨u, v, asked₁, rfl, hu, hv⟩ := ih hrest
          exact ⟨_ :: u, v, asked₁, rfl, .char hu, hv⟩
      | undeclared hname hrest =>
          obtain ⟨u, v, asked₁, rfl, hu, hv⟩ := ih hrest
          exact ⟨_, v, asked₁, (List.append_assoc _ u v).symm, .undeclared hname hu, hv⟩
      | declared hname htext hexpands hrest =>
          obtain ⟨u, v, asked₁, rfl, hu, hv⟩ := ih hrest
          exact ⟨_, v, asked₁, (List.append_assoc _ u v).symm,
            .declared hname htext hexpands hu, hv⟩

theorem eq_of_chars {s : Text}
    (h : Expands resolver entities inLiterals asked (s.map .char) t asked') :
    t = s ∧ asked' = asked := by
  induction s generalizing t with
  | nil => cases h; exact ⟨rfl, rfl⟩
  | cons c s ih =>
      cases h with
      | char hrest => exact ⟨congrArg (c :: ·) (ih hrest).1, (ih hrest).2⟩

theorem unique (h : Expands resolver entities inLiterals asked ps t asked')
    (h' : Expands resolver entities inLiterals asked ps u asked₁) :
    t = u ∧ asked' = asked₁ := by
  induction h generalizing u asked₁ with
  | nil => cases h'; exact ⟨rfl, rfl⟩
  | char _ ih =>
      cases h' with
      | char hrest =>
          obtain ⟨rfl, rfl⟩ := ih hrest
          exact ⟨rfl, rfl⟩
  | undeclared hname _ ih =>
      cases h' with
      | undeclared _ hrest =>
          obtain ⟨rfl, rfl⟩ := ih hrest
          exact ⟨rfl, rfl⟩
      | declared hname' _ _ _ => simp [hname] at hname'
  | declared hname htext _ _ ihtext ih =>
      cases h' with
      | undeclared hname' _ => simp [hname] at hname'
      | declared hname' htext' hexpands hrest =>
          rw [hname] at hname'
          cases hname'
          rw [htext] at htext'
          cases htext'
          obtain ⟨rfl, rfl⟩ := ihtext hexpands
          obtain ⟨rfl, rfl⟩ := ih hrest
          exact ⟨rfl, rfl⟩

/-- The characters of an expansion are those of the expansions of the pieces, each after the
ones in front. -/
theorem mem_iff {x : Char} (h : Expands resolver entities inLiterals asked ps t asked') :
    x ∈ t ↔ ∃ front p behind u v asked₁ asked₂, ps = front ++ p :: behind ∧
      Expands resolver entities inLiterals asked front u asked₁ ∧
        Expands resolver entities inLiterals asked₁ [p] v asked₂ ∧ x ∈ v := by
  constructor
  · intro hx
    induction ps generalizing asked t with
    | nil =>
        cases h
        cases hx
    | cons p ps ih =>
        rw [← List.singleton_append] at h
        obtain ⟨u, v, asked₁, rfl, hu, hv⟩ := h.exists_of_append
        rcases List.mem_append.1 hx with hx | hx
        · exact ⟨[], p, ps, [], u, asked, asked₁, rfl, .nil, hu, hx⟩
        · obtain ⟨front, q, behind, w, v, asked₂, asked₃, rfl, hfront, hq, hx⟩ := ih hv hx
          exact ⟨p :: front, q, behind, u ++ w, v, asked₂, asked₃, rfl,
            hu.append hfront, hq, hx⟩
  · rintro ⟨front, p, behind, u, v, asked₁, asked₂, rfl, hu, hv, hx⟩
    obtain ⟨u', w, _, rfl, hu', hw⟩ := h.exists_of_append
    obtain ⟨rfl, rfl⟩ := hu.unique hu'
    rw [← List.singleton_append] at hw
    obtain ⟨v', _, _, rfl, hv', -⟩ := hw.exists_of_append
    obtain ⟨rfl, -⟩ := hv.unique hv'
    simp [hx]

end Expands

/-! ### Runs that expand -/

def Replaces (c : Setting σ) (inLiterals : Bool) (replace : Text → Scan σ (Option Text)) :
    Prop :=
  ∀ name s o s', replace name s = .ok o s' → s.Keeps s' ∧
    ((o = none ∧ s.entities.lookup name = none ∧ s'.asked = s.asked) ∨
      ∃ r u v, o = some v ∧ s.entities.lookup name = some r ∧
        r.text? c.resolver s.asked = some u ∧
        Expands c.resolver s.entities inLiterals (s.asked ++ r.requests)
          (pieces inLiterals u) v s'.asked)

def ExpandsTexts (c : Setting σ) (inLiterals : Bool) (run : Text → Scan σ Text) : Prop :=
  ∀ t s out s', run t s = .ok out s' →
    s.Keeps s' ∧ Expands c.resolver s.entities inLiterals s.asked (pieces inLiterals t)
      out s'.asked

section Run

variable {c : Setting σ} {fail : Fault → Error} {inLiterals : Bool}

theorem foldlM_expandPiece {replace : Text → Scan σ (Option Text)}
    (h : Replaces c inLiterals replace) {ps : List Piece} {out out' : Buffer}
    {s s' : State σ} (hrun : ps.foldlM (expandPiece replace) out s = .ok out' s') :
    s.Keeps s' ∧ ∃ t, out'.toText = out.toText ++ t ∧
      Expands c.resolver s.entities inLiterals s.asked ps t s'.asked := by
  induction ps generalizing out s with
  | nil =>
      cases hrun
      exact ⟨.refl _, [], (List.append_nil _).symm, .nil⟩
  | cons p ps ih =>
      obtain ⟨out₁, s₁, hpiece, hrest⟩ := bind_eq_ok hrun
      obtain ⟨hkeeps, t, htext, hexpands⟩ := ih hrest
      cases p with
      | char d =>
          cases hpiece
          exact ⟨hkeeps, d :: t, by rw [htext, Buffer.toText_push, List.append_assoc]; rfl,
            .char hexpands⟩
      | reference name isQuoted =>
          -- the rest is expanded in the state that the replacement leaves, with the same
          -- declarations
          obtain ⟨o, s₂, hreplace, hinsert⟩ := bind_eq_ok hpiece
          obtain ⟨hkept, ⟨rfl, hname, hasked⟩ | ⟨r, u, v, rfl, hname, htext?, hv⟩⟩ :=
            h _ _ _ _ hreplace
          · cases hinsert
            rw [hkept.entities, hasked] at hexpands
            exact ⟨hkept.trans hkeeps, writeReference name ++ t,
              by rw [htext, Buffer.toText_append, List.append_assoc],
              .undeclared hname hexpands⟩
          · cases hinsert
            rw [hkept.entities] at hexpands
            refine ⟨hkept.trans hkeeps, inserted isQuoted v ++ t, ?_,
              .declared hname htext? hv hexpands⟩
            rw [htext]
            cases isQuoted <;> simp [inserted]

theorem expandPieces_eq_ok {replace : Text → Scan σ (Option Text)}
    (h : Replaces c inLiterals replace) :
    ExpandsTexts c inLiterals (expandPieces c inLiterals replace) := by
  intro t s out s' hrun
  obtain ⟨buffer, s₁, hfold, hchecked⟩ := bind_eq_ok hrun
  obtain ⟨u, s₂, hcheck, hreturn⟩ := bind_eq_ok hchecked
  cases check_eq_ok hcheck
  cases hreturn
  obtain ⟨hkeeps, v, hv, hexpands⟩ := foldlM_expandPiece h hfold
  rw [Buffer.toText_empty, List.nil_append] at hv
  exact ⟨hkeeps, hv ▸ hexpands⟩

/-- Expanding the replacement text of an entity that was entered, and leaving the entity. -/
theorem expandEntered_eq_ok {run : Text → Scan σ Text} (h : ExpandsTexts c inLiterals run)
    (outer : State σ) (name : Text) {u : Text} {s s' : State σ} {o : Option Text}
    (hrun : (do let expanded ← run u; leave; return some expanded : Scan σ (Option Text))
      s = .ok o s')
    (hentered : s.handled = outer.handled ∧ s.entities = outer.entities ∧
      s.active = outer.active ++ [name]) :
    outer.Keeps s' ∧ ∃ v, o = some v ∧
      Expands c.resolver outer.entities inLiterals s.asked
        (pieces inLiterals u) v s'.asked := by
  obtain ⟨hhandled, hentities, hactive⟩ := hentered
  obtain ⟨v, s₂, hexpand, hleave⟩ := bind_eq_ok hrun
  obtain ⟨hkeeps, hexpands⟩ := h u s v s₂ hexpand
  cases hleave
  have hleft : s₂.active.dropLast = outer.active := by
    rw [hkeeps.active, hactive, List.dropLast_concat]
  exact ⟨⟨hkeeps.handled.trans hhandled, hkeeps.entities.trans hentities, hleft⟩, v, rfl,
    hentities ▸ hexpands⟩

theorem expandEntity_eq_ok {deeper : Option (Text → Scan σ Text)}
    (h : ∀ run, deeper = some run → ExpandsTexts c inLiterals run) :
    Replaces c inLiterals (expandEntity c fail deeper) := by
  intro name s o s' hrun
  obtain ⟨_, s₁, hget, hlookup⟩ := bind_eq_ok hrun
  cases hget
  cases hname : s.entities.lookup name with
  | none =>
      simp only [hname] at hlookup
      cases hlookup
      exact ⟨.refl s, .inl ⟨rfl, rfl, rfl⟩⟩
  | some r =>
      simp only [hname] at hlookup
      obtain ⟨run, s₂, henter, hbody⟩ := bind_eq_ok hlookup
      obtain ⟨hdeeper, rfl⟩ := enter_eq_ok henter
      cases r with
      | internal u =>
          obtain ⟨hkeeps, v, rfl, hexpands⟩ :=
            expandEntered_eq_ok (h run hdeeper) s name (u := u) hbody ⟨rfl, rfl, rfl⟩
          refine ⟨hkeeps, .inr ⟨_, u, v, rfl, rfl, rfl, ?_⟩⟩
          rwa [Replacement.requests, List.append_nil]
      | external id base =>
          obtain ⟨found, s₃, hload, hexpand⟩ := bind_eq_ok hbody
          obtain ⟨hfound, rfl⟩ := load_eq_ok hload
          obtain ⟨hkeeps, v, rfl, hexpands⟩ :=
            expandEntered_eq_ok (h run hdeeper) s name (u := found.text) hexpand
              ⟨rfl, rfl, rfl⟩
          refine ⟨hkeeps, .inr ⟨_, found.text, v, rfl, rfl, ?_, hexpands⟩⟩
          rw [Replacement.text?, hfound]
          rfl

/-- A run that expands a text gives its expansion. -/
theorem expand_eq_ok (level : Nat) :
    ExpandsTexts c inLiterals (expand c fail inLiterals level) := by
  induction level with
  | zero => exact expandPieces_eq_ok (expandEntity_eq_ok (by simp))
  | succ level ih =>
      refine expandPieces_eq_ok (expandEntity_eq_ok ?_)
      rintro run ⟨⟩
      exact ih

end Run

end Doctype.Markup
