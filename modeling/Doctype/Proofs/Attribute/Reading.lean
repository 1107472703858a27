import Doctype.Proofs.Attribute.Expansion
import Doctype.Proofs.Text.Name

/-!
What a text says where nothing bounds an expansion and no list is kept of the entities being
expanded. The pieces of a text are told from left to right (`Segments`), and the reading of
pieces puts what they say one behind the other, the reading of a replacement text in the place
of a reference to it (`Reads`). There is at most one reading (`Reads.unique`), and an expansion
that comes to an end adds it to what was there (`expand_reads`).
-/

namespace Doctype.Attribute.Value

variable {g : Graph} {limits : Limits} {t u body n : Text} {p q : Progress} {piece : Piece}
  {ps : List Piece}

/-! ### Segments -/

def predefined : List (Text × Char) :=
  [("lt", '<'), ("gt", '>'), ("amp", '&'), ("apos", '\''), ("quot", '"')]

/-- `OfBody body p`: an ampersand, `body` and a semicolon are the piece `p`. -/
inductive OfBody : Text → Piece → Prop
  | denoted {t : Text} {c : Char} :
      Reference.decode ('#' :: t) = some c → OfBody ('#' :: t) (.denoted c)
  | verbatim {t : Text} :
      Reference.decode ('#' :: t) = none →
      OfBody ('#' :: t) (.verbatim (writeReference ('#' :: t)))
  | predefined {n : Text} {c : Char} : (n, c) ∈ Value.predefined → OfBody n (.denoted c)
  | reference {n : Text} :
      Text.isName n = true → n ∉ Value.predefined.map Prod.fst → OfBody n (.reference n)

/-- `Segments t ps`: the text falls into the pieces `ps`. A reference runs to the first
semicolon behind its ampersand; an ampersand that begins none stands for itself, as every other
character does. -/
inductive Segments : Text → List Piece → Prop
  | nil : Segments [] []
  | char {c : Char} {t : Text} {ps : List Piece} :
      c ≠ '&' → Segments t ps → Segments (c :: t) (.literal c :: ps)
  | reference {body t : Text} {p : Piece} {ps : List Piece} :
      ';' ∉ body → OfBody body p → Segments t ps →
      Segments ('&' :: (body ++ ';' :: t)) (p :: ps)
  | ampersand {t : Text} {ps : List Piece} :
      (∀ body rest, t = body ++ ';' :: rest → ';' ∉ body → ∀ p, ¬OfBody body p) →
      Segments t ps → Segments ('&' :: t) (.literal '&' :: ps)

theorem predefined?_eq_some_iff {c : Char} : predefined? n = some c ↔ (n, c) ∈ predefined := by
  constructor
  · intro h
    unfold predefined? at h
    split_ifs at h with hn hn hn hn hn <;> cases h <;> simp [hn, predefined]
  · intro h
    have hall : ∀ e ∈ predefined, predefined? e.1 = some e.2 := by decide
    exact hall _ h

theorem predefined?_eq_none_iff : predefined? n = none ↔ n ∉ predefined.map Prod.fst := by
  rw [Option.eq_none_iff_forall_ne_some, List.mem_map]
  constructor
  · rintro h ⟨⟨_, c⟩, hmem, rfl⟩
    exact h c (predefined?_eq_some_iff.2 hmem)
  · intro h c hc
    exact h ⟨(n, c), predefined?_eq_some_iff.1 hc, rfl⟩

theorem head?_ne_of_isName (h : Text.isName n = true) : n.head? ≠ some '#' := fun hhead =>
  absurd (isNameChar_of_mem_name h (List.mem_of_head? hhead)) (by decide)

theorem ofBody?_eq_some_iff : Piece.ofBody? body = some piece ↔ OfBody body piece := by
  constructor
  · intro h
    rcases Piece.ofBody?_cases h with ⟨hhead, hdecode⟩ | ⟨-, hname, hpredefined⟩
    · obtain ⟨t, rfl⟩ : ∃ t, body = '#' :: t := by
        cases body with
        | nil => cases hhead
        | cons c t =>
            cases hhead
            exact ⟨t, rfl⟩
      rcases hdecode with ⟨c, hc, rfl⟩ | ⟨hnone, rfl⟩
      · exact .denoted hc
      · exact .verbatim hnone
    · rcases hpredefined with ⟨c, hc, rfl⟩ | ⟨hnone, rfl⟩
      · exact .predefined (predefined?_eq_some_iff.1 hc)
      · exact .reference hname (predefined?_eq_none_iff.1 hnone)
  · intro h
    cases h with
    | denoted hc => simp [Piece.ofBody?, hc]
    | verbatim hnone => simp [Piece.ofBody?, hnone]
    | predefined hmem =>
        have hall : ∀ e ∈ predefined, Piece.ofBody? e.1 = some (.denoted e.2) := by decide
        exact hall _ hmem
    | reference hname hnone =>
        rw [Piece.ofBody?, if_neg (head?_ne_of_isName hname), if_pos hname,
          predefined?_eq_none_iff.2 hnone]

theorem reference?_eq_none_iff :
    reference? t = none ↔
      ∀ body rest, t = body ++ ';' :: rest → ';' ∉ body → ∀ p, ¬OfBody body p := by
  constructor
  · rintro h body rest rfl hbody p hp
    rw [reference?_append hbody, ofBody?_eq_some_iff.2 hp] at h
    cases h
  · intro h
    rw [Option.eq_none_iff_forall_ne_some]
    rintro ⟨p, rest⟩ hsome
    obtain ⟨body, ht, hbody, hp⟩ := exists_of_reference?_eq_some hsome
    exact h body rest ht hbody p (ofBody?_eq_some_iff.1 hp)

theorem segments_pieces (t : Text) : Segments t (pieces t) := by
  induction t using pieces_induction with
  | nil => simpa using Segments.nil
  | reference t p rest href ih =>
      rw [pieces_reference href]
      obtain ⟨body, rfl, hbody, hp⟩ := exists_of_reference?_eq_some href
      exact .reference hbody (ofBody?_eq_some_iff.1 hp) ih
  | ampersand t href ih =>
      rw [pieces_ampersand href]
      exact .ampersand (reference?_eq_none_iff.1 href) ih
  | cons c t hc ih =>
      rw [pieces_cons hc]
      exact .char hc ih

theorem segments_iff : Segments t ps ↔ pieces t = ps := by
  constructor
  · intro h
    induction h with
    | nil => exact pieces_nil
    | char hc _ ih => rw [pieces_cons hc, ih]
    | reference hbody hp _ ih =>
        rw [pieces_reference (by rw [reference?_append hbody, ofBody?_eq_some_iff.2 hp]; rfl),
          ih]
    | ampersand hnone _ ih => rw [pieces_ampersand (reference?_eq_none_iff.2 hnone), ih]
  · rintro rfl
    exact segments_pieces t

/-- A piece refers to an entity by a name, and to none that is predefined. -/
theorem Segments.reference_mem (h : Segments t ps) (hn : .reference n ∈ ps) :
    Text.isName n = true ∧ n ∉ predefined.map Prod.fst := by
  induction h with
  | nil => cases hn
  | char _ _ ih =>
      rcases List.mem_cons.1 hn with heq | hn
      · cases heq
      · exact ih hn
  | reference _ hp _ ih =>
      rcases List.mem_cons.1 hn with heq | hn
      · cases heq
        cases hp with
        | reference hname hnone => exact ⟨hname, hnone⟩
      · exact ih hn
  | ampersand _ _ ih =>
      rcases List.mem_cons.1 hn with heq | hn
      · cases heq
      · exact ih hn

/-! ### Readings -/

/-- What pieces say: the value that they write, and the declared and the undeclared entities
that are met, in order and with repeats. -/
structure Reading where
  value : Text
  met : List Text
  missed : List Text

namespace Reading

def empty : Reading :=
  ⟨[], [], []⟩

def append (r s : Reading) : Reading :=
  ⟨r.value ++ s.value, r.met ++ s.met, r.missed ++ s.missed⟩

end Reading

/-- `Reads g ps r`: the pieces `ps` say `r`. -/
inductive Reads (g : Graph) : List Piece → Reading → Prop
  | nil : Reads g [] .empty
  | plain {p : Piece} {ps : List Piece} {r : Reading} :
      (∀ n, p ≠ .reference n) → Reads g ps r →
      Reads g (p :: ps) (.append ⟨p.written, [], []⟩ r)
  | undeclared {n : Text} {ps : List Piece} {r : Reading} :
      g.entity? .general n = none → Reads g ps r →
      Reads g (.reference n :: ps) (.append ⟨writeReference n, [], [n]⟩ r)
  | external {n : Text} {e : Entity} {id : ExternalId} {notationName : Option Text}
      {ps : List Piece} {r : Reading} :
      g.entity? .general n = some e → e.definition = .external id notationName → Reads g ps r →
      Reads g (.reference n :: ps) (.append ⟨writeReference n, [n], []⟩ r)
  | internal {n u : Text} {qs ps : List Piece} {inner r : Reading} :
      Replacement g n u → Segments u qs → Reads g qs inner → Reads g ps r →
      Reads g (.reference n :: ps) (.append ⟨inner.value, n :: inner.met, inner.missed⟩ r)

/-- Pieces say one thing. -/
theorem Reads.unique {r s : Reading} (hr : Reads g ps r) (hs : Reads g ps s) : r = s := by
  induction hr generalizing s with
  | nil =>
      cases hs
      rfl
  | plain hplain _ ih =>
      cases hs with
      | plain _ hs => rw [ih hs]
      | undeclared _ _ => exact absurd rfl (hplain _)
      | external _ _ _ => exact absurd rfl (hplain _)
      | internal _ _ _ _ => exact absurd rfl (hplain _)
  | undeclared hnone _ ih =>
      cases hs with
      | plain hplain _ => exact absurd rfl (hplain _)
      | undeclared _ hs => rw [ih hs]
      | external hsome _ _ => cases hnone.symm.trans hsome
      | internal hu _ _ _ => exact absurd hnone hu.isDeclared
  | external hsome hexternal _ ih =>
      cases hs with
      | plain hplain _ => exact absurd rfl (hplain _)
      | undeclared hnone _ => cases hnone.symm.trans hsome
      | external _ _ hs => rw [ih hs]
      | internal hu _ _ _ => exact absurd hexternal (hu.not_external hsome)
  | internal hu hqs _ _ ihInner ih =>
      cases hs with
      | plain hplain _ => exact absurd rfl (hplain _)
      | undeclared hnone _ => exact absurd hnone hu.isDeclared
      | external hsome hexternal _ => exact absurd hexternal (hu.not_external hsome)
      | internal hu' hqs' hinner hs =>
          obtain rfl := hu.unique hu'
          obtain rfl := (segments_iff.1 hqs).symm.trans (segments_iff.1 hqs')
          rw [ihInner hinner, ih hs]

/-- The entities that are met are declared, and those that the pieces or a replacement text
refer to are not predefined. -/
theorem Reads.mem_met {r : Reading} (h : Reads g ps r)
    (hps : ∀ n, .reference n ∈ ps → n ∉ predefined.map Prod.fst) :
    ∀ n ∈ r.met, (∃ e, g.entity? .general n = some e) ∧ n ∉ predefined.map Prod.fst := by
  induction h with
  | nil => exact nofun
  | plain _ _ ih => exact ih fun n hn => hps n (List.mem_cons_of_mem _ hn)
  | undeclared _ _ ih => exact ih fun n hn => hps n (List.mem_cons_of_mem _ hn)
  | external hsome _ _ ih =>
      intro m hm
      rcases List.mem_cons.1 hm with rfl | hm
      · exact ⟨⟨_, hsome⟩, hps _ List.mem_cons_self⟩
      · exact ih (fun n hn => hps n (List.mem_cons_of_mem _ hn)) m hm
  | internal hu hqs _ _ ihInner ih =>
      intro m hm
      rcases List.mem_append.1 hm with hm | hm
      · rcases List.mem_cons.1 hm with rfl | hm
        · obtain ⟨e, hsome, -⟩ := hu
          exact ⟨⟨e, hsome⟩, hps _ List.mem_cons_self⟩
        · exact ihInner (fun n hn => (hqs.reference_mem hn).2) m hm
      · exact ih (fun n hn => hps n (List.mem_cons_of_mem _ hn)) m hm

/-! ### Expansions -/

variable {r s : Reading} {deeper : Option (Text → Progress → Except Error Progress)}

/-- `p.Adds r q`: what is said in `r` was added to `p`, and what is being expanded is the
same. -/
structure Progress.Adds (p : Progress) (r : Reading) (q : Progress) : Prop where
  out : q.out.toText = p.out.toText ++ r.value
  references : q.references = r.met.foldl remember p.references
  undeclared : q.undeclared = r.missed.foldl remember p.undeclared
  active : q.active = p.active

theorem Progress.Adds.refl (p : Progress) : p.Adds .empty p :=
  ⟨(List.append_nil _).symm, rfl, rfl, rfl⟩

theorem Progress.Adds.trans {p' : Progress} (h : p.Adds r q) (h' : q.Adds s p') :
    p.Adds (r.append s) p' where
  out := by rw [h'.out, h.out, Reading.append, List.append_assoc]
  references := by rw [h'.references, h.references, Reading.append, List.foldl_append]
  undeclared := by rw [h'.undeclared, h.undeclared, Reading.append, List.foldl_append]
  active := h'.active.trans h.active

/-- A piece adds what it says. -/
theorem expandPiece_reads
    (hdeeper : ∀ expand, deeper = some expand → ∀ u p q, expand u p = .ok q →
      ∃ r, Reads g (pieces u) r ∧ p.Adds r q)
    (h : expandPiece g limits deeper p piece = .ok q) :
    ∃ s, p.Adds s q ∧ ∀ {ps r}, Reads g ps r → Reads g (piece :: ps) (s.append r) := by
  rcases expandPiece_eq_ok h with ⟨hplain, rfl⟩ | ⟨n, rfl, hreference⟩
  · exact ⟨⟨piece.written, [], []⟩, ⟨Buffer.toText_append _ _, rfl, rfl, rfl⟩, .plain hplain⟩
  · rcases hreference with ⟨hnone, rfl⟩ | ⟨e, id, notationName, hsome, hexternal, rfl⟩ |
      ⟨e, u, expand, after, hsome, hliteral, -, hexpand, hafter, rfl⟩
    · exact ⟨⟨writeReference n, [], [n]⟩, ⟨Buffer.toText_append _ _, rfl, rfl, rfl⟩,
        .undeclared hnone⟩
    · exact ⟨⟨writeReference n, [n], []⟩, ⟨Buffer.toText_append _ _, rfl, rfl, rfl⟩,
        .external hsome hexternal⟩
    · obtain ⟨inner, hinner, hadds⟩ := hdeeper expand hexpand u _ after hafter
      exact ⟨⟨inner.value, n :: inner.met, inner.missed⟩,
        ⟨hadds.out, hadds.references, hadds.undeclared, rfl⟩,
        .internal ⟨e, hsome, hliteral⟩ (segments_pieces u) hinner⟩

theorem foldlM_reads
    (hdeeper : ∀ expand, deeper = some expand → ∀ u p q, expand u p = .ok q →
      ∃ r, Reads g (pieces u) r ∧ p.Adds r q)
    (h : ps.foldlM (expandPiece g limits deeper) p = .ok q) :
    ∃ r, Reads g ps r ∧ p.Adds r q := by
  induction ps generalizing p with
  | nil =>
      cases h
      exact ⟨.empty, .nil, .refl _⟩
  | cons piece ps ih =>
      rw [List.foldlM_cons] at h
      obtain ⟨p', hpiece, h⟩ := Content.bind_eq_ok_iff.1 h
      obtain ⟨s, hs, hreads⟩ := expandPiece_reads hdeeper hpiece
      obtain ⟨r, hr, hadds⟩ := ih h
      exact ⟨s.append r, hreads hr, hs.trans hadds⟩

/-- An expansion that comes to an end adds what its text says, by induction on how deep
entities may be nested. -/
theorem expand_reads {room : Nat} (h : expand g limits room t p = .ok q) :
    ∃ r, Reads g (pieces t) r ∧ p.Adds r q := by
  induction room using Nat.strong_induction_on generalizing t p q with
  | _ room ih =>
      obtain ⟨deeper, hdeeper, heq⟩ := exists_deeper g limits room
      rw [heq] at h
      refine foldlM_reads (fun inner hinner u p q hrun => ?_) h
      obtain ⟨less, hless, rfl⟩ := hdeeper inner hinner
      exact ih less hless hrun

end Doctype.Attribute.Value
