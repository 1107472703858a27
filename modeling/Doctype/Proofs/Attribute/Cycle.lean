import Mathlib.Logic.Relation
import Doctype.Proofs.Attribute.Reading

/-!
Recursive entities. A reference leads on through the replacement text of its entity (`Leads`),
and a cycle is an entity that leads back to itself. A text from which a cycle is reached has no
reading (`Reads.not_reachesCycle`), and an expansion that fails has passed a bound or was led
back to an entity that was being expanded (`expand_eq_error`).
-/

namespace Doctype.Attribute.Value

open Relation

variable {g : Graph} {limits : Limits} {t u n m : Text} {p q : Progress} {piece : Piece}
  {ps : List Piece}
  {r : Reading} {e : Error} {deeper : Option (Text → Progress → Except Error Progress)}

/-- `Refers g t n`: a piece of the text refers to `n`, an entity with a replacement text. -/
def Refers (g : Graph) (t n : Text) : Prop :=
  (∃ ps, Segments t ps ∧ .reference n ∈ ps) ∧ ∃ u, Replacement g n u

/-- `Leads g m n`: the replacement text of `m` refers to `n`. -/
def Leads (g : Graph) (m n : Text) : Prop :=
  ∃ u, Replacement g m u ∧ Refers g u n

/-- `Reaches g t n`: following references from the text reaches the entity `n`. -/
def Reaches (g : Graph) (t n : Text) : Prop :=
  ∃ m, Refers g t m ∧ ReflTransGen (Leads g) m n

/-- Following references from the text reaches an entity that leads back to itself. -/
def ReachesCycle (g : Graph) (t : Text) : Prop :=
  ∃ n, Reaches g t n ∧ TransGen (Leads g) n n

theorem refers_of_mem_pieces (hn : .reference n ∈ pieces t) (hu : Replacement g n u) :
    Refers g t n :=
  ⟨⟨pieces t, segments_pieces t, hn⟩, u, hu⟩

theorem Reaches.of_replacement (hm : Refers g t m) (hu : Replacement g m u)
    (h : Reaches g u n) : Reaches g t n := by
  obtain ⟨l, hl, hpath⟩ := h
  exact ⟨m, hm, hpath.head ⟨u, hu, hl⟩⟩

theorem Reaches.transGen (hu : Replacement g m u) (h : Reaches g u n) :
    TransGen (Leads g) m n := by
  obtain ⟨l, hl, hpath⟩ := h
  exact .head' ⟨u, hu, hl⟩ hpath

/-! ### Readings -/

/-- Where pieces are read, references cannot be followed without end, by induction on the
reading. -/
theorem Reads.acc (h : Reads g ps r) (hn : .reference n ∈ ps) (hu : Replacement g n u) :
    Acc (Function.swap (Leads g)) n := by
  induction h generalizing n u with
  | nil => cases hn
  | plain hplain _ ih =>
      rcases List.mem_cons.1 hn with heq | hn
      · exact absurd heq.symm (hplain n)
      · exact ih hn hu
  | undeclared hnone _ ih =>
      rcases List.mem_cons.1 hn with heq | hn
      · cases heq
        exact absurd hnone hu.isDeclared
      · exact ih hn hu
  | external hsome hexternal _ ih =>
      rcases List.mem_cons.1 hn with heq | hn
      · cases heq
        exact absurd hexternal (hu.not_external hsome)
      · exact ih hn hu
  | internal hu' hqs _ _ ihInner ih =>
      rcases List.mem_cons.1 hn with heq | hn
      · cases heq
        -- whatever the entity leads to is referred to by the text that was read in its place
        refine .intro _ fun m ⟨v, hv, ⟨qs', hqs', hm⟩, w, hw⟩ => ?_
        obtain rfl := hu'.unique hv
        obtain rfl := (segments_iff.1 hqs).symm.trans (segments_iff.1 hqs')
        exact ihInner hm hw
      · exact ih hn hu

theorem not_transGen_self {α : Type} {R : α → α → Prop} {a : α} (h : Acc R a) :
    ¬TransGen R a a := by
  induction h with
  | intro a _ ih =>
      intro ha
      obtain ⟨b, hab, hba⟩ := TransGen.tail'_iff.1 ha
      exact ih b hba (.head' hba hab)

/-- From a text that is read no cycle is reached. -/
theorem Reads.not_reachesCycle (h : Reads g (pieces t) r) : ¬ReachesCycle g t := by
  rintro ⟨n, ⟨m, ⟨⟨ps, hps, hm⟩, u, hu⟩, hpath⟩, hcycle⟩
  obtain rfl := segments_iff.1 hps
  -- what is reached from an entity without endless paths has none either
  have hn : Acc (Function.swap (Leads g)) n := by
    clear hcycle
    induction hpath with
    | refl => exact h.acc hm hu
    | tail _ hleads ih => exact ih.inv hleads
  exact not_transGen_self hn (transGen_swap.2 hcycle)

/-! ### Errors -/

theorem exists_of_foldlM_eq_error (h : ps.foldlM (expandPiece g limits deeper) p = .error e) :
    ∃ piece ∈ ps, ∃ q, q.active = p.active ∧
      expandPiece g limits deeper q piece = .error e := by
  induction ps generalizing p with
  | nil => cases h
  | cons piece ps ih =>
      rw [List.foldlM_cons] at h
      rcases Content.bind_eq_error_iff.1 h with hpiece | ⟨p', hpiece, h⟩
      · exact ⟨piece, List.mem_cons_self, p, rfl, hpiece⟩
      · obtain ⟨piece', hmem, q, hq, herror⟩ := ih h
        exact ⟨piece', List.mem_cons_of_mem _ hmem, q,
          hq.trans (active_of_expandPiece hpiece), herror⟩

/-- An expansion fails where a bound is passed, or where an entity is met while it is being
expanded. Such an entity is on a cycle, or was being expanded from the beginning. -/
theorem expand_eq_error {room : Nat} (h : expand g limits room t p = .error e) :
    (∃ excess, e = .limitExceeded excess) ∨
      (∃ name active, e = .recursiveEntity name active) ∧
        (ReachesCycle g t ∨ ∃ n ∈ p.active, Reaches g t n) := by
  induction room using Nat.strong_induction_on generalizing t p with
  | _ room ih =>
      obtain ⟨deeper, hdeeper, heq⟩ := exists_deeper g limits room
      rw [heq] at h
      obtain ⟨piece, hpiece, p', hactive, herror⟩ := exists_of_foldlM_eq_error h
      obtain ⟨n, u, rfl, hu, hfails⟩ := expandPiece_eq_error herror
      have hn := refers_of_mem_pieces hpiece hu
      cases hfails with
      | recursive hmem =>
          exact .inr ⟨⟨n, _, rfl⟩, .inr ⟨n, hactive ▸ hmem, n, hn, .refl⟩⟩
      | expansions _ _ => exact .inl ⟨_, rfl⟩
      | depth _ _ => exact .inl ⟨_, rfl⟩
      | size _ _ _ _ => exact .inl ⟨_, rfl⟩
      | inner _ hsome hinner =>
          obtain ⟨less, hless, rfl⟩ := hdeeper _ hsome
          rcases ih less hless hinner with hexcess | ⟨hrecursive, hreaches⟩
          · exact .inl hexcess
          · refine .inr ⟨hrecursive, ?_⟩
            rcases hreaches with ⟨l, hl, hcycle⟩ | ⟨l, hl, hreaches⟩
            · exact .inl ⟨l, hl.of_replacement hn hu, hcycle⟩
            · rcases List.mem_append.1 hl with hl | hl
              · exact .inr ⟨l, hactive ▸ hl, hreaches.of_replacement hn hu⟩
              · obtain rfl : l = n := by simpa using hl
                exact .inl ⟨l, ⟨l, hn, .refl⟩, hreaches.transGen hu⟩

end Doctype.Attribute.Value
