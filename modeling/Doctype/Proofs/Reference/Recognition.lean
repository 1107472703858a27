import Doctype.Proofs.Attribute.Expansion
import Doctype.Proofs.Reachability.Closure
import Doctype.Proofs.Reference.Characters
import Doctype.Proofs.Text.Declaration
import Doctype.Xml.Document

/-!
Two readings of one text. The analysis of what is reachable searches a text for names between
an ampersand and a semicolon (`Reference.entities`), and the normal form of a value is told by
the pieces of the text. The names that the search finds are those that the pieces tell
(`filter_entities`), with two exceptions. A name with an Ogham space mark is not found, since
the mark is white space. A reference within a character reference that denotes nothing is
found, but it is part of a piece that stays as it is written.
-/

namespace Doctype

namespace Reference

variable {t rest body name : Text} {c : Char}

/-! ### One reference -/

theorem isEntityChar_semicolon : isEntityChar ';' = false := by
  decide

theorem entity?_append (hbody : ';' ∉ body) (rest : Text) :
    entity? (body ++ ';' :: rest) =
      if body ≠ [] ∧ body.all isEntityChar = true then some (body, rest) else none := by
  unfold entity?
  obtain ⟨hall, htake, hdrop⟩ | ⟨hall, e, u, hdrop, hne⟩ :=
    Text.span_cases isEntityChar_semicolon hbody rest
  · rw [htake, hdrop, hall]
    cases body with
    | nil => rfl
    | cons c body => simp
  · rw [hdrop, hall, if_neg (by simp)]
    split
    · next heq => exact absurd (List.cons.inj heq).1 hne
    · rfl

theorem exists_of_entity?_eq_some (h : entity? t = some (name, rest)) :
    t = name ++ ';' :: rest ∧ name.all isEntityChar = true := by
  unfold entity? at h
  split at h
  · next c n r htake hdrop =>
    cases h
    refine ⟨?_, ?_⟩
    · rw [← htake, ← hdrop, List.takeWhile_append_dropWhile]
    · rw [← htake]
      exact List.all_eq_true.2 (Text.forall_mem_takeWhile t)
  · cases h

theorem notMem_of_all_isEntityChar {d : Char} (h : name.all isEntityChar = true)
    (hd : isEntityChar d = false) : d ∉ name := by
  intro hmem
  rw [List.all_eq_true.1 h d hmem] at hd
  cases hd

theorem isEntityChar_of_isNameChar (hname : isNameChar c = true) :
    isEntityChar c = decide (c ≠ '\u1680') := by
  have hmark (d : Char) (hd : isNameChar d = false) : c ≠ d := by
    rintro rfl
    rw [hname] at hd
    cases hd
  have hspace : isWhiteSpace c = decide (c = '\u1680') := by
    rw [Bool.eq_iff_iff, isWhiteSpace_nameChar_iff hname, decide_eq_true_eq]
  simp [isEntityChar, hspace, hmark '&' (by decide), hmark ';' (by decide),
    hmark '#' (by decide), hmark '%' (by decide), hmark '<' (by decide), hmark '>' (by decide)]

theorem all_isEntityChar_of_isName (hname : Text.isName name = true) :
    name.all isEntityChar = true ↔ '\u1680' ∉ name := by
  rw [List.all_eq_true]
  constructor
  · intro hall hmem
    have hchar := hall _ hmem
    rw [isEntityChar_of_isNameChar (isNameChar_of_mem_name hname hmem)] at hchar
    exact of_decide_eq_true hchar rfl
  · intro hmem d hd
    rw [isEntityChar_of_isNameChar (isNameChar_of_mem_name hname hd)]
    exact decide_eq_true (ne_of_mem_of_not_mem hd hmem)

/-! ### Texts -/

@[simp] theorem entities_nil : entities [] = [] := by
  rw [entities]

theorem entities_entity (h : entity? t = some (name, rest)) :
    entities ('&' :: t) = name :: entities rest := by
  rw [entities, if_pos rfl]
  split
  · next h' =>
    rw [h] at h'
    cases h'
    rfl
  · next h' =>
    rw [h] at h'
    cases h'

theorem entities_ampersand (h : entity? t = none) : entities ('&' :: t) = entities t := by
  rw [entities, if_pos rfl]
  split
  · next h' =>
    rw [h] at h'
    cases h'
  · rfl

theorem entities_cons (hc : c ≠ '&') : entities (c :: t) = entities t := by
  rw [entities, if_neg hc]

theorem entities_append_of_notMem (h : '&' ∉ t) (rest : Text) :
    entities (t ++ rest) = entities rest := by
  induction t with
  | nil => rfl
  | cons c t ih =>
      obtain ⟨hc, ht⟩ := not_or.1 (mt List.mem_cons.2 h)
      rw [List.cons_append, entities_cons (Ne.symm hc), ih ht]

/-- The search goes on behind a semicolon as if it began there. -/
theorem entities_append_semicolon (hbody : ';' ∉ body) (rest : Text) :
    entities (body ++ ';' :: rest) = entities (body ++ [';']) ++ entities rest := by
  induction body with
  | nil =>
      rw [List.nil_append, List.nil_append, entities_cons (by decide),
        entities_cons (by decide),
        entities_nil, List.nil_append]
  | cons c body ih =>
      obtain ⟨-, hbody'⟩ := not_or.1 (mt List.mem_cons.2 hbody)
      rw [List.cons_append, List.cons_append]
      by_cases hc : c = '&'
      · subst hc
        by_cases hname : body ≠ [] ∧ body.all isEntityChar = true
        · have hread (rest : Text) : entity? (body ++ ';' :: rest) = some (body, rest) := by
            rw [entity?_append hbody', if_pos hname]
          rw [entities_entity (hread rest), entities_entity (hread []), entities_nil]
          rfl
        · have hread (rest : Text) : entity? (body ++ ';' :: rest) = none := by
            rw [entity?_append hbody', if_neg hname]
          rw [entities_ampersand (hread rest), entities_ampersand (hread []), ih hbody']
      · rw [entities_cons hc, entities_cons hc, ih hbody']

/-! ### Character references -/

theorem ampersand_notMem_of_number? {base : Nat} {n : Nat} (h : Text.number? base t = some n) :
    '&' ∉ t := by
  have hdigits {d : Text} (hd : Text.digits? base d = some n) : '&' ∉ d := by
    intro hmem
    unfold Text.digits? at hd
    split at hd
    · next hall =>
      have hdigit := List.all_eq_true.1 hall.2 _ hmem
      simp [Text.isDigit, Text.digit?] at hdigit
    · cases hd
  unfold Text.number? at h
  split at h
  · simpa using hdigits h
  · exact hdigits h

theorem ampersand_notMem_of_decode (h : decode body = some c) : '&' ∉ body := by
  unfold decode at h
  split at h
  · obtain ⟨n, hn, -⟩ := Option.bind_eq_some_iff.1 h
    simpa using ampersand_notMem_of_number? hn
  · obtain ⟨n, hn, -⟩ := Option.bind_eq_some_iff.1 h
    simpa using ampersand_notMem_of_number? hn
  · cases h

theorem entity?_of_head? (hhead : body.head? = some '#') : entity? (body ++ rest) = none := by
  obtain ⟨d, rfl⟩ := List.head?_eq_some_iff.1 hhead
  have hsign : isEntityChar '#' = false := by decide
  simp [entity?, hsign]

end Reference

namespace Attribute.Value

open Reference (entities entity?)

variable {t rest body name : Text} {p : Piece}

def isOwnName (name : Text) : Bool :=
  Text.isName name && (predefined? name).isNone

def Piece.found : Piece → List Text
  | .literal _ => []
  | .denoted _ => []
  | .verbatim t => (entities t).filter isOwnName
  | .reference name => if '\u1680' ∈ name then [] else [name]

theorem isName_of_predefined? {c : Char} (h : predefined? name = some c) :
    Text.isName name = true ∧ '\u1680' ∉ name := by
  unfold predefined? at h
  split_ifs at h with hlt hgt hamp hapos hquot
  · subst hlt; decide
  · subst hgt; decide
  · subst hamp; decide
  · subst hapos; decide
  · subst hquot; decide

/-- What the search finds at a reference, and behind it. -/
theorem filter_entities_reference (hbody : ';' ∉ body) (h : Piece.ofBody? body = some p)
    (rest : Text) :
    (entities ('&' :: (body ++ ';' :: rest))).filter isOwnName =
      p.found ++ (entities rest).filter isOwnName := by
  rcases Piece.ofBody?_cases h with ⟨hhead, ⟨c, hc, rfl⟩ | ⟨-, rfl⟩⟩ | ⟨-, hname, hpiece⟩
  · -- nothing is found in a character reference that denotes a character
    have hampersand := Reference.ampersand_notMem_of_decode hc
    rw [Reference.entities_ampersand (Reference.entity?_of_head? hhead),
      Reference.entities_append_of_notMem hampersand, Reference.entities_cons (by decide)]
    rfl
  · have hfront : ';' ∉ '&' :: body := by simpa using hbody
    have hsplit := Reference.entities_append_semicolon hfront rest
    rw [List.cons_append, List.cons_append] at hsplit
    rw [hsplit, List.filter_append]
    rfl
  · have hampersand : '&' ∉ body := fun hmem => by
      have hchar := isNameChar_of_mem_name hname hmem
      revert hchar
      decide
    have hne : body ≠ [] := by
      rintro rfl
      cases hname
    have hread := Reference.entity?_append hbody rest
    simp only [Reference.all_isEntityChar_of_isName hname, ne_eq, hne, not_false_eq_true,
      true_and] at hread
    rcases hpiece with ⟨c, hc, rfl⟩ | ⟨hnone, rfl⟩
    · rw [if_pos (isName_of_predefined? hc).2] at hread
      rw [Reference.entities_entity hread, List.filter_cons]
      simp [isOwnName, hc, Piece.found]
    · by_cases hmark : '\u1680' ∈ body
      · rw [if_neg (not_not_intro hmark)] at hread
        rw [Reference.entities_ampersand hread, Reference.entities_append_of_notMem hampersand,
          Reference.entities_cons (by decide)]
        simp [Piece.found, hmark]
      · rw [if_pos hmark] at hread
        rw [Reference.entities_entity hread, List.filter_cons]
        simp [isOwnName, hname, hnone, Piece.found, hmark]

/-- What the search finds at an ampersand that stands for itself is no name. -/
theorem filter_entities_ampersand (h : reference? t = none) :
    (entities ('&' :: t)).filter isOwnName = (entities t).filter isOwnName := by
  cases hread : entity? t with
  | none => rw [Reference.entities_ampersand hread]
  | some found =>
      obtain ⟨name, rest⟩ := found
      obtain ⟨rfl, hall⟩ := Reference.exists_of_entity?_eq_some hread
      have hsemicolon := Reference.notMem_of_all_isEntityChar hall (d := ';') (by decide)
      have hampersand := Reference.notMem_of_all_isEntityChar hall (d := '&') (by decide)
      rw [reference?_append hsemicolon, Option.map_eq_none_iff] at h
      have hname : isOwnName name = false := by
        simp [isOwnName, Piece.isName_of_ofBody?_eq_none h]
      rw [Reference.entities_entity hread, Reference.entities_append_of_notMem hampersand,
        Reference.entities_cons (by decide), List.filter_cons, hname]
      rfl

/-- The search finds what the pieces of the text tell, in their order. -/
theorem filter_entities (t : Text) :
    (entities t).filter isOwnName = (pieces t).flatMap Piece.found := by
  induction t using pieces_induction with
  | nil => simp
  | reference t p rest h ih =>
      obtain ⟨body, rfl, hbody, hp⟩ := exists_of_reference?_eq_some h
      rw [pieces_reference h, List.flatMap_cons, filter_entities_reference hbody hp, ih]
  | ampersand t h ih =>
      rw [pieces_ampersand h, List.flatMap_cons, filter_entities_ampersand h, ih]
      rfl
  | cons c t hc ih =>
      rw [pieces_cons hc, List.flatMap_cons, Reference.entities_cons hc, ih]
      rfl

/-- A name is found in a text if a piece refers to it that is spelled without the mark, or if
it is found in a character reference that denotes nothing. -/
theorem mem_entities_iff (hname : isOwnName name = true) :
    name ∈ entities t ↔ (.reference name ∈ pieces t ∧ '\u1680' ∉ name) ∨
      ∃ u, .verbatim u ∈ pieces t ∧ name ∈ entities u := by
  have hfound : name ∈ entities t ↔ ∃ p ∈ pieces t, name ∈ p.found := by
    rw [← List.mem_flatMap, ← filter_entities, List.mem_filter, and_iff_left hname]
  rw [hfound]
  constructor
  · rintro ⟨p, hp, hmem⟩
    cases p with
    | literal c => cases hmem
    | denoted c => cases hmem
    | verbatim u => exact .inr ⟨u, hp, (List.mem_filter.1 hmem).1⟩
    | reference n =>
        by_cases hmark : '\u1680' ∈ n
        · simp [Piece.found, hmark] at hmem
        · obtain rfl : name = n := by simpa [Piece.found, hmark] using hmem
          exact .inl ⟨hp, hmark⟩
  · rintro (⟨hp, hmark⟩ | ⟨u, hp, hmem⟩)
    · exact ⟨_, hp, by simp [Piece.found, hmark]⟩
    · exact ⟨_, hp, List.mem_filter.2 ⟨hmem, hname⟩⟩

/-! ### Normal forms -/

variable {g : Graph} {limits : Limits}

theorem mem_remember {names : List Text} {m : Text} :
    name ∈ remember names m ↔ name ∈ names ∨ name = m := by
  unfold remember
  split
  · next hmem =>
    have hm : m ∈ names := List.contains_iff_mem.1 hmem
    exact ⟨.inl, fun h => h.elim id fun heq => heq ▸ hm⟩
  · simp

def Progress.Met (name : Text) (p : Progress) : Prop :=
  name ∈ p.references ∨ name ∈ p.undeclared

theorem kept_met : Kept g (fun _ => True) (Progress.Met name) where
  replacement _ _ := trivial
  write _ _ hp := hp
  meet _ _ hp := hp.imp_left fun h => mem_remember.2 (.inl h)
  miss _ _ hp := hp.imp_right fun h => mem_remember.2 (.inl h)
  within _ _ hp := hp

/-- Every entity that a text refers to is met. -/
theorem met_of_expand {room : Nat} {p q : Progress} (hrun : expand g limits room t p = .ok q)
    (hpiece : .reference name ∈ pieces t) : q.Met name := by
  obtain ⟨deeper, hdeeper, heq⟩ := exists_deeper g limits room
  have hkept (inner) (hinner : deeper = some inner) (u : Text) (p q : Progress) (_ : True)
      (hp : p.Met name) (hrun : inner u p = .ok q) : q.Met name := by
    obtain ⟨less, -, rfl⟩ := hdeeper inner hinner
    exact kept_met.expand trivial hp hrun
  -- the run up to the reference, what the reference does, and the rest of the run
  obtain ⟨front, back, hsplit⟩ := List.append_of_mem hpiece
  rw [heq, hsplit, List.foldlM_append] at hrun
  obtain ⟨p₁, -, hrun⟩ := Content.bind_eq_ok_iff.1 hrun
  rw [List.foldlM_cons] at hrun
  obtain ⟨p₂, hstep, hrun⟩ := Content.bind_eq_ok_iff.1 hrun
  have hmet : p₂.Met name := by
    rcases expandPiece_eq_ok hstep with ⟨hne, -⟩ | ⟨n, hn, hreference⟩
    · exact absurd rfl (hne name)
    · cases hn
      rcases hreference with ⟨-, rfl⟩ | ⟨e, -, -, -, -, rfl⟩ |
        ⟨e, u, inner, after, -, -, -, hinner, hafter, rfl⟩
      · exact .inr (mem_remember.2 (.inr rfl))
      · exact .inl (mem_remember.2 (.inr rfl))
      · exact hkept inner hinner u _ after trivial (.inl (mem_remember.2 (.inr rfl))) hafter
  refine kept_met.foldlM hkept trivial (t := t) (fun piece hmem => ?_) hmet hrun
  rw [hsplit]
  exact List.mem_append_right _ (List.mem_cons_of_mem _ hmem)

/-- With no declarations, the pieces are written, and the names in references are missed. -/
theorem foldlM_expandPiece_empty (limits : Limits)
    (deeper : Option (Text → Progress → Except Error Progress)) (ps : List Piece)
    (p : Progress) :
    ∃ q, ps.foldlM (expandPiece .empty limits deeper) p = .ok q ∧
      ∀ n, n ∈ q.undeclared ↔ n ∈ p.undeclared ∨ .reference n ∈ ps := by
  induction ps generalizing p with
  | nil => exact ⟨p, rfl, by simp⟩
  | cons piece ps ih =>
      have hstep : ∃ p', expandPiece .empty limits deeper p piece = .ok p' ∧
          ∀ n, n ∈ p'.undeclared ↔ n ∈ p.undeclared ∨ .reference n = piece := by
        cases piece with
        | literal c => exact ⟨_, rfl, by simp⟩
        | denoted c => exact ⟨_, rfl, by simp⟩
        | verbatim u => exact ⟨_, rfl, by simp⟩
        | reference m => exact ⟨_, rfl, fun n => by simp [mem_remember]⟩
      obtain ⟨p', hp', hundeclared⟩ := hstep
      obtain ⟨q, hq, hmem⟩ := ih p'
      refine ⟨q, by rw [List.foldlM_cons, hp']; exact hq, fun n => ?_⟩
      rw [hmem, hundeclared, List.mem_cons, or_assoc]

theorem normalize_empty (limits : Limits) (t : Text) (isTokenized : Bool) :
    ∃ v, normalize .empty limits t isTokenized = .ok v ∧ ∀ n, n ∈ v.undeclared ↔
      .reference n ∈ pieces t := by
  obtain ⟨deeper, -, heq⟩ := exists_deeper .empty limits limits.entityDepth
  obtain ⟨q, hq, hundeclared⟩ := foldlM_expandPiece_empty limits deeper (pieces t) .start
  refine ⟨_, by rw [normalize, heq, hq]; rfl, fun n => ?_⟩
  exact (hundeclared n).trans (or_iff_right List.not_mem_nil)

theorem mem_of_normalize {isTokenized : Bool} {v : Normalized}
    (h : normalize g limits t isTokenized = .ok v) (hpiece : .reference name ∈ pieces t) :
    name ∈ v.references ∨ name ∈ v.undeclared := by
  obtain ⟨q, hrun, heq⟩ := Content.bind_eq_ok_iff.1 h
  cases heq
  exact met_of_expand hrun hpiece

end Attribute.Value

/-! ### Filtered documents -/

namespace Graph

variable {g : Graph} {roots : List Text} {s : ReachableSet} {k : Key}

theorem contains_reachable_iff (hg : g.Inserted) (h : g.reachable roots = .ok s) :
    s.contains k = true ↔ g.Needs roots k := by
  rw [eq_closure_of_reachable h, ReachableSet.contains, List.contains_iff_mem]
  exact (searching_closure hg roots).mem_iff hg

end Graph

namespace Attribute.Value

theorem mem_entities_of_replacement {g : Graph} {roots : List Text} {s : ReachableSet}
    {title : Option Text} {e d : Entity} {replacement name : Text} (hg : g.Inserted)
    (hs : g.reachable roots = .ok s)
    (he : e ∈ (⟨g, title, some s⟩ : Xml.Document).entities .general)
    (hliteral : e.definition = .literal replacement)
    (hname : name ∈ Reference.entities replacement) (hd : g.entity? .general name = some d) :
    d ∈ (⟨g, title, some s⟩ : Xml.Document).entities .general := by
  obtain ⟨hmem, hfilter⟩ := List.mem_filter.1 he
  have hfind : g.entity? .general e.name = some e :=
    (Table.find?_eq_some_iff (hg.keyed.entities .general)).2 ⟨hmem, rfl⟩
  have hneeds : g.Needs roots (.entity .general e.name) :=
    (Graph.contains_reachable_iff hg hs).1 hfilter
  have hneeds' : g.Needs roots (.entity .general name) :=
    .innerEntity hneeds hfind hliteral hname hd
  obtain ⟨hmem', rfl⟩ := Table.mem_of_find?_eq_some hd
  exact List.mem_filter.2 ⟨hmem', (Graph.contains_reachable_iff hg hs).2 hneeds'⟩

/-- The search for references in a text finds a name that its pieces refer to, unless it is
spelled with the Ogham space mark, and besides only names in character references that denote
nothing. The names that the pieces refer to are those that normalizing the text misses where
nothing is declared, and with other declarations they are all met or missed. So a declared
entity that the replacement text of an entity in a filtered document refers to is in the
document, too, if its name is spelled without the mark. -/
theorem search_agrees_with_pieces {name : Text} (hname : isOwnName name = true) (t : Text) :
    (name ∈ Reference.entities t ↔ (.reference name ∈ pieces t ∧ '\u1680' ∉ name) ∨
      ∃ u, .verbatim u ∈ pieces t ∧ name ∈ Reference.entities u) ∧
    (∀ limits isTokenized, ∃ v, normalize .empty limits t isTokenized = .ok v ∧
      (name ∈ v.undeclared ↔ .reference name ∈ pieces t)) ∧
    (∀ g limits isTokenized v, normalize g limits t isTokenized = .ok v →
      .reference name ∈ pieces t →
      name ∈ v.references ∨ name ∈ v.undeclared) ∧
    ∀ (g : Graph) roots s title e d, g.Inserted → g.reachable roots = .ok s →
      e ∈ (⟨g, title, some s⟩ : Xml.Document).entities .general → e.definition = .literal t →
      .reference name ∈ pieces t → '\u1680' ∉ name → g.entity? .general name = some d →
      d ∈ (⟨g, title, some s⟩ : Xml.Document).entities .general := by
  have hfound := mem_entities_iff (t := t) hname
  refine ⟨hfound, fun limits isTokenized => ?_, fun g limits isTokenized v h hpiece =>
    mem_of_normalize h hpiece, ?_⟩
  · obtain ⟨v, hv, hundeclared⟩ := normalize_empty limits t isTokenized
    exact ⟨v, hv, hundeclared name⟩
  · intro g roots s title e d hg hs he hliteral hpiece hmark hd
    exact mem_entities_of_replacement hg hs he hliteral (hfound.2 (.inl ⟨hpiece, hmark⟩)) hd

/-- A name with the Ogham space mark is met but not found, so an entity with such a name is
missing from what is reachable. A name within a reference to no character is found but not
met. -/
theorem search_misses_ogham :
    let name : Text := "a\u1680b"
    let g := ((((Graph.empty.insertElement ⟨['r'], .empty, 1⟩).2.insertAttribute
      ⟨['r'], ['a'], .entity, .plain ['x'], [], 2⟩).2.insertEntity
        ⟨name, .general, .literal ['v'], 3⟩).2.insertEntity
      ⟨['x'], .general, .literal (writeReference name), 4⟩).2
    isOwnName name = true ∧ pieces (writeReference name) = [.reference name] ∧
      Reference.entities (writeReference name) = [] ∧
      (normalize g .standard (writeReference ['x']) true).toOption =
        some ⟨['v'], [['x'], name], []⟩ ∧
      g.reachable [['r']] =
        .ok ⟨[['r']], [.element ['r'], .attributeOf ['r'] ['a'], .entity .general ['x']]⟩ ∧
      pieces "&#x &b;" = [.verbatim "&#x &b;"] ∧ Reference.entities "&#x &b;" = [['b']] := by
  intro name g
  refine ⟨by decide +kernel, by decide +kernel, by decide +kernel, by decide +kernel, ?_,
    by decide +kernel, by decide +kernel⟩
  have hvisit : g.gatherElement ⟨.new [['r']], []⟩ ['r'] =
      ⟨⟨[['r']], [.element ['r'], .attributeOf ['r'] ['a']]⟩, [['x']]⟩ := by decide +kernel
  have hfollow : g.gatherEntity ⟨[['r']], [.element ['r'], .attributeOf ['r'] ['a']]⟩ ['x']
      ⟨['x'], .general, .literal (writeReference name), 4⟩ =
        ⟨[['r']], [.element ['r'], .attributeOf ['r'] ['a'], .entity .general ['x']]⟩ := rfl
  have hinner : Graph.innerEntities ⟨['x'], .general, .literal (writeReference name), 4⟩ =
      [] := by
    decide +kernel
  have hr : g.element? ['r'] = some ⟨['r'], .empty, 1⟩ := rfl
  have hx : g.entity? .general ['x'] =
      some ⟨['x'], .general, .literal (writeReference name), 4⟩ := by decide +kernel
  have hclosure : g.closure [['r']] =
      ⟨[['r']], [.element ['r'], .attributeOf ['r'] ['a'], .entity .general ['x']]⟩ := by
    have hqueue : g.rootQueue [['r']] = ⟨[['r']], [['r']]⟩ := rfl
    rw [Graph.closure, hqueue, Graph.Walking.walk_cons hr, hvisit]
    simp only [Content.Spec.elementNames, Content.Spec.model?, List.foldl_nil,
      Graph.Walking.walk_nil]
    rw [Graph.Closing.closeEntities_cons (by simp) hx, hfollow, hinner]
    exact Graph.Closing.closeEntities_nil
  rw [Graph.reachable_eq, hclosure]
  rfl

/-- A document with an attribute that names an entity, which refers to another one. -/
theorem search_agrees_with_pieces_nested :
    let t : Text := "&#60;&e;"
    let g := ((((Graph.empty.insertElement ⟨['r'], .empty, 1⟩).2.insertAttribute
      ⟨['r'], ['a'], .entity, .plain ['x'], [], 2⟩).2.insertEntity
        ⟨['e'], .general, .literal ['v'], 3⟩).2.insertEntity
      ⟨['x'], .general, .literal t, 4⟩).2
    isOwnName ['e'] = true ∧ ['e'] ∈ Reference.entities t ∧
      (∃ v, normalize g .standard t false = .ok v ∧
        (['e'] ∈ v.references ∨ ['e'] ∈ v.undeclared)) ∧
      ∃ s, g.reachable [['r']] = .ok s ∧
        ⟨['e'], .general, .literal ['v'], 3⟩ ∈
          (⟨g, none, some s⟩ : Xml.Document).entities .general := by
  intro t g
  have hname : isOwnName ['e'] = true := by decide +kernel
  obtain ⟨hfound, -, hmet, hdocument⟩ := search_agrees_with_pieces hname t
  have hpiece : .reference ['e'] ∈ pieces t := by decide +kernel
  refine ⟨hname, hfound.2 (.inl ⟨hpiece, by decide⟩), ?_, ?_⟩
  · have hsome : (normalize g .standard t false).toOption.isSome = true := by decide +kernel
    cases hrun : normalize g .standard t false with
    | error fault =>
        rw [hrun] at hsome
        cases hsome
    | ok v => exact ⟨v, rfl, hmet g _ _ v hrun hpiece⟩
  · have hinserted : g.Inserted :=
      .insertEntity _ (.insertEntity _ (.insertAttribute _ (.insertElement _ .empty)))
    have hs : g.reachable [['r']] = .ok (g.closure [['r']]) := by
      rw [Graph.reachable_eq]
      rfl
    have hneeds : g.Needs [['r']] (.entity .general ['x']) := by
      have hr : g.Needs [['r']] (.element ['r']) := .root (by simp) rfl
      refine .namedEntity (.attributeOf (n := ['a']) hr rfl) rfl (.inl rfl) rfl ?_ rfl
      refine ⟨by simp, fun c hc => ?_, [], [], rfl, by simp, by simp⟩
      rw [List.mem_singleton.1 hc]
      decide
    have hx : ⟨['x'], .general, .literal t, 4⟩ ∈
        (⟨g, none, some _⟩ : Xml.Document).entities .general :=
      List.mem_filter.2 ⟨by decide, (Graph.contains_reachable_iff hinserted hs).2 hneeds⟩
    exact ⟨_, hs, hdocument g _ _ none _ _ hinserted hs hx rfl hpiece (by decide) rfl⟩

end Attribute.Value
end Doctype
