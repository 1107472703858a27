import Doctype.Attribute.Value
import Doctype.Proofs.Text.Blank

/-!
The pieces of a value as written. A reference runs to the first semicolon behind its ampersand
(`reference?_append`), and what the pieces of a text are is told from left to right
(`pieces_reference`, `pieces_ampersand`, `pieces_cons`).
-/

namespace Doctype.Attribute.Value

variable {t rest body : Text} {p : Piece} {c : Char}

/-! ### One reference -/

theorem reference?_append (hbody : ';' ∉ body) (rest : Text) :
    reference? (body ++ ';' :: rest) = (Piece.ofBody? body).map (·, rest) := by
  have hne : ∀ d ∈ body, decide (d ≠ ';') = true := fun d hd => by
    simpa using ne_of_mem_of_not_mem hd hbody
  have htake : (body ++ ';' :: rest).takeWhile (· ≠ ';') = body := by
    rw [List.takeWhile_append_of_pos hne]
    simp
  have hdrop : (body ++ ';' :: rest).dropWhile (· ≠ ';') = ';' :: rest := by
    rw [List.dropWhile_append_of_pos hne]
    simp
  unfold reference?
  rw [htake, hdrop]
  cases Piece.ofBody? body <;> rfl

theorem reference?_of_notMem (h : ';' ∉ t) : reference? t = none := by
  have hdrop : t.dropWhile (· ≠ ';') = [] := by
    rw [List.dropWhile_eq_nil_iff]
    intro d hd
    simpa using ne_of_mem_of_not_mem hd h
  unfold reference?
  rw [hdrop]

theorem exists_of_reference?_eq_some (h : reference? t = some (p, rest)) :
    ∃ body, t = body ++ ';' :: rest ∧ ';' ∉ body ∧ Piece.ofBody? body = some p := by
  by_cases hmem : ';' ∈ t
  · obtain ⟨body, after, rfl, hbody⟩ := List.eq_append_cons_of_mem hmem
    rw [reference?_append hbody] at h
    obtain ⟨q, hq, heq⟩ := Option.map_eq_some_iff.1 h
    cases heq
    exact ⟨body, rfl, hbody, hq⟩
  · rw [reference?_of_notMem hmem] at h
    cases h

/-- The ways in which a body is a piece: it is decoded as a character reference or stays as it
is written, or it is a name, of a predefined entity or of another one. -/
theorem Piece.ofBody?_cases (h : ofBody? body = some p) :
    (body.head? = some '#' ∧ ((∃ c, Reference.decode body = some c ∧ p = denoted c) ∨
      Reference.decode body = none ∧ p = verbatim (writeReference body))) ∨
    body.head? ≠ some '#' ∧ Text.isName body = true ∧
      ((∃ c, predefined? body = some c ∧ p = denoted c) ∨
      predefined? body = none ∧ p = reference body) := by
  unfold ofBody? at h
  split at h
  · next hhead =>
    refine .inl ⟨hhead, ?_⟩
    split at h
    · next c hc =>
      cases h
      exact .inl ⟨c, hc, rfl⟩
    · next hnone =>
      cases h
      exact .inr ⟨hnone, rfl⟩
  · next hhead =>
    split at h
    · next hname =>
      refine .inr ⟨hhead, hname, ?_⟩
      split at h
      · next c hc =>
        cases h
        exact .inl ⟨c, hc, rfl⟩
      · next hnone =>
        cases h
        exact .inr ⟨hnone, rfl⟩
    · cases h

theorem Piece.isName_of_ofBody?_eq_none (h : ofBody? body = none) :
    Text.isName body = false := by
  unfold ofBody? at h
  split at h
  · split at h <;> cases h
  · split at h
    · split at h <;> cases h
    · next hname => simpa using hname

/-! ### Texts -/

theorem piecesFrom_reference {done : List Piece} (h : reference? t = some (p, rest)) :
    piecesFrom done ('&' :: t) = piecesFrom (p :: done) rest := by
  rw [piecesFrom, if_pos rfl]
  split
  · next h' =>
    rw [h] at h'
    cases h'
    rfl
  · next h' =>
    rw [h] at h'
    cases h'

theorem piecesFrom_ampersand {done : List Piece} (h : reference? t = none) :
    piecesFrom done ('&' :: t) = piecesFrom (.literal '&' :: done) t := by
  rw [piecesFrom, if_pos rfl]
  split
  · next h' =>
    rw [h] at h'
    cases h'
  · rfl

theorem piecesFrom_cons {done : List Piece} (hc : c ≠ '&') :
    piecesFrom done (c :: t) = piecesFrom (.literal c :: done) t := by
  rw [piecesFrom, if_neg hc]

@[elab_as_elim]
theorem pieces_induction {motive : Text → Prop} (nil : motive [])
    (reference : ∀ t p rest, reference? t = some (p, rest) → motive rest → motive ('&' :: t))
    (ampersand : ∀ t, reference? t = none → motive t → motive ('&' :: t))
    (cons : ∀ c t, c ≠ '&' → motive t → motive (c :: t)) (t : Text) : motive t :=
  piecesFrom.induct (fun _ t => motive t) (fun _ => nil) (fun _ => reference)
    (fun _ => ampersand) (fun _ => cons) [] t

theorem piecesFrom_eq (done : List Piece) (t : Text) :
    piecesFrom done t = done.reverse ++ pieces t := by
  rw [pieces]
  induction t using pieces_induction generalizing done with
  | nil => simp [piecesFrom]
  | reference t p rest h ih =>
      rw [piecesFrom_reference h, piecesFrom_reference h, ih, ih [_]]
      simp
  | ampersand t h ih =>
      rw [piecesFrom_ampersand h, piecesFrom_ampersand h, ih, ih [_]]
      simp
  | cons c t hc ih =>
      rw [piecesFrom_cons hc, piecesFrom_cons hc, ih, ih [_]]
      simp

@[simp] theorem pieces_nil : pieces [] = [] := by
  simp [pieces, piecesFrom]

theorem pieces_reference (h : reference? t = some (p, rest)) :
    pieces ('&' :: t) = p :: pieces rest := by
  rw [pieces, piecesFrom_reference h, piecesFrom_eq]
  rfl

theorem pieces_ampersand (h : reference? t = none) :
    pieces ('&' :: t) = .literal '&' :: pieces t := by
  rw [pieces, piecesFrom_ampersand h, piecesFrom_eq]
  rfl

theorem pieces_cons (hc : c ≠ '&') : pieces (c :: t) = .literal c :: pieces t := by
  rw [pieces, piecesFrom_cons hc, piecesFrom_eq]
  rfl

/-- A piece is a character of the text, or it is told by a body between an ampersand and the
first semicolon behind it. -/
theorem exists_of_mem_pieces (h : p ∈ pieces t) :
    (∃ c ∈ t, p = .literal c) ∨ ∃ before body after,
      t = before ++ '&' :: (body ++ ';' :: after) ∧ ';' ∉ body ∧
        Piece.ofBody? body = some p := by
  induction t using pieces_induction with
  | nil => simp at h
  | reference t q rest href ih =>
      obtain ⟨body, rfl, hbody, hq⟩ := exists_of_reference?_eq_some href
      rw [pieces_reference href, List.mem_cons] at h
      rcases h with rfl | h
      · exact .inr ⟨[], body, rest, rfl, hbody, hq⟩
      · rcases ih h with ⟨c, hc, hp⟩ | ⟨before, inner, after, rfl, hinner, hp⟩
        · exact .inl ⟨c, by simp [hc], hp⟩
        · exact .inr ⟨'&' :: (body ++ ';' :: before), inner, after, by simp, hinner, hp⟩
  | ampersand t href ih =>
      rw [pieces_ampersand href, List.mem_cons] at h
      rcases h with rfl | h
      · exact .inl ⟨'&', List.mem_cons_self, rfl⟩
      · rcases ih h with ⟨c, hc, hp⟩ | ⟨before, inner, after, rfl, hinner, hp⟩
        · exact .inl ⟨c, List.mem_cons_of_mem _ hc, hp⟩
        · exact .inr ⟨'&' :: before, inner, after, rfl, hinner, hp⟩
  | cons c t hc ih =>
      rw [pieces_cons hc, List.mem_cons] at h
      rcases h with rfl | h
      · exact .inl ⟨c, List.mem_cons_self, rfl⟩
      · rcases ih h with ⟨d, hd, hp⟩ | ⟨before, inner, after, rfl, hinner, hp⟩
        · exact .inl ⟨d, List.mem_cons_of_mem _ hd, hp⟩
        · exact .inr ⟨c :: before, inner, after, rfl, hinner, hp⟩

end Doctype.Attribute.Value
