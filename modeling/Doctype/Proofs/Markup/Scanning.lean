import Doctype.Source

/-!
What runs of a scan do: a run of two parts from a state (`bind_apply`), what entering an entity
gives (`enter_apply`), and one step through a text, which is its first item and then what that
leaves (`scanItems_eq`).
-/

namespace Doctype.Markup

variable {σ α β : Type}

theorem bind_apply (x : Scan σ α) (f : α → Scan σ β) (s : State σ) :
    (x >>= f) s = match x s with
      | .ok a t => f a t
      | .error error t => .error error t := by
  change EStateM.bind x f s = _
  unfold EStateM.bind
  cases x s <;> rfl

theorem get_bind (f : State σ → Scan σ β) (s : State σ) : (get >>= f : Scan σ β) s = f s s :=
  rfl

/-- What is seen of the end of a run: its error, or something about what it gives and the state
it leaves. -/
def seen (view : α → State σ → β) : EStateM.Result Error (State σ) α → Except Error β
  | .ok a s => .ok (view a s)
  | .error error _ => .error error

theorem exists_of_seen_eq_ok {view : α → State σ → β}
    {result : EStateM.Result Error (State σ) α} {b : β} (h : seen view result = .ok b) :
    ∃ a s, result = .ok a s ∧ view a s = b := by
  cases result with
  | ok a s => exact ⟨a, s, rfl, Except.ok.inj h⟩
  | error error s => cases h

theorem exists_of_seen_eq_error {view : α → State σ → β}
    {result : EStateM.Result Error (State σ) α} {error : Error}
    (h : seen view result = .error error) : ∃ s, result = .error error s := by
  cases result with
  | ok a s => cases h
  | error error' s => exact ⟨s, congrArg (EStateM.Result.error · s) (Except.error.inj h)⟩

/-- An entity is entered unless it is active or a limit is reached. -/
theorem enter_apply (c : Setting σ) (fail : Fault → Error) (deeper : Option β) (name : Text)
    (s : State σ) :
    enter c fail deeper name s =
      if s.active.contains name then .error (fail (.recursiveEntity name s.active)) s
      else
        match c.limits.checkExpansions (s.expansions + 1), deeper with
        | .error excess, _ =>
          .error (.limitExceeded excess) { s with expansions := s.expansions + 1 }
        | .ok (), none =>
          .error (.limitExceeded (.depth (s.active.length + 1) c.limits.entityDepth))
            { s with expansions := s.expansions + 1 }
        | .ok (), some next =>
          .ok next { s with active := s.active ++ [name], expansions :=
            s.expansions + 1 } := by
  unfold enter
  rw [get_bind]
  by_cases hactive : s.active.contains name = true
  · simp only [hactive, if_true]
    rfl
  · simp only [hactive, Bool.false_eq_true, if_false]
    cases c.limits.checkExpansions (s.expansions + 1) with
    | error excess => rfl
    | ok u => cases deeper <;> rfl

theorem enter_of_room {c : Setting σ} {name : Text} {s : State σ} (fail : Fault → Error)
    (next : β) (hname : name ∉ s.active)
    (hcount : s.expansions + 1 ≤ c.limits.entityExpansions) :
    enter c fail (some next) name s =
      .ok next { s with active := s.active ++ [name], expansions := s.expansions + 1 } := by
  have hactive : s.active.contains name = false := by simpa using hname
  have hcheck : c.limits.checkExpansions (s.expansions + 1) = .ok () := by
    simp [Limits.checkExpansions, Limits.atMost, hcount]
  rw [enter_apply]
  simp only [hactive, hcheck, Bool.false_eq_true, if_false]

theorem enter_some_bind (c : Setting σ) (fail : Fault → Error) (next : α) (name : Text)
    (f : α → Scan σ β) :
    enter c fail (some next) name >>= f = enter c fail (some ()) name >>= fun _ => f next := by
  funext s
  rw [bind_apply, bind_apply, enter_apply, enter_apply]
  by_cases hactive : s.active.contains name = true
  · simp only [hactive, if_true]
  · simp only [hactive, Bool.false_eq_true, if_false]
    cases c.limits.checkExpansions (s.expansions + 1) <;> rfl

theorem enter_none_bind (c : Setting σ) (fail : Fault → Error) (name : Text)
    (f g : α → Scan σ β) : enter c fail none name >>= f = enter c fail none name >>= g := by
  funext s
  rw [bind_apply, bind_apply, enter_apply]
  by_cases hactive : s.active.contains name = true
  · simp only [hactive, if_true]
  · simp only [hactive, Bool.false_eq_true, if_false]
    cases c.limits.checkExpansions (s.expansions + 1) <;> rfl

theorem report_apply (c : Setting σ) (e : Event) (s : State σ) :
    report c e s = match c.handler.accept s.handled e with
      | .ok handled => .ok () { s with handled }
      | .error error => .error error s := by
  unfold report
  rw [get_bind]
  cases c.handler.accept s.handled e <;> rfl

theorem load_eq (c : Setting σ) (base : Option Location) (id : ExternalId) (s : State σ) :
    load c base id s = match c.resolver.answer s.asked ⟨base, id⟩ with
      | .ok r => .ok r { s with asked := s.asked ++ [⟨base, id⟩] }
      | .error error => .error error { s with asked := s.asked ++ [⟨base, id⟩] } := by
  unfold load
  rw [get_bind]
  cases c.resolver.answer s.asked ⟨base, id⟩ <;> rfl

theorem load_eq_ok {c : Setting σ} {base : Option Location} {id : ExternalId} {s s' : State σ}
    {r : Resource} (h : load c base id s = .ok r s') :
    c.resolver.answer s.asked ⟨base, id⟩ = .ok r ∧
      s' = { s with asked := s.asked ++ [⟨base, id⟩] } := by
  rw [load_eq] at h
  cases hr : c.resolver.answer s.asked ⟨base, id⟩ with
  | error e =>
      simp only [hr] at h
      cases h
  | ok found =>
      simp only [hr] at h
      cases h
      exact ⟨rfl, rfl⟩

theorem finish_apply (c : Setting σ) (s : State σ) :
    Source.finish c s = match c.handler.finish s.handled with
      | .ok handled => .ok () { s with handled }
      | .error error => .error error s := by
  unfold Source.finish
  rw [get_bind]
  cases c.handler.finish s.handled <;> rfl

theorem handled_define (base : Option Location) (e : Event) (s : State σ) :
    (s.define base e).handled = s.handled := by
  unfold State.define
  split
  · split <;> rfl
  · rfl

theorem asked_define (base : Option Location) (e : Event) (s : State σ) :
    (s.define base e).asked = s.asked := by
  unfold State.define
  split
  · split <;> rfl
  · rfl

theorem foldlM_char (replace : Text → Scan σ (Option Text)) (t : Text) (out : Buffer)
    (s : State σ) :
    (t.map Piece.char).foldlM (expandPiece replace) out s = .ok (out.append t) s := by
  induction t generalizing out with
  | nil => rfl
  | cons d t ih =>
      rw [List.map_cons, List.foldlM_cons, bind_apply]
      exact ih (out.push d)

theorem expandPieces_of_foldlM {c : Setting σ} {inLiterals : Bool}
    {replace : Text → Scan σ (Option Text)} {t : Text} {s s' : State σ} {out : Buffer}
    (hrun : (pieces inLiterals t).foldlM (expandPiece replace) .empty s = .ok out s')
    (hsize : Text.size out.toText ≤ c.limits.entityExpansionSize) :
    expandPieces c inLiterals replace t s = .ok out.toText s' := by
  have hcheck : c.limits.checkExpansionSize out.bytes = .ok () := by
    simp [Limits.checkExpansionSize, Limits.atMost, Buffer.bytes_eq_size, hsize]
  rw [expandPieces, bind_apply, hrun]
  simp only [hcheck]
  rfl

/-- What a scan does with the text behind its blanks; `next` scans what is left. -/
def scanStep (c : Setting σ) (level : Nat) (deeper : Option (Site → Text → Scan σ Unit))
    (stop : Stop) (site : Site) (next : Nat → Text → Scan σ Text) (opened : Nat) :
    Text → Scan σ Text
  | [] =>
    match stop.faultAtEnd opened with
    | some fault => throw (site.error [] fault)
    | none => return []
  | d :: t =>
    if stop.isAt opened d then return d :: t
    else
      match sectionEnd? opened (d :: t) with
      | some rest => next (opened - 1) rest
      | none =>
        match Item.read d t with
        | .error f => throw (site.error f.rest f.fault)
        | .ok (.sectionStart keyword start, rest) => do
          let keyword ← sectionKeyword c (site.error start) level keyword
          match openSection (d :: t) start keyword rest with
          | .error f => throw (site.error f.rest f.fault)
          | .ok (.included, rest) => next (opened + 1) rest
          | .ok (.ignored, rest) => next opened rest
        | .ok (item, rest) => do
          scanItem c (site.error (d :: t)) site level deeper item
          next opened rest

theorem scanItems_eq (c : Setting σ) (level : Nat)
    (deeper : Option (Site → Text → Scan σ Unit)) (stop : Stop) (site : Site) (opened : Nat)
    (text : Text) :
    scanItems c level deeper stop site opened text =
      scanStep c level deeper stop site (scanItems c level deeper stop site) opened
        (Text.skipBlanks text) := by
  rw [scanItems]
  unfold scanStep
  split
  · next hb => exact (congrArg (scanStep c level deeper stop site _ opened) hb).symm
  · next d t hb =>
    rw [hb]
    dsimp only
    split
    · rfl
    · split
      · next he => rw [he]
      · next he =>
        rw [he]
        dsimp only
        split
        · next hi => rw [hi]
        · next hi =>
          rw [hi]
          dsimp only
          refine congrArg _ (funext fun keyword => ?_)
          split
          · next hs => rw [hs]
          · next hs => rw [hs]
          · next hs => rw [hs]
        · next item rest hne hi =>
          rw [hi]
          cases item with
          | sectionStart keyword start => exact (hne keyword start rfl).elim
          | _ => rfl

end Doctype.Markup
