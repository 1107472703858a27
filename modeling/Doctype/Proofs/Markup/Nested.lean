import Doctype.Proofs.Markup.Literal
import Doctype.Proofs.Markup.Opening

/-!
References within replacements. A run that opens the tree of a text within the limits succeeds
with what is written for it (`expand_opened`). In the literal of an entity declaration a
replacement is inserted as it is, but a reference within that replacement is judged by the
quotation marks of the replacement alone: outside of these it is padded with spaces, although
it is still inside the literal (`declare_nested`).
-/

namespace Doctype.Markup

variable {σ : Type}

/-! ### Runs that succeed -/

/-- What a run from a state needs to open a tree, with `level` levels to go: no active entity
is entered again, and the limits hold. -/
structure Opened.Fits (o : Opened) (limits : Limits) (level : Nat) (s : State σ) : Prop where
  free : ∀ name ∈ s.active, name ∉ o.names
  count : s.expansions + o.count ≤ limits.entityExpansions
  depth : o.depth ≤ level
  largest : o.largest ≤ limits.entityExpansionSize

namespace Opened.Fits

variable {limits : Limits} {level : Nat} {s : State σ} {name : Text} {isQuoted : Bool}
  {body rest : Opened}

theorem notMem_active (h : (Opened.declared name isQuoted body rest).Fits limits level s) :
    name ∉ s.active :=
  fun hmem => h.free name hmem (by simp [Opened.names])

theorem inner (h : (Opened.declared name isQuoted body rest).Fits limits (level + 1) s)
    (hname : name ∉ body.names) (asked : List Request) :
    body.Fits limits level
      { s with active := s.active ++ [name], expansions := s.expansions + 1, asked } where
  free a ha hmem := by
    rcases List.mem_append.1 ha with hactive | hentered
    · exact h.free a hactive (by simp [Opened.names, hmem])
    · exact hname (List.mem_singleton.1 hentered ▸ hmem)
  count := by
    have := h.count
    simp only [Opened.count] at this ⊢
    omega
  depth := by
    have := h.depth
    simp only [Opened.depth] at this
    omega
  largest := by
    have := h.largest
    simp only [Opened.largest] at this
    omega

theorem size_body (h : (Opened.declared name isQuoted body rest).Fits limits level s) :
    Text.size body.written ≤ limits.entityExpansionSize := by
  have := h.largest
  simp only [Opened.largest] at this
  omega

theorem behind (h : (Opened.declared name isQuoted body rest).Fits limits level s)
    (asked : List Request) :
    rest.Fits limits level { s with expansions := s.expansions + 1 + body.count, asked } where
  free a ha hmem := h.free a ha (by simp [Opened.names, hmem])
  count := by
    have := h.count
    simp only [Opened.count] at this ⊢
    omega
  depth := by
    have := h.depth
    simp only [Opened.depth] at this
    omega
  largest := by
    have := h.largest
    simp only [Opened.largest] at this
    omega

end Opened.Fits

section Run

variable {c : Setting σ} {fail : Fault → Error} {inLiterals : Bool} {level : Nat}

def ReplacesWithin (c : Setting σ) (inLiterals : Bool) (level : Nat)
    (replace : Text → Scan σ (Option Text)) : Prop :=
  ∀ name (s : State σ), (s.entities.lookup name = none → replace name s = .ok none s) ∧
    ∀ isQuoted body rest asked,
        Opens c.resolver s.entities inLiterals s.asked [.reference name isQuoted]
        (.declared name isQuoted body .nil) asked →
      (Opened.declared name isQuoted body rest).Fits c.limits level s →
        replace name s = .ok (some body.written)
          { s with expansions := s.expansions + 1 + body.count, asked }

def ExpandsWithin (c : Setting σ) (inLiterals : Bool) (level : Nat)
    (run : Text → Scan σ Text) : Prop :=
  ∀ t (s : State σ) o asked,
    Opens c.resolver s.entities inLiterals s.asked (pieces inLiterals t) o asked →
    o.Fits c.limits level s → Text.size o.written ≤ c.limits.entityExpansionSize →
      run t s = .ok o.written { s with expansions := s.expansions + o.count, asked }

theorem foldlM_opened {replace : Text → Scan σ (Option Text)}
    (h : ReplacesWithin c inLiterals level replace) {ps : List Piece} {o : Opened}
    {s : State σ} {asked : List Request}
    (hopens : Opens c.resolver s.entities inLiterals s.asked ps o asked)
    (hfits : o.Fits c.limits level s) (out : Buffer) :
    ∃ out', out'.toText = out.toText ++ o.written ∧ ps.foldlM (expandPiece replace) out s =
      .ok out' { s with expansions := s.expansions + o.count, asked } := by
  induction ps generalizing o s out with
  | nil =>
      cases hopens
      exact ⟨out, by simp [Opened.written], rfl⟩
  | cons p ps ih =>
      rw [List.foldlM_cons]
      cases hopens with
      | char hrest =>
          obtain ⟨out', htext, hrun⟩ :=
            ih hrest ⟨hfits.free, hfits.count, hfits.depth, hfits.largest⟩
            (out.push _)
          refine ⟨out', ?_, hrun⟩
          simp [htext, Opened.written]
      | @undeclared _ _ name _ _ _ hname hrest =>
          obtain ⟨out', htext, hrun⟩ :=
            ih hrest ⟨hfits.free, hfits.count, hfits.depth, hfits.largest⟩
            (out.append (writeReference name))
          refine ⟨out', by simp [htext, Opened.written], ?_⟩
          rw [bind_apply, expandPiece, bind_apply, (h name s).1 hname]
          exact hrun
      | @declared _ asked₁ _ name isQuoted r u body _ rest hname htext? hbody hfree hrest =>
          have hreplace := (h name s).2 isQuoted body rest asked₁
            (.declared hname htext? hbody hfree .nil) hfits
          obtain ⟨out', htext, hrun⟩ := ih
            (s := { s with expansions := s.expansions + 1 + body.count, asked := asked₁ })
              hrest (hfits.behind asked₁)
            (if isQuoted then out.append body.written
              else (out.push ' ').append body.written |>.push ' ')
          refine ⟨out', ?_, ?_⟩
          · rw [htext]
            cases isQuoted <;> simp [Opened.written, inserted]
          · rw [bind_apply, expandPiece, bind_apply, hreplace]
            simp only [Opened.count, ← Nat.add_assoc]
            exact hrun

theorem expandPieces_opened {replace : Text → Scan σ (Option Text)}
    (h : ReplacesWithin c inLiterals level replace) :
    ExpandsWithin c inLiterals level (expandPieces c inLiterals replace) := by
  intro t s o asked hopens hfits hsize
  obtain ⟨out, htext, hrun⟩ := foldlM_opened h hopens hfits .empty
  rw [Buffer.toText_empty, List.nil_append] at htext
  rw [← htext] at hsize ⊢
  exact expandPieces_of_foldlM hrun hsize

theorem enter_opened {β : Type} (next : β) {name : Text} {isQuoted : Bool}
    {body rest : Opened} {s : State σ}
    (hfits : (Opened.declared name isQuoted body rest).Fits c.limits level s) :
    enter c fail (some next) name s =
      .ok next { s with active := s.active ++ [name], expansions := s.expansions + 1 } := by
  have hcount := hfits.count
  simp only [Opened.count] at hcount
  exact enter_of_room fail next hfits.notMem_active (by omega)

theorem expandEntity_opened {deeper : Option (Text → Scan σ Text)}
    (hdeeper : ∀ n, level = n + 1 → ∃ run, deeper = some run ∧
      ExpandsWithin c inLiterals n run) :
    ReplacesWithin c inLiterals level (expandEntity c fail deeper) := by
  intro name s
  constructor
  · intro hname
    unfold expandEntity
    rw [get_bind, hname]
    rfl
  · rintro isQuoted body rest asked (_ | _ | _ | ⟨hname, htext, hbody, hfree, hnil⟩) hfits
    cases hnil
    obtain ⟨n, rfl⟩ : ∃ n, level = n + 1 := by
      have := hfits.depth
      simp only [Opened.depth] at this
      exact ⟨level - 1, by omega⟩
    obtain ⟨run, rfl, hrun⟩ := hdeeper n rfl
    rename_i r u
    -- behind the entrance there may be a load, and then the replacement text is expanded
    have hentered : (do
        let expanded ← run u; leave; return some expanded : Scan σ (Option Text))
          { s with
            active := s.active ++ [name]
            expansions := s.expansions + 1
            asked := s.asked ++ r.requests } =
            .ok (some body.written)
              { s with expansions := s.expansions + 1 + body.count, asked } := by
      rw [bind_apply, hrun u _ body asked hbody (hfits.inner hfree _) hfits.size_body]
      change EStateM.Result.ok _ _ = _
      simp
    unfold expandEntity
    rw [get_bind, hname]
    dsimp only
    rw [bind_apply, enter_opened run hfits]
    cases r with
    | internal text =>
        cases htext
        rw [Replacement.requests, List.append_nil] at hentered
        exact hentered
    | external id base =>
        simp only [Replacement.text?] at htext
        cases hload : c.resolver.answer s.asked ⟨base, id⟩ with
        | error e => simp [hload, Except.toOption] at htext
        | ok found =>
            simp only [hload, Except.toOption, Option.map_some, Option.some.injEq] at htext
            dsimp only
            rw [bind_apply, load_eq, hload]
            subst htext
            exact hentered

/-- A run that may go deep enough gives what is written for the tree of the text. -/
theorem expand_opened (level : Nat) :
    ExpandsWithin c inLiterals level (expand c fail inLiterals level) := by
  induction level with
  | zero => exact expandPieces_opened (expandEntity_opened (by simp))
  | succ level ih =>
      refine expandPieces_opened (expandEntity_opened ?_)
      rintro n ⟨⟩
      exact ⟨_, rfl, ih⟩

end Run

/-! ### Declarations -/

namespace LiteralFrame

variable {scope : Scope} (f : LiteralFrame scope) {lit : Text} {o : Opened}

def opened (o : Opened) : Opened :=
  (Opened.ofText (f.front ++ (f.name ++ f.between))).append
    (.char f.quote (o.append (.char f.quote (.ofText f.behind))))

theorem opens_body {resolver : Resolver} {entities : List (Text × Replacement)}
    {asked asked' : List Request} (hlit : f.quote ∉ lit)
    (h : Opens resolver entities true asked (literalPieces f.quote lit) o asked') :
    Opens resolver entities true asked (pieces true (f.body lit)) (f.opened o) asked' := by
  rw [f.pieces_body hlit]
  exact (Opens.ofText _).append (.char (h.append (.char (.ofText _))))

theorem written_opened (o : Opened) : (f.opened o).written = f.body o.written := by
  simp [opened, body, Opened.written]

theorem fits_opened {limits : Limits} {level : Nat} {s : State σ} (h : o.Fits limits level s) :
    (f.opened o).Fits limits level s where
  free := by simpa [opened, Opened.names] using h.free
  count := by simpa [opened, Opened.count] using h.count
  depth := by simpa [opened, Opened.depth] using h.depth
  largest := by simpa [opened, Opened.largest] using h.largest

section Declare

variable {c : Setting σ} {fail : Fault → Error} {site : Site} {level : Nat} {s s' : State σ}

theorem exists_of_fits {handled : σ} {asked : List Request} (hlit : f.quote ∉ lit)
    (hopens : Opens c.resolver s.entities true s.asked (literalPieces f.quote lit) o asked)
    (hfits : o.Fits c.limits level s)
    (hsize : Text.size (f.body o.written) ≤ c.limits.entityExpansionSize)
    (haccept : c.handler.accept s.handled (.entity scope f.name (quoted f.quote o.written)) =
      .ok handled) :
    ∃ s', declare c fail site level .entity (f.body lit) s = .ok () s' ∧
      s'.handled = handled := by
  have hexpands : ExpandsWithin c true level (expand c fail true level) :=
    expand_opened level
  have hexpand := hexpands (f.body lit) s (f.opened o) asked (f.opens_body hlit hopens)
    (f.fits_opened hfits) (by rwa [f.written_opened])
  rw [f.written_opened] at hexpand
  refine ⟨_, ?_, handled_define site.location (.entity scope f.name (quoted f.quote o.written))
    { s with handled, expansions := s.expansions + (f.opened o).count, asked }⟩
  unfold declare
  rw [bind_apply]
  simp only [decide_true, hexpand, f.read_body]
  rw [bind_apply, report_apply, haccept]
  rfl

/-- Whatever the limits are, a declaration that is reported is reported with the text of the
tree. -/
theorem accept_of_declare {asked : List Request} (hlit : f.quote ∉ lit)
    (hopens : Opens c.resolver s.entities true s.asked (literalPieces f.quote lit) o asked)
    (hrun : declare c fail site level .entity (f.body lit) s = .ok () s') :
    c.handler.accept s.handled (.entity scope f.name (quoted f.quote o.written)) =
      .ok s'.handled := by
  obtain ⟨out, s₁, hexpand, hread⟩ := bind_eq_ok hrun
  obtain ⟨hkeeps, hout⟩ := expand_eq_ok level _ _ _ _ hexpand
  have hbody : out = f.body o.written :=
    (hout.unique (f.opens_body hlit hopens).expands).1.trans (f.written_opened o)
  simp only [hbody, f.read_body] at hread
  obtain ⟨_, s₂, hreport, hdefine⟩ := bind_eq_ok hread
  obtain ⟨haccept, -⟩ := report_eq_ok hreport
  cases hdefine
  rwa [handled_define, ← hkeeps.handled]

end Declare

end LiteralFrame

/-- Where no entity leads back to itself, the literal of a declaration has a tree. If the
limits are wide enough for it, the declaration is reported, and whenever it is, then with what
is written for the tree. The replacements of the references in the literal are inserted as they
are, but those of the references in these replacements are so only between quotation marks
there: each other one adds two spaces to what would be the literal with all replacements as
they are. -/
theorem declare_nested {c : Setting σ} {fail : Fault → Error} {site : Site} {level : Nat}
    {s : State σ} {scope : Scope} {lit : Text} (f : LiteralFrame scope)
    (hlit : f.quote ∉ lit) :
    (∀ rank, Descends c.resolver s.entities true rank →
      ∃ o asked, Opens c.resolver s.entities true s.asked
        (literalPieces f.quote lit) o asked) ∧
      (∀ name isQuoted, .reference name isQuoted ∈ literalPieces f.quote lit →
        isQuoted = true) ∧
      ∀ o asked, Opens c.resolver s.entities true s.asked (literalPieces f.quote lit) o asked →
        (∀ handled, o.Fits c.limits level s →
          Text.size (f.body o.written) ≤ c.limits.entityExpansionSize →
          c.handler.accept s.handled (.entity scope f.name (quoted f.quote o.written)) =
            .ok handled →
            ∃ s', declare c fail site level .entity (f.body lit) s = .ok () s' ∧
              s'.handled = handled) ∧
        (∀ s', declare c fail site level .entity (f.body lit) s = .ok () s' →
          c.handler.accept s.handled (.entity scope f.name (quoted f.quote o.written)) =
            .ok s'.handled) ∧
        List.Sublist o.asIs o.written ∧ o.written.length = o.asIs.length + 2 * o.paddings ∧
        (o.written = o.asIs ↔ o.paddings = 0) :=
  ⟨fun _ hrank => exists_opens hrank _ _, fun _ _ => isQuoted_of_mem_piecesFrom rfl hlit,
    fun o _ hopens => ⟨fun _ => f.exists_of_fits hlit hopens,
      fun _ => f.accept_of_declare hlit hopens,
      o.sublist_written, o.length_written, o.written_eq_asIs_iff⟩⟩

/-- The tree of `[%a;]` where `a` stands for `%b;` and `b` for `x`. -/
def bracketed : Opened :=
  .char '[' (.declared ['a'] true (.declared ['b'] false (.char 'x' .nil) .nil)
    (.char ']' .nil))

theorem opens_bracketed (resolver : Resolver) :
    Opens resolver [(['b'], .internal "x"), (['a'], .internal "%b;")] true []
      (literalPieces '"' "[%a;]") bracketed [] := by
  have hlit : literalPieces '"' "[%a;]" = [.char '[', .reference ['a'] true, .char ']'] := by
    decide +kernel
  have ha : pieces true "%b;" = [.reference ['b'] false] := by decide +kernel
  have hb : pieces true "x" = [.char 'x'] := by decide +kernel
  rw [hlit]
  refine .char (.declared rfl rfl ?_ (by decide) (.char .nil))
  rw [ha]
  refine .declared rfl rfl ?_ (by decide) .nil
  rw [hb]
  exact .char .nil

/-- The theorem applies where a reference is within a replacement. -/
theorem declare_nested_bracketed :
    let c : Setting Recording := ⟨Recording.handler, .ofCatalog [], .standard⟩
    let fail : Fault → Error := fun _ => .endOfDtd
    let site : Site := ⟨[], none, 0⟩
    let s : State Recording :=
      ⟨.empty, [(['b'], .internal "x"), (['a'], .internal "%b;")], [], 0, []⟩
    let lit : Text := "[%a;]"
    '"' ∉ lit ∧ Opens c.resolver s.entities true s.asked (literalPieces '"' lit) bracketed [] ∧
      bracketed.Fits c.limits 2 s ∧
      (∃ s', declare c fail site 2 .entity (frameOfE.body lit) s = .ok () s' ∧
        s'.handled = ⟨#[.entity .general ['e'] (quoted '"' bracketed.written)], false⟩) ∧
      bracketed.written.length = bracketed.asIs.length + 2 * bracketed.paddings := by
  intro c fail site s lit
  have hlit : '"' ∉ lit := by decide
  have hopens := opens_bracketed c.resolver
  have hfits : bracketed.Fits c.limits 2 s := ⟨by simp [s], by decide, by decide, by decide⟩
  obtain ⟨-, -, hnested⟩ := declare_nested (c := c) (s := s) frameOfE hlit
  exact ⟨hlit, hopens, hfits, (hnested bracketed [] hopens).1 _ hfits (by decide) rfl,
    (hnested bracketed [] hopens).2.2.2.1⟩

/-- The reference to `b` is not in the literal of `e`, but in what `a` stands for there: it is
padded, and what is reported is not the literal with all replacements as they are. -/
theorem reported_nestedReference :
    let dtd : Text := "<!ENTITY % b \"x\"><!ENTITY % a \"&#37;b;\"><!ENTITY e \"[%a;]\">"
    let entities : List (Text × Replacement) :=
      [(['b'], .internal "x"), (['a'], .internal "%b;")]
    let run := (Source.ofText .dtd dtd).scan ⟨Recording.handler, .ofCatalog [], .standard⟩
      (.start .empty)
    (match run with
      | .ok () s => some (s.handled.events.toList, s.entities)
      | .error _ _ => none) = some ([.entity .parameter ['b'] "\"x\"",
        .entity .parameter ['a'] "\"&#37;b;\"", .entity .general ['e'] "\"[ x ]\""],
          entities) ∧
      Opens (.ofCatalog []) entities true [] (literalPieces '"' "[%a;]") bracketed [] ∧
      quoted '"' bracketed.asIs = "\"[x]\"" := by
  intro dtd entities run
  exact ⟨by decide +kernel, opens_bracketed _, by decide⟩

end Doctype.Markup
