import Doctype.Proofs.Markup.Excerpts
import Doctype.Proofs.Markup.Offsets

/-!
Reading markup by byte offsets: items, the keyword and the bracket of a conditional section,
and the body of a declaration. At the offset of what is left of a text a reader reads what is
read of that, and gives the offset of what that leaves: no slice on its way fails.
-/

namespace Doctype.Markup

open Text (offset)

variable {text rest left behind start t : Text} {d : Char}

/-! ### Items -/

namespace Item

def readComment (body : Text) : Except Fault (Item × Text) :=
  match Text.breakAt? "-->" body with
  | some (inside, left) => .ok (comment inside, left)
  | none => .error .unterminatedComment

def readInstruction (body : Text) : Except Fault (Item × Text) :=
  match Text.breakAt? "?>" body with
  | some (inside, left) => (ofInstruction inside).map fun item => (item, left)
  | none => .error .unterminatedInstruction

def readDeclaration (body : Text) : Except Fault (Item × Text) :=
  match declaration? body with
  | some (inside, left) => (ofDeclaration inside).map fun item => (item, left)
  | none => .error .unterminatedDeclaration

def readReference (body : Text) : Except Fault (Item × Text) :=
  match reference? body with
  | some (name, left) => .ok (reference name, left)
  | none => .error .malformedReference

variable {body : Text} {item : Item}

theorem readComment_suffix (h : readComment body = .ok (item, left)) :
    item.isSection = false ∧ left <:+ body := by
  unfold readComment at h
  split at h
  · next hbreak =>
    cases h
    exact ⟨rfl, Text.breakAt?_suffix hbreak⟩
  · cases h

theorem isSection_of_ofInstruction {inside : Text} (h : ofInstruction inside = .ok item) :
    item.isSection = false := by
  unfold ofInstruction at h
  split at h
  · cases h
    split <;> rfl
  · cases h

theorem isSection_of_ofDeclaration {inside : Text} (h : ofDeclaration inside = .ok item) :
    item.isSection = false := by
  unfold ofDeclaration at h
  dsimp only at h
  split at h <;> cases h
  rfl

theorem readInstruction_suffix (h : readInstruction body = .ok (item, left)) :
    item.isSection = false ∧ left <:+ body := by
  unfold readInstruction at h
  split at h
  · next inside _ hbreak =>
    cases hinside : ofInstruction inside with
    | error fault =>
        rw [hinside] at h
        cases h
    | ok item' =>
        rw [hinside] at h
        cases h
        exact ⟨isSection_of_ofInstruction hinside, Text.breakAt?_suffix hbreak⟩
  · cases h

theorem readDeclaration_suffix (h : readDeclaration body = .ok (item, left)) :
    item.isSection = false ∧ left <:+ body := by
  unfold readDeclaration at h
  split at h
  · next inside _ hend =>
    cases hinside : ofDeclaration inside with
    | error fault =>
        rw [hinside] at h
        cases h
    | ok item' =>
        rw [hinside] at h
        cases h
        refine ⟨isSection_of_ofDeclaration hinside, inside ++ ['>'], ?_⟩
        rw [List.append_assoc]
        exact (declarationFrom?_eq_some hend).symm
  · cases h

theorem readReference_suffix (h : readReference body = .ok (item, left)) :
    item.isSection = false ∧ left <:+ body := by
  unfold readReference at h
  split at h
  · next name _ href =>
    cases h
    exact ⟨rfl, name ++ [';'], by simp [reference?_eq_some href]⟩
  · cases h

theorem read_comment (body : Text) : read '<' ('!' :: '-' :: '-' :: body) =
    (readComment body).mapError fun fault => ⟨fault, '<' :: '!' :: '-' :: '-' :: body⟩ := by
  rw [read, readComment]
  cases Text.breakAt? "-->" body <;> rfl

theorem read_instruction (body : Text) : read '<' ('?' :: body) =
    (readInstruction body).mapError fun fault => ⟨fault, '<' :: '?' :: body⟩ := by
  rw [read, readInstruction]
  rcases Text.breakAt? "?>" body with - | ⟨inside, left⟩
  · rfl
  · dsimp only
    cases ofInstruction inside <;> rfl

theorem read_declaration' (hcomment : ∀ v, body ≠ '-' :: '-' :: v)
    (hsection : ∀ v, body ≠ '[' :: v) :
    read '<' ('!' :: body) = (readDeclaration body).mapError fun fault =>
      ⟨fault, '<' :: '!' :: body⟩ := by
  rw [read, readDeclaration]
  · rcases declaration? body with - | ⟨inside, left⟩
    · rfl
    · dsimp only
      cases ofDeclaration inside <;> rfl
  · exact hcomment
  · exact hsection

theorem read_reference (body : Text) : read '%' body =
    (readReference body).mapError fun fault => ⟨fault, '%' :: body⟩ := by
  rw [read, readReference]
  cases reference? body <;> rfl

def readKeyword (start : Text) : Except Fault (SectionKeyword × Text) :=
  match start with
  | '%' :: t =>
    match reference? t with
    | some (name, left) => .ok (.reference name, left)
    | none => .error .malformedReference
  | _ => .ok (.literal (nameOrEmpty start).1, (nameOrEmpty start).2)

theorem readKeyword_cons (hd : d ≠ '%') (t : Text) :
    readKeyword (d :: t) =
      .ok (.literal (nameOrEmpty (d :: t)).1, (nameOrEmpty (d :: t)).2) := by
  unfold readKeyword
  split
  · next heq => exact absurd (List.cons.inj heq).1 hd
  · rfl

theorem readSectionStart_eq (start : Text) :
    readSectionStart start = match readKeyword start with
    | .ok (keyword, left) => .ok (sectionStart keyword start, left)
    | .error fault => .error ⟨fault, start⟩ := by
  rcases start with - | ⟨d, t⟩
  · rfl
  · by_cases hd : d = '%'
    · subst hd
      simp only [readSectionStart, readKeyword]
      cases reference? t <;> rfl
    · rw [readSectionStart_cons hd, readKeyword_cons hd]

end Item

def byOffset {α ε : Type} (text : Text) (read : Except ε (α × Text)) : Except ε (α × Nat) :=
  read.map fun p => (p.1, offset text p.2)

theorem offset_behind {opening inside closing : Text}
    (h : opening ++ (inside ++ (closing ++ left)) <:+ text) :
    offset text left =
      offset text (opening ++ (inside ++ (closing ++ left))) + Text.size opening +
      Text.size inside + Text.size closing := by
  have hinside := (List.suffix_append opening _).trans h
  have hclosing := (List.suffix_append inside _).trans hinside
  rw [Text.offset_append hclosing, Text.offset_append hinside, Text.offset_append h]

theorem commentAt_offset (h : rest <:+ text) (hbehind : rest.from? 4 = some behind) :
    commentAt text (offset text rest) = some (byOffset text (Item.readComment behind)) := by
  obtain ⟨opening, rfl, hopening⟩ := Text.exists_of_from? hbehind
  rw [commentAt, Text.from?_offset_add h, hbehind, Item.readComment]
  simp only [Option.bind_eq_bind, Option.bind_some, Text.find?_eq]
  cases hbreak : Text.breakAt? "-->" behind with
  | none => rfl
  | some p =>
      obtain ⟨comment, left⟩ := p
      have hbody : behind = comment ++ ("-->".toList ++ left) :=
        (Text.breakAt?_eq_some hbreak).trans (List.append_assoc _ _ _)
      have hcomment : behind.upTo? (Text.size comment) = some comment :=
        hbody ▸ Text.upTo?_size comment _
      have hpos := offset_behind (hbody ▸ h)
      rw [← hbody, hopening] at hpos
      simp only [Option.map_some, hcomment]
      exact congrArg (fun n => some (Except.ok (Item.comment comment, n))) hpos.symm

theorem instructionAt_offset (h : rest <:+ text) (hbehind : rest.from? 2 = some behind) :
    instructionAt text (offset text rest) =
      some (byOffset text (Item.readInstruction behind)) := by
  obtain ⟨opening, rfl, hopening⟩ := Text.exists_of_from? hbehind
  rw [instructionAt, Text.from?_offset h, Item.readInstruction]
  simp only [Option.bind_eq_bind, Option.bind_some, hbehind, Text.find?_eq]
  cases hbreak : Text.breakAt? "?>" behind with
  | none => rfl
  | some p =>
      obtain ⟨inside, left⟩ := p
      have hbody : behind = inside ++ ("?>".toList ++ left) :=
        (Text.breakAt?_eq_some hbreak).trans (List.append_assoc _ _ _)
      have hinside : (opening ++ behind).between? 2 (Text.size inside + 2) = some inside := by
        rw [Text.between?, if_pos (Nat.le_add_left 2 _), hbehind, Nat.add_sub_cancel, hbody]
        exact Text.upTo?_size inside _
      have hname := nameAt_offset (List.suffix_refl inside)
      rw [Text.offset_self] at hname
      simp only [Option.map_some, hinside, Option.bind_some, hname, Item.ofInstruction]
      rcases hread : Text.name? inside with - | ⟨target, data⟩
      · rfl
      · have hdata : data <:+ inside := ⟨target, (Text.name?_eq_some hread).1.symm⟩
        have hpos := offset_behind (hbody ▸ h)
        rw [← hbody, hopening] at hpos
        simp only [Option.map_some, passBlanksAt_offset hdata, Option.bind_some,
          Text.from?_offset ((Text.skipBlanks_suffix data).trans hdata)]
        refine congrArg (fun n => some (Except.ok (_, n))) ?_
        have hending : Text.size "?>".toList = 2 := by decide
        rw [hpos, hending]
        omega

theorem wordAt_eq (t : Text) :
    wordAt t = some ((nameOrEmpty t).1, offset t (nameOrEmpty t).2) := by
  have hname := nameAt_offset (List.suffix_refl t)
  rw [Text.offset_self] at hname
  rw [wordAt, hname, nameOrEmpty]
  cases Text.name? t with
  | none => exact congrArg (fun n => some ([], n)) (Text.offset_self t).symm
  | some p => rfl

theorem nameOrEmpty_suffix (t : Text) : (nameOrEmpty t).2 <:+ t :=
  ⟨_, nameOrEmpty_append t⟩

theorem declarationAt_offset {body : Text} (h : '<' :: '!' :: body <:+ text) :
    declarationAt text (offset text ('<' :: '!' :: body)) =
      some (byOffset text (Item.readDeclaration body)) := by
  have hend : declaration? ('<' :: '!' :: body) = (declaration? body).map fun p =>
      ('<' :: '!' :: p.1, p.2) :=
    declarationFrom?_eq none ['!', '<'] body
  rw [declarationAt, declarationEndAt_offset h, hend, Item.readDeclaration]
  cases hread : declaration? body with
  | none => rfl
  | some p =>
      obtain ⟨inside, left⟩ := p
      obtain rfl : body = inside ++ '>' :: left := declarationFrom?_eq_some hread
      have hbody : inside ++ '>' :: left <:+ text := (List.suffix_append ['<', '!'] _).trans h
      have hleft : '>' :: left <:+ text := (List.suffix_append _ _).trans hbody
      have hstart : offset text ('<' :: '!' :: (inside ++ '>' :: left)) + 2 =
          offset text (inside ++ '>' :: left) := by
        have hmark : ['<', '!'] ++ (inside ++ '>' :: left) <:+ text := h
        exact (Text.offset_append hmark).symm
      have hstop : offset text ('>' :: left) + 1 = offset text left :=
        (Text.offset_cons hleft).symm
      simp only [Option.map_some, Option.bind_eq_bind, Option.bind_some, hstart,
        Text.between?_offset hbody, wordAt_eq,
        Text.from?_offset (nameOrEmpty_suffix inside), hstop, Item.ofDeclaration]
      cases DeclarationKind.ofKeyword? (nameOrEmpty inside).1 <;> rfl

theorem referringAt_offset (h : rest <:+ text) (hbehind : rest.from? 1 = some behind) :
    referringAt text (offset text rest) =
      some (byOffset text (Item.readReference behind)) := by
  rw [referringAt, referenceAt_offset h, hbehind, Item.readReference]
  simp only [Option.bind_eq_bind, Option.bind_some]
  cases reference? behind <;> rfl

theorem keywordAt_offset (h : start <:+ text) :
    keywordAt text (offset text start) = some (byOffset text (Item.readKeyword start)) := by
  rw [keywordAt, Text.from?_offset h]
  simp only [Option.bind_eq_bind, Option.bind_some]
  split
  · next t =>
    have hone : Text.from? ('%' :: t) 1 = some t := Text.from?_size ['%'] t
    simp only [referenceAt_offset h, hone, Option.bind_some, Item.readKeyword]
    cases reference? t <;> rfl
  · next hstart =>
    have hkeyword : Item.readKeyword start =
        .ok (.literal (nameOrEmpty start).1, (nameOrEmpty start).2) := by
      rcases start with - | ⟨d, t⟩
      · rfl
      · exact Item.readKeyword_cons (fun hd => hstart t (hd ▸ rfl)) t
    rw [wordAt_eq, hkeyword]
    exact congrArg (fun n =>
      some (Except.ok (SectionKeyword.literal (nameOrEmpty start).1, n)))
      (Text.offset_trans h (nameOrEmpty_suffix start)).symm

def Failure.byOffset (text : Text) (f : Failure) : Fault × Nat :=
  (f.fault, offset text f.rest)

theorem openSection_of_ne {item start keyword : Text}
    (h : ∀ body, Text.skipBlanks left ≠ '[' :: body) :
    openSection item start keyword left =
      .error ⟨.sectionBracketMissing, Text.skipBlanks left⟩ := by
  unfold openSection
  split
  · next body hbody => exact absurd hbody (h body)
  · rfl

theorem openSectionAt_offset (h : left <:+ text) (item start keyword : Text) :
    openSectionAt text (offset text item) (offset text start) keyword (offset text left) =
      some ((byOffset text (openSection item start keyword left)).mapError
        (Failure.byOffset text)) := by
  have hopening : Text.skipBlanks left <:+ text := (Text.skipBlanks_suffix left).trans h
  rw [openSectionAt, skipBlanksAt_offset h]
  simp only [Option.bind_eq_bind, Option.bind_some, Text.from?_offset hopening]
  split
  · next body hbracket =>
    rw [hbracket] at hopening ⊢
    have hbody : body <:+ text := (List.suffix_cons _ body).trans hopening
    have hone : offset text ('[' :: body) + 1 = offset text body :=
      (Text.offset_cons hopening).symm
    rw [openSection, hbracket]
    simp only [hone, skipIgnoredAt_offset hbody, Option.bind_some]
    cases SectionKind.ofKeyword? keyword with
    | none => rfl
    | some kind =>
        cases kind with
        | included => rfl
        | ignored => cases skipIgnored 0 body <;> rfl
  · next hbracket =>
    rw [openSection_of_ne hbracket]
    rfl

theorem openSection_suffix {item start keyword : Text} {kind : SectionKind}
    (h : openSection item start keyword rest = .ok (kind, left)) : left <:+ rest := by
  obtain ⟨-, body, hbody, hleft⟩ := openSection_eq_ok_iff.1 h
  have hrest : body <:+ rest := by
    refine (List.suffix_cons '[' body).trans ?_
    rw [← hbody]
    exact Text.skipBlanks_suffix rest
  cases kind with
  | included =>
      cases hleft
      exact hrest
  | ignored => exact (skipIgnored_suffix hleft).trans hrest

theorem openSection_eq_error {item start keyword : Text} {f : Failure}
    (h : openSection item start keyword left = .error f) :
    f.rest = item ∨ f.rest = start ∨ f.rest = Text.skipBlanks left := by
  unfold openSection at h
  split at h
  · split at h
    · cases h
    · split at h <;> cases h
      exact .inl rfl
    · cases h
      exact .inr (.inl rfl)
  · cases h
    exact .inr (.inr rfl)

theorem offset_skipBlanks_eq_iff (h : t <:+ text) :
    offset text (Text.skipBlanks t) = offset text t ↔ Text.startsBlank t = false := by
  rcases t with - | ⟨d, t⟩
  · exact iff_of_true rfl rfl
  · rw [Text.skipBlanks, List.dropWhile_cons, Text.startsBlank]
    cases hd : isBlank d with
    | false => exact iff_of_true rfl rfl
    | true =>
        have hleft : t.dropWhile isBlank <:+ t := List.dropWhile_suffix _
        have hlt := Text.offset_lt h (hleft.trans (List.suffix_cons d t))
          (Nat.lt_succ_of_le hleft.length_le)
        exact iff_of_false (Nat.ne_of_gt hlt) (by simp)

theorem scopeAt_offset {body : Text} (h : rest <:+ body) :
    scopeAt body (offset body rest) = some (byOffset body (readScope rest)) := by
  rw [scopeAt, Text.from?_offset h]
  simp only [Option.bind_eq_bind, Option.bind_some]
  split
  · next t =>
    have ht : t <:+ body := (List.suffix_cons _ _).trans h
    have hone : offset body ('%' :: t) + 1 = offset body t := (Text.offset_cons h).symm
    simp only [hone, passBlanksAt_offset ht, readScope, Option.bind_some]
    simp only [offset_skipBlanks_eq_iff ht]
    cases Text.startsBlank t <;> rfl
  · next hrest =>
    have hscope : readScope rest = .ok (.general, rest) := by
      unfold readScope
      split
      · next t => exact absurd rfl (hrest t)
      · rfl
    rw [hscope]
    rfl

theorem namedAt_offset {body : Text} (h : rest <:+ body) (kind : DeclarationKind)
    (scope : Scope) :
    namedAt kind body scope (offset body rest) = some (match Text.name? rest with
      | some (name, left) => .ok (kind.event scope name (Text.trim left))
      | none => .error (.unnamed kind)) := by
  rw [namedAt, nameAt_offset h]
  cases hread : Text.name? rest with
  | none => rfl
  | some p =>
      have hleft : p.2 <:+ rest := ⟨p.1, (Text.name?_eq_some hread).1.symm⟩
      simp only [Option.map_some, Option.bind_eq_bind, Option.bind_some,
        Text.from?_offset (hleft.trans h)]
      rfl

theorem eventAt_eq (kind : DeclarationKind) (body : Text) :
    eventAt kind body = some (kind.read body) := by
  have hstart := passBlanksAt_offset (List.suffix_refl body)
  have hblanks : Text.skipBlanks body <:+ body := Text.skipBlanks_suffix body
  rw [Text.offset_self] at hstart
  rw [eventAt, hstart, DeclarationKind.read]
  simp only [Option.bind_eq_bind, Option.bind_some]
  split
  · rw [scopeAt_offset hblanks]
    cases hread : readScope (Text.skipBlanks body) with
    | error fault => rfl
    | ok p => exact namedAt_offset ((readScope_suffix hread).trans hblanks) kind p.1
  · exact namedAt_offset hblanks kind .general

end Doctype.Markup
