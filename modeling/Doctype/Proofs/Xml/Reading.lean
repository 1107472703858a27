import Doctype.Proofs.Text.Encoding
import Doctype.Proofs.Xml.Layout

/-!
Reading tags back from their written form. A tag can be told from the front of a text
(`Tag.print_append_inj`), since neither names nor escaped text hold what ends them. Line breaks
and the text of an element look alike, so tags can only be told from a whole document in which
it is known which elements hold text: in such a document the text determines the tags
(`Regular.render_inj`).
-/

namespace Doctype.Xml

variable {s t : Text}

/-! ### Escaped text -/

theorem determines_escapeChar : Determines escapeChar id := by
  intro a b s t h
  unfold escapeChar at h
  split at h <;> split at h <;> simp_all <;> exact absurd h.1.symm ‹_›

theorem escapeChar_ne_nil (c : Char) : escapeChar c ≠ [] := by
  unfold escapeChar
  split <;> simp

theorem escape_injective : Function.Injective escape := by
  intro s t h
  simpa using determines_escapeChar.flatMap_eq escapeChar_ne_nil s t h

theorem ne_of_mem_escape {c : Char} (h : c ∈ escape t) : c ≠ '<' ∧ c ≠ '"' := by
  obtain ⟨d, -, hc⟩ := List.mem_flatMap.1 h
  unfold escapeChar at hc
  split at hc
  case h_6 => simp_all
  all_goals
    constructor <;> rintro rfl <;> revert hc <;> decide

/-! ### Names and attributes -/

def isTagChar (c : Char) : Bool :=
  c.isAlpha || c = '-'

def isTagName (n : Text) : Bool :=
  !n.isEmpty && n.all isTagChar

theorem isTagChar_of_mem {n : Text} (h : isTagName n = true) :
    ∀ c ∈ n, isTagChar c = true := by
  simp only [isTagName, Bool.and_eq_true, List.all_eq_true] at h
  exact h.2

theorem exists_cons_of_isTagName {n : Text} (h : isTagName n = true) :
    ∃ c m, n = c :: m ∧ isTagChar c = true := by
  cases n with
  | nil => simp [isTagName] at h
  | cons c m => exact ⟨c, m, rfl, isTagChar_of_mem h c (by simp)⟩

def areNamed (attributes : List (Text × Text)) : Bool :=
  attributes.all fun a => isTagName a.1

/-- Attributes can be told from what follows them, if it is no further one. -/
theorem attributes_append_inj {as bs : List (Text × Text)} {c d : Char}
    (ha : areNamed as = true) (hb : areNamed bs = true) (hc : c ≠ ' ') (hd : d ≠ ' ')
    (h : as.flatMap printAttribute ++ c :: s = bs.flatMap printAttribute ++ d :: t) :
    as = bs ∧ c :: s = d :: t := by
  induction as generalizing bs with
  | nil =>
      cases bs with
      | nil => exact ⟨rfl, h⟩
      | cons b bs => exact absurd (List.cons.inj h).1 hc
  | cons a as ih =>
      cases bs with
      | nil => exact absurd (List.cons.inj h).1.symm hd
      | cons b bs =>
          obtain ⟨n, v⟩ := a
          obtain ⟨m, w⟩ := b
          obtain ⟨hn, has⟩ : isTagName n = true ∧ areNamed as = true := by
            simpa [areNamed] using ha
          obtain ⟨hm, hbs⟩ : isTagName m = true ∧ areNamed bs = true := by
            simpa [areNamed] using hb
          have hquote : "=\"".toList = ['=', '"'] := rfl
          simp only [List.flatMap_cons, printAttribute, hquote, List.append_assoc,
            List.cons_append, List.nil_append, List.cons.injEq, true_and] at h
          -- the name ends at the sign of equality, and the value at the quotation mark
          obtain ⟨rfl, hvalue⟩ := Text.append_inj_of_class isTagChar (isTagChar_of_mem hn)
            (isTagChar_of_mem hm) (by decide) (by decide) h
          simp only [List.cons.injEq, true_and] at hvalue
          obtain ⟨hv, hrest⟩ := Text.append_inj_of_class (· != '"')
            (fun x hx => by simpa using (ne_of_mem_escape hx).2)
            (fun x hx => by simpa using (ne_of_mem_escape hx).2) (by decide) (by decide) hvalue
          obtain rfl := escape_injective hv
          obtain ⟨rfl, hleft⟩ := ih has hbs (List.cons.inj hrest).2
          exact ⟨rfl, hleft⟩

theorem opening_append_inj {m n : Text} {as bs : List (Text × Text)} {c d : Char}
    (hm : isTagName m = true) (hn : isTagName n = true) (ha : areNamed as = true)
    (hb : areNamed bs = true) (hc : c = '>' ∨ c = '/') (hd : d = '>' ∨ d = '/')
    (h : m ++ (as.flatMap printAttribute ++ c :: s) =
      n ++ (bs.flatMap printAttribute ++ d :: t)) :
    m = n ∧ as = bs ∧ c :: s = d :: t := by
  -- what follows the name is the space in front of an attribute, or the end
  have hends (as : List (Text × Text)) {c : Char} (s : Text) (hc : c = '>' ∨ c = '/') :
      ∃ x u, as.flatMap printAttribute ++ c :: s = x :: u ∧ isTagChar x = false := by
    cases as with
    | nil => exact ⟨c, s, rfl, by rcases hc with rfl | rfl <;> decide⟩
    | cons a as => exact ⟨' ', _, rfl, by decide⟩
  obtain ⟨x, u, hxu, hx⟩ := hends as s hc
  obtain ⟨y, v, hyv, hy⟩ := hends bs t hd
  rw [hxu, hyv] at h
  obtain ⟨hname, h⟩ :=
    Text.append_inj_of_class isTagChar (isTagChar_of_mem hm) (isTagChar_of_mem hn) hx hy h
  rw [← hxu, ← hyv] at h
  exact ⟨hname, attributes_append_inj ha hb (by rcases hc with rfl | rfl <;> decide)
    (by rcases hd with rfl | rfl <;> decide) h⟩

/-! ### Tags -/

/-- Whether a tag is well named; text is no tag of its own. -/
def Tag.isNamed : Tag → Bool
  | declaration => true
  | start name attributes => isTagName name && areNamed attributes
  | empty name attributes => isTagName name && areNamed attributes
  | close name => isTagName name
  | text _ => false

theorem Tag.print_start_append (n : Text) (as : List (Text × Text)) (s : Text) :
    (start n as).print ++ s = '<' :: (n ++ (as.flatMap printAttribute ++ '>' :: s)) := by
  have hprint : (start n as).print = '<' :: n ++ as.flatMap printAttribute ++ ['>'] := rfl
  rw [hprint]
  simp only [List.append_assoc, List.cons_append, List.nil_append]

theorem Tag.print_empty_append (n : Text) (as : List (Text × Text)) (s : Text) :
    (empty n as).print ++ s =
      '<' :: (n ++ (as.flatMap printAttribute ++ '/' :: '>' :: s)) := by
  have hprint : (empty n as).print = '<' :: n ++ as.flatMap printAttribute ++ ['/', '>'] := rfl
  rw [hprint]
  simp only [List.append_assoc, List.cons_append, List.nil_append]

theorem Tag.print_close_append (n s : Text) :
    (close n).print ++ s = '<' :: '/' :: (n ++ '>' :: s) := by
  have hprint : (close n).print = '<' :: '/' :: n ++ ['>'] := rfl
  rw [hprint]
  simp only [List.append_assoc, List.cons_append, List.nil_append]

inductive Shape
  | declaration
  | opening
  | closing
  deriving DecidableEq

def Shape.ofChar (c : Char) : Shape :=
  if c = '?' then declaration else if c = '/' then closing else opening

def Tag.shape : Tag → Shape
  | declaration => .declaration
  | close _ => .closing
  | _ => .opening

theorem Tag.exists_print_append {a : Tag} (ha : a.isNamed = true) (s : Text) :
    ∃ c u, a.print ++ s = '<' :: c :: u ∧ Shape.ofChar c = a.shape := by
  have hname {c : Char} (hc : isTagChar c = true) : Shape.ofChar c = .opening := by
    unfold Shape.ofChar
    rw [if_neg (by rintro rfl; revert hc; decide), if_neg (by rintro rfl; revert hc; decide)]
  cases a with
  | declaration => exact ⟨'?', _, rfl, rfl⟩
  | start n as =>
      obtain ⟨hn, -⟩ : isTagName n = true ∧ areNamed as = true := by simpa [isNamed] using ha
      obtain ⟨c, m, rfl, hc⟩ := exists_cons_of_isTagName hn
      exact ⟨c, _, print_start_append _ as s, hname hc⟩
  | empty n as =>
      obtain ⟨hn, -⟩ : isTagName n = true ∧ areNamed as = true := by simpa [isNamed] using ha
      obtain ⟨c, m, rfl, hc⟩ := exists_cons_of_isTagName hn
      exact ⟨c, _, print_empty_append _ as s, hname hc⟩
  | close n => exact ⟨'/', _, print_close_append n s, rfl⟩
  | text _ => cases ha

theorem Tag.print_opening_inj {a b : Tag} (ha : a.isNamed = true) (hb : b.isNamed = true)
    (hopening : a.shape = .opening ∧ b.shape = .opening) (h : a.print ++ s = b.print ++ t) :
    a = b ∧ s = t := by
  have hnamed {m : Text} {as : List (Text × Text)} (h : (isTagName m && areNamed as) = true) :
      isTagName m = true ∧ areNamed as = true := by simpa using h
  obtain ⟨hashape, hbshape⟩ := hopening
  cases a with
  | start m as =>
      obtain ⟨hm, has⟩ := hnamed ha
      cases b with
      | start n bs =>
          obtain ⟨hn, hbs⟩ := hnamed hb
          rw [print_start_append, print_start_append] at h
          obtain ⟨rfl, rfl, hrest⟩ :=
            opening_append_inj hm hn has hbs (.inl rfl) (.inl rfl) (List.cons.inj h).2
          exact ⟨rfl, (List.cons.inj hrest).2⟩
      | empty n bs =>
          obtain ⟨hn, hbs⟩ := hnamed hb
          rw [print_start_append, print_empty_append] at h
          obtain ⟨-, -, hrest⟩ :=
            opening_append_inj hm hn has hbs (.inl rfl) (.inr rfl) (List.cons.inj h).2
          exact absurd (List.cons.inj hrest).1 (by decide)
      | text _ => cases hb
      | _ => cases hbshape
  | empty m as =>
      obtain ⟨hm, has⟩ := hnamed ha
      cases b with
      | start n bs =>
          obtain ⟨hn, hbs⟩ := hnamed hb
          rw [print_empty_append, print_start_append] at h
          obtain ⟨-, -, hrest⟩ :=
            opening_append_inj hm hn has hbs (.inr rfl) (.inl rfl) (List.cons.inj h).2
          exact absurd (List.cons.inj hrest).1 (by decide)
      | empty n bs =>
          obtain ⟨hn, hbs⟩ := hnamed hb
          rw [print_empty_append, print_empty_append] at h
          obtain ⟨rfl, rfl, hrest⟩ :=
            opening_append_inj hm hn has hbs (.inr rfl) (.inr rfl) (List.cons.inj h).2
          exact ⟨rfl, (List.cons.inj (List.cons.inj hrest).2).2⟩
      | text _ => cases hb
      | _ => cases hbshape
  | text _ => cases ha
  | _ => cases hashape

/-- A well-named tag can be told from what follows it. -/
theorem Tag.print_append_inj {a b : Tag} (ha : a.isNamed = true) (hb : b.isNamed = true)
    (h : a.print ++ s = b.print ++ t) : a = b ∧ s = t := by
  have hshape : a.shape = b.shape := by
    obtain ⟨c, u, hau, hc⟩ := exists_print_append ha s
    obtain ⟨d, v, hbv, hd⟩ := exists_print_append hb t
    rw [hau, hbv] at h
    obtain ⟨rfl, -⟩ := List.cons.inj (List.cons.inj h).2
    rw [← hc, hd]
  cases a with
  | text _ => cases ha
  | declaration =>
      cases b with
      | declaration => exact ⟨rfl, List.append_cancel_left h⟩
      | text _ => cases hb
      | _ => cases hshape
  | close m =>
      cases b with
      | close n =>
          rw [print_close_append, print_close_append] at h
          obtain ⟨rfl, hrest⟩ := Text.append_inj_of_class isTagChar (isTagChar_of_mem ha)
            (isTagChar_of_mem hb) (by decide) (by decide) (List.cons.inj (List.cons.inj h).2).2
          exact ⟨rfl, (List.cons.inj hrest).2⟩
      | text _ => cases hb
      | _ => cases hshape
  | start m as => exact print_opening_inj ha hb ⟨rfl, hshape.symm⟩ h
  | empty m as => exact print_opening_inj ha hb ⟨rfl, hshape.symm⟩ h

/-! ### Documents -/

/-- Lists of tags in which the elements that hold text, and only these, are told by `holdsText`
from their name and attributes: such an element is its start, one text and its end, and there
is no other text. -/
inductive Regular (holdsText : Text → List (Text × Text) → Bool) : List Tag → Prop
  | nil : Regular holdsText []
  | start {name : Text} {attributes : List (Text × Text)} {tags : List Tag} :
      (Tag.start name attributes).isNamed = true → holdsText name attributes = false →
        Regular holdsText tags → Regular holdsText (.start name attributes :: tags)
  | element {name : Text} {attributes : List (Text × Text)} {u : Text} {tags : List Tag} :
      (Tag.start name attributes).isNamed = true → holdsText name attributes = true →
        Regular holdsText tags → Regular holdsText (Tag.element name attributes u ++ tags)
  | other {tag : Tag} {tags : List Tag} :
      tag.isNamed = true → (∀ name attributes, tag ≠ .start name attributes) →
        Regular holdsText tags → Regular holdsText (tag :: tags)

namespace Regular

variable {holdsText : Text → List (Text × Text) → Bool} {tags tags' : List Tag}

theorem append (h : Regular holdsText tags) (h' : Regular holdsText tags') :
    Regular holdsText (tags ++ tags') := by
  induction h with
  | nil => exact h'
  | start hname htext _ ih => exact .start hname htext ih
  | element hname htext _ ih =>
      rw [List.append_assoc]
      exact .element hname htext ih
  | other hname hstart _ ih => exact .other hname hstart ih

end Regular

theorem Layout.ne_of_mem_lineBreak (l : Layout) : ∀ c ∈ l.lineBreak, c ≠ '<' := by
  intro c hc
  unfold lineBreak at hc
  split at hc
  · rcases List.mem_cons.1 hc with rfl | hc
    · decide
    · rw [List.eq_of_mem_replicate hc]
      decide
  · cases hc

theorem Layout.exists_place {a : Tag} (ha : a.isNamed = true) (l : Layout) :
    ∃ w : Text, (∀ c ∈ w, c ≠ '<') ∧ (l.place a).1 = w ++ a.print := by
  cases a with
  | text _ => cases ha
  | close n => exact ⟨_, ne_of_mem_lineBreak _, rfl⟩
  | _ => exact ⟨_, ne_of_mem_lineBreak _, rfl⟩

theorem Layout.place_append_inj {a b : Tag} (ha : a.isNamed = true) (hb : b.isNamed = true)
    (l : Layout) (h : (l.place a).1 ++ s = (l.place b).1 ++ t) : a = b ∧ s = t := by
  obtain ⟨v, hv, hva⟩ := exists_place ha l
  obtain ⟨w, hw, hwb⟩ := exists_place hb l
  obtain ⟨c, x, hax, -⟩ := Tag.exists_print_append ha s
  obtain ⟨d, y, hby, -⟩ := Tag.exists_print_append hb t
  rw [hva, hwb, List.append_assoc, List.append_assoc, hax, hby] at h
  obtain ⟨-, hrest⟩ := Text.append_inj_of_class (· != '<') (fun c hc => by simpa using hv c hc)
    (fun c hc => by simpa using hw c hc) (by decide) (by decide) h
  rw [← hax, ← hby] at hrest
  exact Tag.print_append_inj ha hb hrest

theorem render_ne_nil {a : Tag} (ha : a.isNamed = true) (l : Layout) (tags : List Tag) :
    render l (a :: tags) ≠ [] := by
  obtain ⟨w, -, hw⟩ := Layout.exists_place ha l
  obtain ⟨c, u, hu, -⟩ := Tag.exists_print_append ha []
  rw [render_cons, hw]
  rw [List.append_nil] at hu
  simp [hu]

theorem render_element (l : Layout) (name : Text) (attributes : List (Text × Text)) (u : Text)
    (tags : List Tag) : render l (Tag.element name attributes u ++ tags) =
      (l.place (.start name attributes)).1 ++
        (escape u ++ ((Tag.close name).print ++ render ⟨l.depth, true⟩ tags)) := rfl

theorem escape_append_inj {u v m n : Text}
    (h : escape u ++ ((Tag.close m).print ++ s) = escape v ++ ((Tag.close n).print ++ t)) :
    u = v ∧ (Tag.close m).print ++ s = (Tag.close n).print ++ t := by
  rw [Tag.print_close_append, Tag.print_close_append] at h
  obtain ⟨huv, hrest⟩ := Text.append_inj_of_class (· != '<')
    (fun c hc => by simpa using (ne_of_mem_escape hc).1)
    (fun c hc => by simpa using (ne_of_mem_escape hc).1) (by decide) (by decide) h
  rw [Tag.print_close_append, Tag.print_close_append]
  exact ⟨escape_injective huv, hrest⟩

/-- If it is known which elements hold text, the written form determines the tags. -/
theorem Regular.render_inj {holdsText : Text → List (Text × Text) → Bool}
    {tags tags' : List Tag} (h : Regular holdsText tags) (h' : Regular holdsText tags')
    (l : Layout) (heq : render l tags = render l tags') : tags = tags' := by
  induction h generalizing tags' l with
  | nil =>
      cases h' with
      | nil => rfl
      | start hname _ _ => exact absurd heq.symm (render_ne_nil hname l _)
      | element hname _ _ => exact absurd heq.symm (render_ne_nil hname l _)
      | other hname _ _ => exact absurd heq.symm (render_ne_nil hname l _)
  -- the first tags are the same, and so both lists go on with a text or both do not
  | start hname htext _ ih =>
      cases h' with
      | nil => exact absurd heq (render_ne_nil hname l _)
      | start hname' _ h' =>
          obtain ⟨htag, hrest⟩ := l.place_append_inj hname hname' heq
          cases htag
          rw [ih h' _ hrest]
      | element hname' htext' _ =>
          obtain ⟨htag, -⟩ := l.place_append_inj hname hname' heq
          cases htag
          rw [htext] at htext'
          cases htext'
      | other hname' hstart _ =>
          obtain ⟨htag, -⟩ := l.place_append_inj hname hname' heq
          exact absurd htag.symm (hstart _ _)
  | element hname htext _ ih =>
      cases h' with
      | nil => exact absurd heq (render_ne_nil hname l _)
      | start hname' htext' _ =>
          obtain ⟨htag, -⟩ := l.place_append_inj hname hname' heq
          cases htag
          rw [htext] at htext'
          cases htext'
      | element hname' _ h' =>
          rw [render_element, render_element] at heq
          obtain ⟨htag, hrest⟩ := l.place_append_inj hname hname' heq
          cases htag
          obtain ⟨rfl, hleft⟩ := escape_append_inj hrest
          rw [ih h' _ (List.append_cancel_left hleft)]
      | other hname' hstart _ =>
          obtain ⟨htag, -⟩ := l.place_append_inj hname hname' heq
          exact absurd htag.symm (hstart _ _)
  | other hname hstart _ ih =>
      cases h' with
      | nil => exact absurd heq (render_ne_nil hname l _)
      | start hname' _ _ =>
          obtain ⟨htag, -⟩ := l.place_append_inj hname hname' heq
          exact absurd htag (hstart _ _)
      | element hname' _ _ =>
          obtain ⟨htag, -⟩ := l.place_append_inj hname hname' heq
          exact absurd htag (hstart _ _)
      | other hname' _ h' =>
          obtain ⟨rfl, hrest⟩ := l.place_append_inj hname hname' heq
          rw [ih h' _ hrest]

end Doctype.Xml
