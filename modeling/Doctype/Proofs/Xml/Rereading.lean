import Doctype.Proofs.Text.Mark
import Doctype.Proofs.Xml.Reader
import Doctype.Proofs.Xml.Reading

/-!
What the reader makes of written tags. Line ends are made plain within values and texts, since
nothing else in a tag ends a line (`normalizeLineEndings_tag`). A tag is then read back
with its values as they are read between quotation marks (`Reader.item?_print`), and an escaped
text as it is (`Reader.content?_escape`).
-/

namespace Doctype.Xml

open Text (normalizeLineEndings)

variable {t u v name : Text} {attributes : List (Text × Text)} {c : Char}

/-! ### Line ends -/

theorem escape_cons (c : Char) (t : Text) : escape (c :: t) = escapeChar c ++ escape t := rfl

theorem return_notMem_escapeChar (hc : c ≠ '\r') : '\r' ∉ escapeChar c := by
  unfold escapeChar
  split
  · decide
  · decide
  · decide
  · decide
  · decide
  · simpa using Ne.symm hc

theorem head?_escape_ne_lineFeed (ht : ∀ u, t ≠ '\n' :: u) : ∀ u, escape t ≠ '\n' :: u := by
  cases t with
  | nil => exact ht
  | cons c t =>
      intro u heq
      rw [escape_cons] at heq
      unfold escapeChar at heq
      split at heq
      case h_6 =>
        cases heq
        exact ht t rfl
      all_goals cases heq

theorem normalizeLineEndings_escape (t : Text) :
    normalizeLineEndings (escape t) = escape (normalizeLineEndings t) := by
  induction t using Text.lineEnds_induction with
  | nil => rfl
  | pair t ih =>
      rw [Text.normalizeLineEndings_pair]
      exact (Text.normalizeLineEndings_pair (escape t)).trans (congrArg ('\n' :: ·) ih)
  | alone t hnext ih =>
      have hescaped := head?_escape_ne_lineFeed hnext
      rw [Text.normalizeLineEndings_return hnext]
      exact (Text.normalizeLineEndings_return hescaped).trans (congrArg ('\n' :: ·) ih)
  | cons c t hreturn ih =>
      rw [Text.normalizeLineEndings_cons hreturn, escape_cons, escape_cons, ← ih]
      exact Text.normalizeLineEndings_append_of_notMem
        (return_notMem_escapeChar hreturn) (escape t)

theorem normalizeLineEndings_escape_append (t : Text) (hc : c ≠ '\n') (hreturn : c ≠ '\r')
    (u : Text) :
    normalizeLineEndings (escape t ++ c :: u) =
      escape (normalizeLineEndings t) ++ c :: normalizeLineEndings u := by
  have hnext : ∀ w, c :: u ≠ '\n' :: w := fun w h => hc (List.cons.inj h).1
  rw [Text.normalizeLineEndings_append _ hnext, normalizeLineEndings_escape,
    Text.normalizeLineEndings_cons hreturn]

/-! ### Well-formed tags -/

/-- Whether a tag may have a name and attributes: all names are names of XML, and no two
attributes have the same. -/
def isOpening (name : Text) (attributes : List (Text × Text)) : Bool :=
  Text.isName name && attributes.all (fun a => Text.isName a.1) &&
    decide (attributes.map Prod.fst).Nodup

theorem isOpening_iff : isOpening name attributes = true ↔ Text.isName name = true ∧
    (∀ a ∈ attributes, Text.isName a.1 = true) ∧ (attributes.map Prod.fst).Nodup := by
  simp only [isOpening, Bool.and_eq_true, List.all_eq_true, decide_eq_true_eq, and_assoc]

def withValues (f : Text → Text) (attributes : List (Text × Text)) : List (Text × Text) :=
  attributes.map fun a => (a.1, f a.2)

@[simp] theorem map_fst_withValues (f : Text → Text) (attributes : List (Text × Text)) :
    (withValues f attributes).map Prod.fst = attributes.map Prod.fst := by
  simp [withValues]

theorem return_notMem_name (hname : Text.isName name = true) : '\r' ∉ name := by
  intro hmem
  have hblank := isBlank_eq_false_of_mem_name hname hmem
  revert hblank
  decide

/-- Line ends within attributes are made plain in their values. -/
theorem normalizeLineEndings_attributes (hnames : ∀ a ∈ attributes, Text.isName a.1 = true)
    (hc : c ≠ '\r') (t : Text) :
    normalizeLineEndings (attributes.flatMap printAttribute ++ c :: t) =
        (withValues normalizeLineEndings attributes).flatMap printAttribute ++
          c :: normalizeLineEndings t := by
  induction attributes with
  | nil => exact Text.normalizeLineEndings_cons hc t
  | cons a attributes ih =>
      obtain ⟨name, value⟩ := a
      have hname : '\r' ∉ ' ' :: name ++ "=\"".toList := by
        simpa using return_notMem_name (hnames _ List.mem_cons_self)
      have hrest := ih fun a ha => hnames a (List.mem_cons_of_mem _ ha)
      -- the name, the value up to its quotation mark, and the other attributes
      have hsplit (value : Text) (rest : Text) : printAttribute (name, value) ++ rest =
          (' ' :: name ++ "=\"".toList) ++ (escape value ++ '"' :: rest) := by
        simp [printAttribute]
      rw [withValues, List.map_cons, List.flatMap_cons, List.flatMap_cons, List.append_assoc,
        List.append_assoc, hsplit, hsplit, Text.normalizeLineEndings_append_of_notMem hname,
        normalizeLineEndings_escape_append value (by decide) (by decide), hrest]
      rfl

theorem normalizeLineEndings_opening (hname : isOpening name attributes = true)
    (hc : c ≠ '\r') (t : Text) :
    normalizeLineEndings (name ++ (attributes.flatMap printAttribute ++ c :: t)) =
      name ++ ((withValues normalizeLineEndings attributes).flatMap printAttribute ++
        c :: normalizeLineEndings t) := by
  obtain ⟨hname, hnames, -⟩ := isOpening_iff.1 hname
  rw [Text.normalizeLineEndings_append_of_notMem (return_notMem_name hname),
    normalizeLineEndings_attributes hnames hc]

/-! ### Reading -/

namespace Reader

theorem content?_nil {plain : Char → Char} : content? plain [] = some [] := by
  rw [content?]

theorem content?_reference {plain : Char → Char} {d : Char} {rest : Text}
    (h : reference? t = some (d, rest)) :
    content? plain ('&' :: t) = (content? plain rest).map (d :: ·) := by
  rw [content?, if_pos rfl]
  split
  · next h' =>
    rw [h] at h'
    cases h'
    rfl
  · next h' =>
    rw [h] at h'
    cases h'

theorem content?_cons {plain : Char → Char} (hreference : c ≠ '&') (hmarkup : c ≠ '<') :
    content? plain (c :: t) = (content? plain t).map (plain c :: ·) := by
  rw [content?, if_neg hreference, if_neg hmarkup]

theorem escapeChar_cases (c : Char) :
    (escapeChar c = [c] ∧ c ≠ '&' ∧ c ≠ '<') ∨
      ∃ w, escapeChar c = '&' :: w ∧ ∀ rest, reference? (w ++ rest) = some (c, rest) := by
  fun_cases escapeChar c with
  | case1 => exact .inr ⟨"lt;", rfl, fun _ => rfl⟩
  | case2 => exact .inr ⟨"gt;", rfl, fun _ => rfl⟩
  | case3 => exact .inr ⟨"amp;", rfl, fun _ => rfl⟩
  | case4 => exact .inr ⟨"apos;", rfl, fun _ => rfl⟩
  | case5 => exact .inr ⟨"quot;", rfl, fun _ => rfl⟩
  | case6 c hlt _ hamp _ _ => exact .inl ⟨rfl, hamp, hlt⟩

/-- Escaped text stands for the text, read character by character. -/
theorem content?_escape {plain : Char → Char}
    (hplain : ∀ c w, escapeChar c = '&' :: w → plain c = c) (t : Text) :
    content? plain (escape t) = some (t.map plain) := by
  induction t with
  | nil => exact content?_nil
  | cons c t ih =>
      rcases escapeChar_cases c with ⟨hc, hreference, hmarkup⟩ | ⟨w, hc, hreference⟩
      · rw [escape_cons, hc, List.singleton_append, content?_cons hreference hmarkup, ih]
        rfl
      · rw [escape_cons, hc, List.cons_append, content?_reference (hreference (escape t)), ih,
          List.map_cons, hplain c w hc]
        rfl

theorem spaced_of_escapeChar {c : Char} {w : Text} (h : escapeChar c = '&' :: w) :
    spaced c = c := by
  have hblank : isBlank c = false := by
    cases hb : isBlank c with
    | false => rfl
    | true =>
        simp only [isBlank, Bool.or_eq_true, decide_eq_true_eq] at hb
        rcases hb with ((rfl | rfl) | rfl) | rfl <;> cases h
  simp [spaced, hblank]

theorem value?_escape (t rest : Text) :
    value? ('"' :: (escape t ++ '"' :: rest)) = some (t.map spaced, rest) := by
  have hne : ∀ d ∈ escape t, decide (d ≠ '"') = true := fun d hd => by
    simpa using (ne_of_mem_escape hd).2
  have htake : (escape t ++ '"' :: rest).takeWhile (· ≠ '"') = escape t := by
    rw [List.takeWhile_append_of_pos hne]
    simp
  have hdrop : (escape t ++ '"' :: rest).dropWhile (· ≠ '"') = '"' :: rest := by
    rw [List.dropWhile_append_of_pos hne]
    simp
  simp only [value?, true_or, if_true, htake, hdrop, content?_escape fun c w h =>
    spaced_of_escapeChar h]
  rfl

theorem skipBlanks_cons (hc : isBlank c = false) (t : Text) :
    Text.skipBlanks (c :: t) = c :: t := by
  simp [Text.skipBlanks, hc]

theorem attribute?_print (hname : Text.isName name = true) (value rest : Text) :
    attribute? (name ++ '=' :: '"' :: (escape value ++ '"' :: rest)) =
      some ((name, value.map spaced), rest) := by
  have hread : Text.name? (name ++ '=' :: '"' :: (escape value ++ '"' :: rest)) =
      some (name, '=' :: '"' :: (escape value ++ '"' :: rest)) := Text.name?_append hname rfl
  unfold attribute?
  simp only [hread, skipBlanks_cons (c := '=') rfl, skipBlanks_cons (c := '"') rfl,
    value?_escape]
  rfl

theorem startsBlank_name (hname : Text.isName name = true) (t : Text) :
    Text.skipBlanks (' ' :: (name ++ t)) = name ++ t := by
  cases name with
  | nil => cases hname
  | cons c name =>
      have hc : isBlank c = false := isBlank_eq_false_of_mem_name hname List.mem_cons_self
      exact skipBlanks_cons hc _

/-- The attributes of a tag are read up to the mark that ends it. -/
theorem attributes?_print (hnames : ∀ a ∈ attributes, Text.isName a.1 = true)
    (hc : isBlank c = false) (t : Text) :
    attributes? (attributes.flatMap printAttribute ++ c :: t) =
      some (withValues (List.map spaced) attributes, c :: t) := by
  induction attributes with
  | nil =>
      rw [attributes?, if_neg (by simp [Text.startsBlank, hc])]
      simp [skipBlanks_cons hc, withValues]
  | cons a attributes ih =>
      obtain ⟨name, value⟩ := a
      have hname : Text.isName name = true := hnames _ List.mem_cons_self
      have hrest := ih fun a ha => hnames a (List.mem_cons_of_mem _ ha)
      have hsplit (rest : Text) : printAttribute (name, value) ++ rest =
          ' ' :: (name ++ '=' :: '"' :: (escape value ++ '"' :: rest)) := by
        simp [printAttribute]
      have hskip (rest : Text) := startsBlank_name hname rest
      have hread (rest : Text) : Text.name? (name ++ '=' :: rest) = some (name, '=' :: rest) :=
        Text.name?_append hname rfl
      rw [List.flatMap_cons, List.append_assoc, hsplit, attributes?, hskip, hread]
      rw [if_pos (by simp [Text.startsBlank, isBlank])]
      split
      · next a rest hattribute =>
        rw [attribute?_print hname] at hattribute
        cases hattribute
        rw [hrest]
        rfl
      · next hattribute =>
        rw [attribute?_print hname] at hattribute
        cases hattribute

theorem opening?_print (hopening : isOpening name attributes = true) (hc : isBlank c = false)
    (hend : isNameChar c = false) (t : Text) :
    opening? (name ++ (attributes.flatMap printAttribute ++ c :: t)) =
      some (name, withValues (List.map spaced) attributes, c :: t) := by
  obtain ⟨hname, hnames, hnodup⟩ := isOpening_iff.1 hopening
  -- the name ends at the space in front of an attribute, or at the mark
  have hstop : Text.startsNameChar (attributes.flatMap printAttribute ++ c :: t) = false := by
    cases attributes with
    | nil => exact hend
    | cons a attributes => rfl
  have hnodup' : ((withValues (List.map spaced) attributes).map Prod.fst).Nodup := by
    rwa [map_fst_withValues]
  rw [opening?, Text.name?_append hname hstop]
  simp only [attributes?_print hnames hc, if_pos hnodup']

/-- How a value is read: its line ends are made plain, and then its blanks become spaces. -/
def readValue (value : Text) : Text :=
  (normalizeLineEndings value).map spaced

end Reader

def Tag.withValues (f : Text → Text) : Tag → Tag
  | start name attributes => start name (Xml.withValues f attributes)
  | empty name attributes => empty name (Xml.withValues f attributes)
  | tag => tag

/-- Whether a tag, which is no text, is named as XML asks for. -/
def Tag.isWellNamed : Tag → Bool
  | declaration => true
  | start name attributes => isOpening name attributes
  | empty name attributes => isOpening name attributes
  | close name => Text.isName name
  | text _ => false

namespace Reader

theorem withValues_readValue (attributes : List (Text × Text)) :
    withValues (List.map spaced) (withValues normalizeLineEndings attributes) =
      withValues readValue attributes := by
  simp only [withValues, List.map_map]
  rfl

theorem isOpening_withValues (f : Text → Text) :
    isOpening name (withValues f attributes) = isOpening name attributes := by
  simp only [isOpening, map_fst_withValues]
  simp [withValues, List.all_map, Function.comp_def]

theorem normalizeLineEndings_tag (hopening : isOpening name attributes = true)
    (hc : c ≠ '\r') (t : Text) :
    ∃ attributes', isOpening name attributes' = true ∧
      withValues (List.map spaced) attributes' = withValues readValue attributes ∧
      normalizeLineEndings ('<' :: (name ++ (attributes.flatMap printAttribute ++ c :: t))) =
        '<' ::
          (name ++ (attributes'.flatMap printAttribute ++ c :: normalizeLineEndings t)) := by
  refine ⟨withValues normalizeLineEndings attributes, by rwa [isOpening_withValues],
    withValues_readValue _, ?_⟩
  rw [Text.normalizeLineEndings_cons (by decide), normalizeLineEndings_opening hopening hc]

/-- Behind a less-than sign and the first character of a name, a tag goes on with its name. -/
theorem tag?_name (hname : Text.isName name = true) (t : Text) :
    tag? (name ++ t) = match opening? (name ++ t) with
      | some (name, as, '>' :: rest) => some (.start name as, rest)
      | some (name, as, '/' :: '>' :: rest) => some (.empty name as, rest)
      | _ => none := by
  cases name with
  | nil => cases hname
  | cons c name =>
      have hstart : isNameStart c = true := (isNameStart_of_isName hname).1
      have hquestion : c ≠ '?' := by
        rintro rfl
        revert hstart
        decide
      have hslash : c ≠ '/' := by
        rintro rfl
        revert hstart
        decide
      exact tag?.eq_3 _ (fun u heq => hquestion (List.cons.inj heq).1) fun u heq =>
        hslash (List.cons.inj heq).1

/-- A written tag is read back, with its values as they are read. -/
theorem item?_print {tag : Tag} (h : tag.isWellNamed = true) (t : Text) :
    item? (normalizeLineEndings (tag.print ++ t)) =
      some (tag.withValues readValue, normalizeLineEndings t) := by
  cases tag with
  | text u => cases h
  | declaration =>
      have hprint : '\r' ∉ Tag.declaration.print := by decide
      have hsplit (u : Text) : Tag.declaration.print ++ u =
          '<' :: '?' :: ("xml".toList ++
            (declared.flatMap printAttribute ++ '?' :: '>' :: u)) := rfl
      have hopening : isOpening "xml" declared = true := by decide
      have hvalues : withValues (List.map spaced) declared = declared := by decide
      rw [Text.normalizeLineEndings_append_of_notMem hprint, hsplit, item?, if_pos rfl, tag?,
        opening?_print hopening rfl (by decide), hvalues]
      rfl
  | close name =>
      have hname : Text.isName name = true := h
      have hopening : isOpening name [] = true :=
        isOpening_iff.2 ⟨hname, by simp, List.nodup_nil⟩
      have hends : normalizeLineEndings ('<' :: '/' :: (name ++ '>' :: t)) =
          '<' :: '/' :: (name ++ '>' :: normalizeLineEndings t) := by
        rw [Text.normalizeLineEndings_cons (by decide),
          Text.normalizeLineEndings_cons (by decide),
          Text.normalizeLineEndings_append_of_notMem (return_notMem_name hname),
          Text.normalizeLineEndings_cons (by decide)]
      have hread : opening? (name ++ '>' :: normalizeLineEndings t) =
          some (name, [], '>' :: normalizeLineEndings t) :=
        opening?_print hopening rfl (by decide) (normalizeLineEndings t)
      rw [Tag.print_close_append, hends, item?, if_pos rfl, tag?, hread]
      rfl
  | start name attributes =>
      obtain ⟨attributes', hopening', hvalues, hends⟩ :=
        normalizeLineEndings_tag (c := '>') h (by decide) t
      have hname : Text.isName name = true := (isOpening_iff.1 h).1
      rw [Tag.print_start_append, hends, item?, if_pos rfl, tag?_name hname,
        opening?_print hopening' rfl rfl, hvalues]
      rfl
  | empty name attributes =>
      obtain ⟨attributes', hopening', hvalues, hends⟩ :=
        normalizeLineEndings_tag (c := '/') h (by decide) ('>' :: t)
      have hname : Text.isName name = true := (isOpening_iff.1 h).1
      rw [Tag.print_empty_append, hends, item?, if_pos rfl, tag?_name hname,
        opening?_print hopening' rfl rfl, hvalues, Text.normalizeLineEndings_cons (by decide)]
      rfl

end Reader
end Doctype.Xml
