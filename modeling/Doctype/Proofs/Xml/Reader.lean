import Doctype.Attribute.Value
import Doctype.Name
import Doctype.Proofs.Text.Name
import Doctype.Xml.Tag

/-!
A reader of XML documents. Line ends are made plain before anything else; the tags, the values
of their attributes and the text between them are then told one by one, references in values
and text are replaced, and blanks in values become spaces unless they were written as
references. Elements must be nested, and no attribute may be given twice. Of the rest of XML
there is nothing in the reader: neither document types nor sections, comments and instructions,
and which characters are legal is not checked.
-/

namespace Doctype.Xml.Reader

variable {t rest : Text} {c : Char}

/-! ### Values and text -/

def reference? (t : Text) : Option (Char × Text) :=
  match Reference.char? t with
  | some found => some found
  | none =>
    match t.dropWhile (· ≠ ';') with
    | _ :: rest => (Attribute.Value.predefined? (t.takeWhile (· ≠ ';'))).map (·, rest)
    | [] => none

theorem reference?_length (h : reference? t = some (c, rest)) : rest.length < t.length := by
  unfold reference? at h
  split at h
  · next hchar =>
    cases h
    exact Reference.char?_length hchar
  · split at h
    · next d u hd =>
      have hsuffix : d :: u <:+ t := hd ▸ List.dropWhile_suffix _
      have hlength := hsuffix.length_le
      obtain ⟨e, -, heq⟩ := Option.map_eq_some_iff.1 h
      cases heq
      rw [List.length_cons] at hlength
      omega
    · cases h

/-- What a text between the markup stands for; `plain` tells how a character is read that
stands for itself. -/
def content? (plain : Char → Char) : Text → Option Text
  | [] => some []
  | c :: t =>
    if c = '&' then
      match _h : reference? t with
      | some (d, rest) => (content? plain rest).map (d :: ·)
      | none => none
    else if c = '<' then none
    else (content? plain t).map (plain c :: ·)
termination_by t => t.length
decreasing_by
  · have := reference?_length _h; simp; omega
  · simp

def spaced (c : Char) : Char :=
  if isBlank c then ' ' else c

/-! ### Tags -/

def value? : Text → Option (Text × Text)
  | q :: t =>
    if q = '"' ∨ q = '\'' then
      match t.dropWhile (· ≠ q) with
      | _ :: rest => (content? spaced (t.takeWhile (· ≠ q))).map (·, rest)
      | [] => none
    else none
  | [] => none

def attribute? (t : Text) : Option ((Text × Text) × Text) :=
  match Text.name? t with
  | some (name, t) =>
    match Text.skipBlanks t with
    | '=' :: t => (value? (Text.skipBlanks t)).map fun (v, rest) => ((name, v), rest)
    | _ => none
  | none => none

theorem value?_length {v : Text} (h : value? t = some (v, rest)) : rest.length < t.length := by
  unfold value? at h
  split at h
  · next q t =>
    split at h
    · split at h
      · next d u hd =>
        have hsuffix : d :: u <:+ t := hd ▸ List.dropWhile_suffix _
        have hlength := hsuffix.length_le
        obtain ⟨w, -, heq⟩ := Option.map_eq_some_iff.1 h
        cases heq
        simp only [List.length_cons] at hlength ⊢
        omega
      · cases h
    · cases h
  · cases h

theorem attribute?_length {a : Text × Text} (h : attribute? t = some (a, rest)) :
    rest.length < t.length := by
  unfold attribute? at h
  split at h
  · next name u hname =>
    obtain ⟨rfl, -⟩ := Text.name?_eq_some hname
    split at h
    · next w hw =>
      obtain ⟨⟨v, rest'⟩, hv, heq⟩ := Option.map_eq_some_iff.1 h
      cases heq
      have hvalue := value?_length hv
      have hblanks := (Text.skipBlanks_suffix w).length_le
      have hfront := (Text.skipBlanks_suffix u).length_le
      rw [hw, List.length_cons] at hfront
      rw [List.length_append]
      omega
    · cases h
  · cases h

/-- The attributes of a tag, each behind a blank, and what is left behind them and further
blanks. -/
def attributes? (t : Text) : Option (List (Text × Text) × Text) :=
  if Text.startsBlank t ∧ (Text.name? (Text.skipBlanks t)).isSome then
    match _h : attribute? (Text.skipBlanks t) with
    | some (a, rest) => (attributes? rest).map fun (as, left) => (a :: as, left)
    | none => none
  else some ([], Text.skipBlanks t)
termination_by t.length
decreasing_by
  have h1 := attribute?_length _h
  have h2 := (Text.skipBlanks_suffix t).length_le
  omega

theorem attributes?_length {as : List (Text × Text)} (h : attributes? t = some (as, rest)) :
    rest.length ≤ t.length := by
  fun_induction attributes? t generalizing as rest with
  | case1 t hblank a u hu ih =>
      obtain ⟨⟨as', left⟩, hleft, heq⟩ := Option.map_eq_some_iff.1 h
      cases heq
      have h1 := ih hleft
      have h2 := attribute?_length hu
      have h3 := (Text.skipBlanks_suffix t).length_le
      omega
  | case2 => cases h
  | case3 t hblank =>
      cases h
      exact (Text.skipBlanks_suffix t).length_le

/-- The name of a tag and its attributes, of which no two have the same name, and what is
left. -/
def opening? (t : Text) : Option (Text × List (Text × Text) × Text) :=
  match Text.name? t with
  | some (name, t) =>
    match attributes? t with
    | some (as, rest) => if (as.map Prod.fst).Nodup then some (name, as, rest) else none
    | none => none
  | none => none

def declared : List (Text × Text) :=
  [("version", "1.0"), ("encoding", "UTF-8")]

def tag? (t : Text) : Option (Tag × Text) :=
  match t with
  | '?' :: t =>
    match opening? t with
    | some (name, as, '?' :: '>' :: rest) =>
      if name = "xml" ∧ as = declared then some (.declaration, rest) else none
    | _ => none
  | '/' :: t =>
    match opening? t with
    | some (name, [], '>' :: rest) => some (.close name, rest)
    | _ => none
  | t =>
    match opening? t with
    | some (name, as, '>' :: rest) => some (.start name as, rest)
    | some (name, as, '/' :: '>' :: rest) => some (.empty name as, rest)
    | _ => none

theorem opening?_length {name : Text} {as : List (Text × Text)}
    (h : opening? t = some (name, as, rest)) : rest.length ≤ t.length := by
  unfold opening? at h
  split at h
  · next n u hname =>
    obtain ⟨rfl, -⟩ := Text.name?_eq_some hname
    split at h
    · next as' left hleft =>
      split at h
      · cases h
        have hlength := attributes?_length hleft
        rw [List.length_append]
        omega
      · cases h
    · cases h
  · cases h

theorem tag?_length {tag : Tag} (h : tag? t = some (tag, rest)) : rest.length ≤ t.length := by
  unfold tag? at h
  split at h
  · split at h
    · next hopening =>
      have hlength := opening?_length hopening
      split at h
      · cases h
        simp only [List.length_cons] at hlength ⊢
        omega
      · cases h
    · cases h
  · split at h
    · next hopening =>
      cases h
      have hlength := opening?_length hopening
      simp only [List.length_cons] at hlength ⊢
      omega
    · cases h
  · split at h
    · next hopening =>
      cases h
      have hlength := opening?_length hopening
      simp only [List.length_cons] at hlength
      omega
    · next hopening =>
      cases h
      have hlength := opening?_length hopening
      simp only [List.length_cons] at hlength
      omega
    · cases h

/-! ### Documents -/

def item? : Text → Option (Tag × Text)
  | [] => none
  | c :: t =>
    if c = '<' then tag? t
    else (content? id ((c :: t).takeWhile (· ≠ '<'))).map fun u =>
      (.text u, t.dropWhile (· ≠ '<'))

theorem item?_length {tag : Tag} (h : item? t = some (tag, rest)) :
    rest.length < t.length := by
  unfold item? at h
  split at h
  · cases h
  · next c t =>
    split at h
    · have hlength := tag?_length h
      rw [List.length_cons]
      omega
    · obtain ⟨u, -, heq⟩ := Option.map_eq_some_iff.1 h
      cases heq
      have hlength := (List.dropWhile_suffix (· ≠ '<') (l := t)).length_le
      rw [List.length_cons]
      omega

/-- The names of the elements that are open behind a tag, innermost first; no names if the tag
closes another element than the innermost one. -/
def nest? (opened : List Text) : Tag → Option (List Text)
  | .start name _ => some (name :: opened)
  | .close name =>
    match opened with
    | inner :: outer => if name = inner then some outer else none
    | [] => none
  | _ => some opened

/-- Reads tags and text to the end, where no element may be open. -/
def readFrom (opened : List Text) (t : Text) : Option (List Tag) :=
  if t.isEmpty then if opened.isEmpty then some [] else none
  else
    match _h : item? t with
    | some (tag, rest) =>
      match nest? opened tag with
      | some inner => (readFrom inner rest).map (tag :: ·)
      | none => none
    | none => none
termination_by t.length
decreasing_by exact item?_length _h

def read (t : Text) : Option (List Tag) :=
  readFrom [] (Text.normalizeLineEndings t)

end Doctype.Xml.Reader
