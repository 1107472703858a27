import Doctype.Proofs.Markup.Rescan
import Doctype.Proofs.Text.LineEnds

/-!
Lines of a text with a text declaration. A scan sees what is left behind the declaration, and
the lines that it tells are counted there: with the declaration in front of it a text is
scanned as without, down to the lines of its errors, unless it becomes too large
(`run_declared`). So every fault is told as many lines too early as end within the declaration.
-/

namespace Doctype

open Markup
open Text (normalizeLineEndings lineBreaks IsDeclaration dropDeclaration)

variable {σ : Type} {location : Option Location} {d t u : Text}

namespace Text

def lineAt (whole rest : Text) : Nat :=
  lineBreaks whole - lineBreaks rest + 1

@[simp] theorem lineBreaks_append (a b : Text) :
    lineBreaks (a ++ b) = lineBreaks a + lineBreaks b :=
  List.count_append

theorem lineAt_append (front : Text) {whole rest : Text} (h : rest <:+ whole) :
    lineAt (front ++ whole) rest = lineBreaks front + lineAt whole rest := by
  obtain ⟨before, rfl⟩ := h
  simp only [lineAt, lineBreaks_append]
  omega

/-- No line end is cut behind a text declaration. -/
theorem IsDeclaration.normalizeLineEndings_append (hd : IsDeclaration d) (t : Text) :
    normalizeLineEndings (d ++ t) = normalizeLineEndings d ++ normalizeLineEndings t := by
  -- the last character of a declaration is in no line end, so the texts may be cut behind it
  obtain ⟨a, rfl⟩ : ∃ a, d = a ++ ['>'] := by
    cases hd with
    | @unmarked c u _ _ => exact ⟨"<?xml".toList ++ c :: (u ++ ['?']), by simp⟩
    | @marked c u _ _ => exact ⟨'\uFEFF' :: ("<?xml".toList ++ c :: (u ++ ['?'])), by simp⟩
  have hend (r : Text) : normalizeLineEndings (a ++ '>' :: r) =
      normalizeLineEndings a ++ '>' :: normalizeLineEndings r := by
    rw [Text.normalizeLineEndings_append a (by simp), normalizeLineEndings_cons (by decide)]
  have hclosed : normalizeLineEndings (a ++ ['>']) = normalizeLineEndings a ++ ['>'] := hend []
  rw [hclosed, List.append_assoc, List.append_assoc]
  exact hend t

end Text

namespace Source

def given (location : Option Location) (t : Text) : Source :=
  ⟨.dtd, normalizeLineEndings t, location⟩

theorem body_given (location : Option Location) (t : Text) :
    (given location t).body = normalizeLineEndings (dropDeclaration t) :=
  Text.dropDeclaration_normalizeLineEndings t

theorem site_given (h : dropDeclaration t = dropDeclaration u) :
    (given location t).site = (given location u).site := by
  rw [site, site, body_given, body_given, h]
  rfl

/-- Apart from its size, only what is left behind the declaration is looked at. -/
theorem run_given (location : Option Location) (t : Text) (resolver : Resolver)
    (limits : Limits) (h : Handler σ) (handled : σ) :
    (given location t).run resolver limits h handled =
      if Text.size (normalizeLineEndings t) ≤ limits.dtdSize then
        outcome (scanDtd ⟨h, resolver, limits⟩ (given location t).site
          (normalizeLineEndings (dropDeclaration t)))
          (.start handled)
      else
        (handled, .error (.limitExceeded
          (.dtdSize (Text.size (normalizeLineEndings t)) limits.dtdSize))) := by
  have hscan : (given location t).scan ⟨h, resolver, limits⟩ =
      (do
        check (limits.checkDtdSize (Text.size (normalizeLineEndings t)))
        scanDtd ⟨h, resolver, limits⟩ (given location t).site
          (normalizeLineEndings (dropDeclaration t))) := by
    rw [← body_given]
    rfl
  show outcome ((given location t).scan ⟨h, resolver, limits⟩) (.start handled) = _
  rw [hscan]
  by_cases hsize : Text.size (normalizeLineEndings t) ≤ limits.dtdSize
  · have hcheck : limits.checkDtdSize (Text.size (normalizeLineEndings t)) = .ok () :=
      if_pos hsize
    rw [hcheck, if_pos hsize]
    rfl
  · have hcheck : limits.checkDtdSize (Text.size (normalizeLineEndings t)) =
        .error (.dtdSize (Text.size (normalizeLineEndings t)) limits.dtdSize) := if_neg hsize
    rw [hcheck, if_neg hsize]
    rfl

/-- A text that begins with neither a byte order mark nor a text declaration is scanned with a
text declaration in front of it as it is scanned alone, if both together are within the bound
on the size, and not at all if they are beyond it. Where a fault is told, its line is counted
in the text alone. In what is given the place is further down, by the number of lines that end
within the declaration. -/
theorem run_declared (hd : IsDeclaration d) (hmark : t.head? ≠ some '\uFEFF')
    (ht : ∀ d, IsDeclaration d → ¬d <+: t) (location : Option Location) (resolver : Resolver)
    (limits : Limits) (h : Handler σ) (handled : σ) :
    ((given location (d ++ t)).run resolver limits h handled =
      if Text.size (normalizeLineEndings (d ++ t)) ≤ limits.dtdSize then
        (given location t).run resolver limits h handled
      else
        (handled, .error (.limitExceeded
          (.dtdSize (Text.size (normalizeLineEndings (d ++ t))) limits.dtdSize)))) ∧
      ∀ rest fault, rest <:+ normalizeLineEndings t →
        (given location (d ++ t)).site.error rest fault =
            .eventSource (.markup (given location t).label
              (Text.lineAt (normalizeLineEndings t) rest) fault) ∧
          Text.lineAt (normalizeLineEndings (d ++ t)) rest =
            lineBreaks (normalizeLineEndings d) + Text.lineAt
              (normalizeLineEndings t) rest := by
  have hleft : dropDeclaration t = t := Text.dropDeclaration_of_undeclared hmark ht
  have hdrop : dropDeclaration (d ++ t) = dropDeclaration t := by
    rw [hd.dropDeclaration_append, hleft]
  have hsite : (given location (d ++ t)).site = (given location t).site := site_given hdrop
  refine ⟨?_, fun rest fault hrest => ⟨?_, ?_⟩⟩
  · rw [run_given, run_given, hsite, hdrop]
    split
    · next hsize =>
      have hsmall : Text.size (normalizeLineEndings t) ≤ limits.dtdSize := by
        rw [hd.normalizeLineEndings_append, Text.size_append] at hsize
        omega
      rw [if_pos hsmall]
    · rfl
  · rw [hsite, site, body_given, hleft]
    rfl
  · rw [hd.normalizeLineEndings_append, Text.lineAt_append _ hrest]

/-- A declaration in which one line ends, in front of a text that fails on its second line. -/
theorem run_declared_secondLine :
    let d : Text := "<?xml\r\nversion='1.0'?>"
    let t : Text := "<!-- c -->\n<!BOGUS x>"
    IsDeclaration d ∧ t.head? ≠ some '\uFEFF' ∧ (∀ d, IsDeclaration d → ¬d <+: t) ∧
      ((given none (d ++ t)).run (.ofCatalog []) .standard Recording.handler
        .empty).1.events.toList = [.comment " c "] ∧
      ((given none (d ++ t)).run (.ofCatalog []) .standard Recording.handler .empty).2 =
        .error (.eventSource (.markup "<dtd>" 2 (.unknownDeclaration "BOGUS"))) ∧
      Text.lineAt (normalizeLineEndings (d ++ t)) "<!BOGUS x>" = 3 := by
  intro d t
  have hd : IsDeclaration d :=
    .unmarked (c := '\r') (u := "\nversion='1.0'") (by decide) (by decide)
  have hmark : t.head? ≠ some '\uFEFF' := by decide
  have ht : ∀ d, IsDeclaration d → ¬d <+: t := fun d hd => hd.not_prefix hmark (by decide)
  obtain ⟨hrun, hlines⟩ :=
    run_declared hd hmark ht none (.ofCatalog []) .standard Recording.handler .empty
  rw [if_pos (by decide +kernel)] at hrun
  refine ⟨hd, hmark, ht, ?_, ?_, ?_⟩
  · rw [hrun]
    decide +kernel
  · rw [hrun]
    decide +kernel
  · rw [(hlines "<!BOGUS x>" .unterminatedDeclaration (by decide +kernel)).2]
    decide +kernel

/-- A text that fails on its first line. With a declaration in front of it in which one line
ends it is told to fail there, too, where in what is given this is the second line. -/
theorem run_given_firstLine :
    let d : Text := "<?xml version='1.0'\n?>"
    let t : Text := "<!BOGUS x>"
    let told (t : Text) :=
      ((ofText .dtd t).run (.ofCatalog []) .standard Recording.handler .empty).2
    let failed (line : Nat) : Except Error Unit :=
      .error (.eventSource (.markup "<dtd>" line (.unknownDeclaration "BOGUS")))
    IsDeclaration d ∧ lineBreaks (normalizeLineEndings d) = 1 ∧ t.head? ≠ some '\uFEFF' ∧
      (∀ d, IsDeclaration d → ¬d <+: t) ∧ told t = failed 1 ∧ told (d ++ t) = failed 1 ∧
      told (d ++ t) ≠ failed (1 + 1) := by
  intro d t told failed
  have hmark : t.head? ≠ some '\uFEFF' := by decide
  have hd : IsDeclaration d :=
    .unmarked (c := ' ') (u := "version='1.0'\n") (by decide) (by decide)
  exact ⟨hd, by decide +kernel, hmark, fun d hd => hd.not_prefix hmark (by decide),
    by decide +kernel, by decide +kernel, by decide +kernel⟩

end Source
end Doctype
