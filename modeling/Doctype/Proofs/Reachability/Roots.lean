import Doctype.Analysis
import Doctype.Proofs.Graph.Order
import Doctype.Proofs.Reachability.Closure

/-!
Analyses of one log with roots and without. Which roots are declared can be told from the
events (`Graph.isSome_element?_build`). The roots add to what is found, and they may narrow the
document down, but the graph is that of the analysis without them; and so is the document if
none of them is declared (`Analysis.ofLog_roots`).
-/

namespace Doctype

namespace Graph

variable {g : Graph} {roots : List Text}

/-- The elements of a graph that is built of events are those that the events declare. -/
theorem isSome_element?_build (limits : Limits) (events : List Event) (n : Text) :
    ((build limits events).graph.element? n).isSome = true ↔
      n ∈ events.flatMap Event.elementNames := by
  have hcontent := congrArg Option.isSome (content_build limits events n)
  rw [Option.isSome_map, Option.isSome_map] at hcontent
  simp [hcontent, Event.mem_elementNames_iff, Option.isSome_iff_ne_none]

theorem undeclaredRoots_build (limits : Limits) (events : List Event) (roots : List Text) :
    (build limits events).graph.undeclaredRoots roots =
      (roots.filter (· ∉ events.flatMap Event.elementNames)).map .danglingRoot := by
  refine congrArg (List.map _) (List.filter_congr fun r _ => ?_)
  rw [Bool.eq_iff_iff, decide_eq_true_iff, ← isSome_element?_build limits events r,
    Option.isNone_iff_eq_none, Option.not_isSome_iff_eq_none]

theorem isSome_reachable_iff :
    (g.reachable roots).toOption.isSome = true ↔
      ∃ r ∈ roots, (g.element? r).isSome = true := by
  have hsome : (∃ r ∈ roots, (g.element? r).isSome = true) ↔
      ¬ (g.rootQueue roots).waiting.isEmpty = true := by
    rw [rootQueue_isEmpty_iff]
    simp [Option.isSome_iff_ne_none]
  rw [hsome, reachable_eq]
  cases roots with
  | nil => simp [Except.toOption, rootQueue, Queue.empty]
  | cons r roots =>
      cases (g.rootQueue (r :: roots)).waiting.isEmpty <;> simp [Except.toOption]

end Graph

namespace Analysis

theorem reach_eq (g : Graph) (roots : List Text) (findings : List Finding) :
    reach g roots findings =
      ((g.reachable roots).toOption, findings ++ g.undeclaredRoots roots) := by
  unfold reach
  rw [g.outcome_reach, g.reachable_eq]
  cases roots with
  | nil => exact congrArg (none, ·) (List.append_nil _).symm
  | cons r roots => cases (g.rootQueue (r :: roots)).waiting.isEmpty <;> rfl

/-- An analysis with roots has the graph, the title and the end of the one without. Behind what
that one finds, it finds fault with every root that is not declared, in their order. It narrows
the document down exactly if some root is declared; otherwise the document and what a writer
takes of it are those of the analysis without roots. -/
theorem ofLog_roots (title : Option Text) (roots : List Text) (limits : Limits) (log : Log) :
    let asked := ofLog ⟨title, roots, limits⟩ log
    let plain := ofLog ⟨title, [], limits⟩ log
    let declared := log.events.flatMap Event.elementNames
    asked.graph = plain.graph ∧ asked.title = plain.title ∧
      asked.stoppedEarly = plain.stoppedEarly ∧
      asked.findings.map Finding.diagnostic = plain.findings.map Finding.diagnostic ++
        (roots.filter (· ∉ declared)).map (fun r =>
          ⟨.danglingRoot, "root element '" ++ r ++ "' is not declared", some r⟩) ∧
      (asked.reachable.isSome = true ↔ ∃ r ∈ roots, r ∈ declared) ∧
      (asked.reachable = none → asked.document.print = plain.document.print ∧
        ∀ s, asked.document.write s = plain.document.write s) := by
  intro asked plain declared
  have hreach := reach_eq (Graph.build limits log.events).graph roots
    (Graph.build limits log.events).findings
  refine ⟨rfl, rfl, rfl, ?_, ?_, fun hnone => ?_⟩
  · have hasked :
        asked.findings = plain.findings ++ (roots.filter (· ∉ declared)).map .danglingRoot :=
      (congrArg Prod.snd hreach).trans (by rw [Graph.undeclaredRoots_build]; rfl)
    rw [hasked, List.map_append, List.map_map]
    rfl
  · have hreachable :
        asked.reachable = ((Graph.build limits log.events).graph.reachable roots).toOption :=
      congrArg Prod.fst hreach
    simp only [hreachable, Graph.isSome_reachable_iff, Graph.isSome_element?_build, declared]
  · -- without roots nothing is asked for, so there is no filter either
    have hdocument : asked.document = plain.document := by
      unfold document
      rw [hnone]
      rfl
    exact ⟨by rw [hdocument], fun s => by rw [hdocument]⟩

/-- A root that is not declared, beside an element that is. -/
theorem ofLog_roots_undeclared :
    let log : Log := ⟨[.element "a" "EMPTY"], false⟩
    let asked := ofLog ⟨none, ["b".toList], .standard⟩ log
    let plain := ofLog ⟨none, [], .standard⟩ log
    asked.findings.map Finding.diagnostic =
      [⟨.danglingRoot, "root element 'b' is not declared", some "b".toList⟩] ∧
      asked.reachable = none ∧ plain.document.bodyTags ≠ [] ∧
      asked.document.print = plain.document.print := by
  intro log asked plain
  have hnone : asked.reachable = none := rfl
  obtain ⟨-, -, -, hfindings, -, hdocument⟩ := ofLog_roots none ["b".toList] .standard log
  exact ⟨hfindings, hnone, by decide +kernel, (hdocument hnone).1⟩

end Analysis
end Doctype
