import Doctype.Graph.Build
import Doctype.Reachable
import Doctype.Xml.Writer

/-!
The analysis of a log of events: the graph of its declarations, what is wrong with them, and,
if roots are asked for, the declarations that are reachable from these. Roots that lead nowhere
are found fault with and narrow nothing down.
-/

namespace Doctype

/-- What is asked of an analysis; without roots all declarations are kept. -/
structure Analysis.Options where
  title : Option Text
  roots : List Text
  limits : Limits

/-- Options whose roots are the words of some texts. -/
def Analysis.Options.ofTexts (title : Option Text) (roots : List Text) (limits : Limits) :
    Analysis.Options :=
  ⟨title, roots.flatMap Text.words, limits⟩

structure Analysis where
  graph : Graph
  findings : List Finding
  reachable : Option ReachableSet
  title : Option Text
  stoppedEarly : Bool

namespace Analysis

/-- What can be reached from the roots, if any were asked for, and all that is found by then.
Where the search fails, its findings are kept and nothing is narrowed down. -/
def reach (g : Graph) (roots : List Text) (findings : List Finding) :
    Option ReachableSet × List Finding :=
  if roots.isEmpty then (none, findings)
  else
    match (g.reach roots).outcome findings with
    | (.ok set, findings) => (some set, findings)
    | (.error _, findings) => (none, findings)

def ofLog (o : Options) (log : Log) : Analysis :=
  let built := Graph.build o.limits log.events
  let (reachable, findings) := reach built.graph o.roots built.findings
  { graph := built.graph
    findings
    reachable
    title := o.title
    stoppedEarly := log.stoppedEarly }

/-- The analysis as a document, narrowed to what is reachable if roots were asked for. -/
def document (a : Analysis) : Xml.Document :=
  ⟨a.graph, a.title, a.reachable⟩

end Analysis
end Doctype
