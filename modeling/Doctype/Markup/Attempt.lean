import Doctype.Markup.Scan

/-!
Scans that may come to nothing. An attempt is a part of a scan that is none if a slice of a
text that it takes is not there, or if a call in it is not smaller than the one that makes it
(`descend`).
-/

namespace Doctype.Markup

variable {σ ι α : Type}

/-- A part of a scan that may come to nothing. -/
abbrev Attempt (σ α : Type) := ExceptT Error (StateT (State σ) Option) α

def ended : EStateM.Result Error (State σ) α → Except Error α × State σ
  | .ok a s => (.ok a, s)
  | .error error s => (.error error, s)

def perform (x : Scan σ α) : Attempt σ α :=
  ExceptT.mk fun s => some (ended (x s))

def slice (x : Option α) : Attempt σ α :=
  ExceptT.mk fun s => x.map fun a => (.ok a, s)

def readOrFail (fail : Fault → Error) (x : Option (Except Fault α)) : Attempt σ α :=
  ExceptT.mk fun s => x.map fun read => (read.mapError fail, s)

/-! ### Calls that descend -/

/-- A pair comes before another one, where the first numbers count first. -/
def Precedes (a b : Nat × Nat) : Prop :=
  a.1 < b.1 ∨ a.1 = b.1 ∧ a.2 < b.2

instance (a b : Nat × Nat) : Decidable (Precedes a b) :=
  inferInstanceAs (Decidable (_ ∨ _))

/-- The recursion of a body whose calls are made only if their measure comes before that of the
call around them. -/
def descend (measure : ι → State σ → Nat × Nat) (body : (ι → Attempt σ α) → ι → Attempt σ α)
    (i : ι) : Attempt σ α :=
  fun s => body (fun j t => if _h : Precedes (measure j t) (measure i s) then
    descend measure body j t else none) i s
termination_by s => measure i s
decreasing_by exact Prod.lex_def.2 _h

end Doctype.Markup
