import Doctype.Text

/-!
Bounds on what a run may do. A check passes exactly when the number is at most its bound.
-/

namespace Doctype

/-- The bounds of a run; sizes are in bytes. -/
structure Limits where
  /-- Nesting of groups in a content model. -/
  contentModelDepth : Nat
  /-- Number of entity expansions. -/
  entityExpansions : Nat
  /-- Size of one expansion. -/
  entityExpansionSize : Nat
  /-- Nesting of entity references. -/
  entityDepth : Nat
  /-- Size of a text to be read. -/
  dtdSize : Nat
  deriving DecidableEq

namespace Limits

def standard : Limits :=
  ⟨256, 10000, 10 * 1024 * 1024, 64, 100 * 1024 * 1024⟩

def strict : Limits :=
  ⟨32, 1000, 1024 * 1024, 16, 10 * 1024 * 1024⟩

def permissive : Limits :=
  ⟨4096, 1000000, 100 * 1024 * 1024, 1024, 1024 * 1024 * 1024⟩

/-- What was counted, and the bound that it passed. -/
inductive Excess
  | expansions (count bound : Nat)
  | expansionSize (size bound : Nat)
  | depth (depth bound : Nat)
  | dtdSize (size bound : Nat)
  deriving DecidableEq

def Excess.message : Excess → Text
  | expansions n bound =>
    "entity expansions " ++ Text.decimal n ++ " exceeds maximum " ++ Text.decimal bound
  | expansionSize n bound =>
    "entity expansion size " ++ Text.decimal n ++ " bytes exceeds maximum " ++
      Text.decimal bound ++ " bytes"
  | depth n bound =>
    "entity nesting depth " ++ Text.decimal n ++ " exceeds maximum " ++ Text.decimal bound
  | dtdSize n bound =>
    "DTD size " ++ Text.decimal n ++ " bytes exceeds maximum " ++
      Text.decimal bound ++ " bytes"

/-- Passes a number up to its bound. -/
def atMost (excess : Nat → Nat → Excess) (bound n : Nat) : Except Excess Unit :=
  if n ≤ bound then .ok () else .error (excess n bound)

theorem atMost_eq_ok {excess : Nat → Nat → Excess} {bound n : Nat} {u : Unit}
    (h : atMost excess bound n = .ok u) : n ≤ bound := by
  unfold atMost at h
  split at h
  · assumption
  · cases h

theorem atMost_eq_error {excess : Nat → Nat → Excess} {bound n : Nat} {x : Excess}
    (h : atMost excess bound n = .error x) : bound < n ∧ x = excess n bound := by
  unfold atMost at h
  split at h
  · cases h
  · next hbound =>
    cases h
    exact ⟨Nat.lt_of_not_le hbound, rfl⟩

def checkExpansions (l : Limits) (n : Nat) : Except Excess Unit :=
  atMost .expansions l.entityExpansions n

def checkExpansionSize (l : Limits) (n : Nat) : Except Excess Unit :=
  atMost .expansionSize l.entityExpansionSize n

def checkDepth (l : Limits) (n : Nat) : Except Excess Unit :=
  atMost .depth l.entityDepth n

def checkDtdSize (l : Limits) (n : Nat) : Except Excess Unit :=
  atMost .dtdSize l.dtdSize n

end Limits
end Doctype
