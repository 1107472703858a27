import Doctype.Proofs.Markup.Expanding
import Doctype.Proofs.Markup.Readers

/-!
Calls of the scanner by byte offsets. Each part of it does the same with calls that come to
something more often (`extends_scanSpot`), so that where a scan comes to something its calls
are as good as free.
-/

namespace Doctype.Markup

variable {σ : Type}

section Calls

variable {call call' : Spot → Attempt σ Nat} (h : ∀ spot, Extends (call spot) (call' spot))
  (c : Setting σ)
  (ctx : Context) (fail : Fault → Error) (text : Text) (pos : Nat)
include h

theorem extends_scanEntityAt (name : Text) :
    Extends (scanEntityAt c call ctx fail name) (scanEntityAt c call' ctx fail name) := by
  refine .bind (.refl _) fun s => ?_
  rcases s.entities.lookup name with - | ⟨value⟩ | ⟨id, base⟩
  · exact .refl _
  · exact .bind (.refl _) fun _ => .bind (h _) fun _ => .refl _
  · exact .bind (.refl _) fun _ => .bind (.refl _) fun _ => .bind (.refl _) fun _ =>
      .bind (h _) fun _ => .refl _

theorem extends_handleAt (item : Item) :
    Extends (handleAt c call ctx fail item) (handleAt c call' ctx fail item) := by
  cases item with
  | reference name => exact extends_scanEntityAt h c ctx fail name
  | _ => exact .refl _

theorem extends_passAt (read : Option (Except Fault (Item × Nat))) :
    Extends (passAt c call ctx text pos read) (passAt c call' ctx text pos read) :=
  .bind (.refl _) fun _ => .bind (extends_handleAt h c ctx _ _) fun _ => .refl _

theorem extends_sectionAt :
    Extends (sectionAt c call ctx text pos) (sectionAt c call' ctx text pos) := by
  refine .bind (.refl _) fun start => .bind (.refl _) fun read => ?_
  refine .bind (.refl _) fun word => .bind (.refl _) fun opened => ?_
  rcases opened with ⟨fault, place⟩ | ⟨kind, next⟩
  · exact .refl _
  · cases kind with
    | included => exact h _
    | ignored => exact .refl _

theorem extends_partAt (part : Part) :
    Extends (partAt c call ctx text pos part) (partAt c call' ctx text pos part) := by
  cases part with
  | conditional => exact extends_sectionAt h c ctx text pos
  | _ => exact extends_passAt h c ctx text pos _

theorem extends_itemAt (d : Char) (t : Text) :
    Extends (itemAt c call ctx text pos d t) (itemAt c call' ctx text pos d t) := by
  unfold itemAt
  cases Part.ofMark? (d :: t) with
  | none => exact .refl _
  | some part => exact extends_partAt h c ctx text pos part

theorem extends_scanSpot (spot : Spot) :
    Extends (scanSpot c call spot) (scanSpot c call' spot) := by
  refine .bind (.refl _) fun landing => ?_
  cases landing with
  | ended pos => exact .refl _
  | failed pos fault => exact .refl _
  | item pos d t => exact .bind (extends_itemAt h c _ _ pos d t) fun _ => h _

end Calls

end Doctype.Markup
