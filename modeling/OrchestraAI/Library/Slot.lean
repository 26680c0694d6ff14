/-! # Slots of a record

What stands under a name of a record where a missing value and a null one are told apart.
-/

universe u v

inductive Slot (α : Type u)
  | undefined
  | null
  | value (a : α)
  deriving DecidableEq

namespace Slot

variable {α : Type u} {β : Type v}

/-- `a ?? b`. -/
def orElse : Slot α → Slot α → Slot α
  | .value a, _ => .value a
  | _, b => b

def map (f : α → β) : Slot α → Slot β
  | .value a => .value (f a)
  | .undefined => .undefined
  | .null => .null

end Slot
