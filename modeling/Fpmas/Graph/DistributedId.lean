import Mathlib.Logic.Basic

set_option autoImplicit false

namespace Fpmas

/-- An id: the rank of the process that created the item, and a local counter. -/
structure DistributedId (P : Type) where
  rank : P
  id : Nat
deriving DecidableEq

-- `id++`, as used by `buildNode` and `link` to number their items.
def DistributedId.next {P : Type} (i : DistributedId P) : DistributedId P :=
  { i with id := i.id + 1 }

@[simp] theorem DistributedId.next_rank {P : Type} (i : DistributedId P) :
    i.next.rank = i.rank := rfl

@[simp] theorem DistributedId.next_id {P : Type} (i : DistributedId P) :
    i.next.id = i.id + 1 := rfl

end Fpmas
