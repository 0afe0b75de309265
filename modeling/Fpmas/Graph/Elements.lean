import Fpmas.Graph.DistributedId
import Fpmas.Library.UnorderedMap

set_option autoImplicit false

namespace Fpmas.Graph

abbrev LayerId := Int

-- Ids of the nodes and of the edges; an id stands for the pointer to the element that has it.
abbrev Id (n : Nat) := DistributedId (Fin n)

inductive LocationState where
  | LOCAL
  | DISTANT
deriving DecidableEq

variable {n : Nat} {T W : Type}

structure DistributedEdge (n : Nat) (W : Type) where
  layer : LayerId
  weight : W
  source : Id n
  target : Id n
  state : LocationState
deriving DecidableEq

-- `incoming_edges` and `outgoing_edges`: the edges of a node, layer by layer.
abbrev EdgeLists (n : Nat) := UnorderedMap LayerId (List (Id n))

namespace EdgeLists

def link (edges : EdgeLists n) (layer : LayerId) (edge : Id n) : EdgeLists n :=
  edges.push layer edge

-- `edges.erase(std::remove(edges.begin(), edges.end(), edge))`, on the list of the layer.
def unlink (edges : EdgeLists n) (layer : LayerId) (edge : Id n) : Option (EdgeLists n) :=
  (edges.lookup layer).bind fun list =>
    let kept := list.filter (· ≠ edge)
    -- `remove` returns the end of the list when it finds no edge, and nothing may be erased there.
    if kept.length = list.length then none
    -- Only one of the slots left behind the kept edges is erased.
    else some (edges.insert layer (kept ++ list.drop (kept.length + 1)))

end EdgeLists

structure DistributedNode (n : Nat) (T W : Type) where
  data : T
  weight : W
  location : Fin n
  state : LocationState
  incomingEdges : EdgeLists n
  outgoingEdges : EdgeLists n

namespace DistributedNode

def build (data : T) (weight : W) (location : Fin n) : DistributedNode n T W where
  data
  weight
  location
  state := .LOCAL
  incomingEdges := ∅
  outgoingEdges := ∅

def getIncomingEdges (order : HashOrder) (node : DistributedNode n T W) : List (Id n) :=
  node.incomingEdges.flatten order

def getOutgoingEdges (order : HashOrder) (node : DistributedNode n T W) : List (Id n) :=
  node.outgoingEdges.flatten order

def linkIn (node : DistributedNode n T W) (layer : LayerId) (edge : Id n) :
    DistributedNode n T W :=
  { node with incomingEdges := node.incomingEdges.link layer edge }

def linkOut (node : DistributedNode n T W) (layer : LayerId) (edge : Id n) :
    DistributedNode n T W :=
  { node with outgoingEdges := node.outgoingEdges.link layer edge }

def unlinkIn (node : DistributedNode n T W) (layer : LayerId) (edge : Id n) :
    Option (DistributedNode n T W) :=
  (node.incomingEdges.unlink layer edge).map fun incomingEdges => { node with incomingEdges }

def unlinkOut (node : DistributedNode n T W) (layer : LayerId) (edge : Id n) :
    Option (DistributedNode n T W) :=
  (node.outgoingEdges.unlink layer edge).map fun outgoingEdges => { node with outgoingEdges }

end DistributedNode

theorem EdgeLists.unlink_once {edges : EdgeLists n} {layer : LayerId} {edge : Id n}
    (member : edge ∈ edges.valuesAt layer) (once : (edges.valuesAt layer).Nodup) :
    ∃ edges', edges.unlink layer edge = some edges' ∧
      ∀ other, edges'.valuesAt other =
        if other = layer then (edges.valuesAt layer).erase edge else edges.valuesAt other := by
  unfold UnorderedMap.valuesAt at member once
  cases found : edges.lookup layer with
  | none =>
    rw [found] at member
    cases member
  | some list =>
    rw [found, Option.getD_some] at member once
    have kept : list.filter (· ≠ edge) = list.erase edge := (once.erase_eq_filter edge).symm ▸ by
      congr 1
      funext x
      simp [bne, Bool.beq_eq_decide_eq]
    have shorter : (list.erase edge).length = list.length - 1 := List.length_erase_of_mem member
    have nonempty : 0 < list.length := List.length_pos_of_mem member
    refine ⟨edges.insert layer (list.erase edge), ?_, fun other => ?_⟩
    · have none_left : list.drop ((list.erase edge).length + 1) = [] := by
        rw [List.drop_eq_nil_iff]
        omega
      simp only [unlink, found, Option.bind_some, kept, none_left, List.append_nil]
      rw [if_neg (by omega)]
    · unfold UnorderedMap.valuesAt
      rw [UnorderedMap.lookup_insert', found]
      split <;> rfl

end Fpmas.Graph
