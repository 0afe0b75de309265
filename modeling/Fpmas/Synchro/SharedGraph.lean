import Fpmas.Library.TransitionSystem
import Fpmas.Synchro.Ghost.Synchronize

set_option autoImplicit false

namespace Fpmas.Graph

variable {n : Nat} {T W : Type}

/-- What a user does to a graph that is in one place. -/
inductive GraphEvent (n : Nat) (T W : Type) where
  | buildNode (owner : Fin n) (id : Id n) (data : T)
  | setData (owner : Fin n) (id : Id n) (data : T) (weight : W)
  | link (id : Id n) (edge : GlobalEdge n W)
  | unlink (id : Id n)
  | removeNode (id : Id n)
  | distribute (partition : Fin n → PartitionMap n)
  | nothing

namespace GlobalGraph

/-- New elements have new ids, a link to a node that is not there any more does nothing, a node
leaves with its edges, and there is nothing to synchronize. -/
noncomputable def next [One W] (G : GlobalGraph n T W) :
    GraphEvent n T W → Option (GlobalGraph n T W)
  | .buildNode owner id data => if (G.node id).isSome then none else some (G.buildNode owner id data)
  | .setData owner id data weight => some (G.setData owner id data weight)
  | .link id edge =>
    if (G.edge id).isSome then none
    else if (G.node edge.source).isSome ∧ (G.node edge.target).isSome then some (G.link id edge)
    else some G
  | .unlink id => some (G.unlink id)
  | .removeNode id => some (G.removeNodes (· = id))
  | .distribute partition => some (G.distributed partition)
  | .nothing => some G

end GlobalGraph

noncomputable def sharedGraph (n : Nat) (T W : Type) [One W] :
    TransitionSystem (GlobalGraph n T W) (GraphEvent n T W) where
  init G := G = .empty
  next := GlobalGraph.next

namespace GlobalGraph

variable {G : GlobalGraph n T W} {ids : Id n → Prop}

theorem eq_of_some {G H : GlobalGraph n T W} (node : ∀ id found, G.node id = some found ↔ H.node id = some found)
    (edge : ∀ k found, G.edge k = some found ↔ H.edge k = some found) : G = H := by
  cases G
  cases H
  congr 1
  · exact funext fun id => Option.ext (node id)
  · exact funext fun k => Option.ext (edge k)

theorem removeNodes_removeNodes (ids' : Id n → Prop) :
    (G.removeNodes ids).removeNodes ids' = G.removeNodes fun id => ids id ∨ ids' id := by
  refine eq_of_some (fun id found => ?_) fun k found => ?_
  · simp only [removeNodes_node]
    tauto
  · simp only [removeNodes_edge]
    tauto

theorem isSome_removeNodes {id : Id n} :
    ((G.removeNodes ids).node id).isSome ↔ (G.node id).isSome ∧ ¬ ids id := by
  simp only [Option.isSome_iff_exists, removeNodes_node]
  exact exists_and_right

theorem removeNodes_buildNode [One W] {p : Fin n} {id : Id n} {data : T} (new : ¬ ids id) :
    (G.buildNode p id data).removeNodes ids = (G.removeNodes ids).buildNode p id data := by
  refine eq_of_some (fun x found => ?_) fun k found => ?_
  · rw [removeNodes_node, buildNode_node, buildNode_node]
    split
    case isTrue here => exact and_iff_left (here ▸ new)
    case isFalse => exact removeNodes_node.symm
  · exact removeNodes_edge.trans removeNodes_edge.symm

theorem removeNodes_setData {p : Fin n} {id : Id n} {data : T} {weight : W} :
    (G.setData p id data weight).removeNodes ids = (G.removeNodes ids).setData p id data weight := by
  refine eq_of_some (fun x found => ?_) fun k found => ?_
  · simp only [removeNodes_node, setData, Option.map_eq_some_iff]
    constructor
    · rintro ⟨⟨node, inside, same⟩, kept⟩
      exact ⟨node, ⟨inside, kept⟩, same⟩
    · rintro ⟨node, ⟨inside, kept⟩, same⟩
      exact ⟨⟨node, inside, same⟩, kept⟩
  · exact removeNodes_edge.trans removeNodes_edge.symm

theorem removeNodes_unlink {k : Id n} :
    (G.unlink k).removeNodes ids = (G.removeNodes ids).unlink k := by
  refine eq_of_some (fun x found => removeNodes_node.trans removeNodes_node.symm) fun j found => ?_
  rw [removeNodes_edge, unlink_edge, unlink_edge]
  split
  · simp
  · exact removeNodes_edge.symm

theorem removeNodes_link {k : Id n} {edge : GlobalEdge n W} (source : ¬ ids edge.source)
    (target : ¬ ids edge.target) :
    (G.link k edge).removeNodes ids = (G.removeNodes ids).link k edge := by
  refine eq_of_some (fun x found => removeNodes_node.trans removeNodes_node.symm) fun j found => ?_
  rw [removeNodes_edge, link_edge, link_edge]
  split
  · refine and_iff_left_of_imp fun same => ?_
    cases same
    exact ⟨source, target⟩
  · exact removeNodes_edge.symm

theorem removeNodes_link_of_removed {k : Id n} {edge : GlobalEdge n W} (fresh : G.edge k = none)
    (removed : ids edge.source ∨ ids edge.target) :
    (G.link k edge).removeNodes ids = G.removeNodes ids := by
  refine eq_of_some (fun x found => removeNodes_node.trans removeNodes_node.symm) fun j found => ?_
  rw [removeNodes_edge, removeNodes_edge, link_edge]
  split
  case isTrue here =>
    subst here
    rw [fresh]
    constructor
    · rintro ⟨same, source, target⟩
      cases same
      exact (removed.elim source target).elim
    · rintro ⟨none_, _⟩
      cases none_
  case isFalse => rfl

theorem removeNodes_without {gone : Id n → Prop}
    (touched : ∀ k edge, G.edge k = some edge → gone k → ids edge.source ∨ ids edge.target) :
    (G.without gone).removeNodes ids = G.removeNodes ids := by
  refine eq_of_some (fun x found => removeNodes_node.trans removeNodes_node.symm) fun k edge => ?_
  rw [removeNodes_edge, removeNodes_edge, without_edge]
  refine and_congr_left fun kept => and_iff_left_of_imp fun inside left => ?_
  exact (touched k edge inside left).elim kept.1 kept.2

end GlobalGraph

/-- What the processes have of the graph `A` at any time, apart from the nodes that they are to erase. -/
structure Stores (A : GlobalGraph n T W) (v : Fin n → GraphView n T W) (erased : Id n → Prop) : Prop where
  owns : ∀ p id, (v p).IsLocal id ∧ ¬ erased id ↔ A.Owns p id
  home : ∀ id node, A.node id = some node → (v node.owner).core id =
    some { data := node.data, weight := node.weight, location := node.owner, state := .LOCAL }
  ghost : ∀ p id core, (v p).core id = some core → ¬ erased id → A.Owns core.location id
  edge : ∀ p k e edge, (v p).edge k = some e → A.edge k = some edge → ∃ state, e = edge.stored state
  fresh : ∀ p, A.node (v p).nodeId = none ∧ A.edge (v p).edgeId = none

end Fpmas.Graph
