import Fpmas.Graph.GraphView

set_option autoImplicit false

namespace Fpmas.Graph

structure GlobalNode (n : Nat) (T W : Type) where
  owner : Fin n
  data : T
  weight : W

structure GlobalEdge (n : Nat) (W : Type) where
  layer : LayerId
  weight : W
  source : Id n
  target : Id n

/-- The one graph that the processes share. -/
structure GlobalGraph (n : Nat) (T W : Type) where
  node : Id n → Option (GlobalNode n T W)
  edge : Id n → Option (GlobalEdge n W)

variable {n : Nat} {T W : Type}

namespace GlobalEdge

def Touches (edge : GlobalEdge n W) (id : Id n) : Prop :=
  edge.source = id ∨ edge.target = id

-- What a process stores of the edge.
def stored (edge : GlobalEdge n W) (state : LocationState) : DistributedEdge n W where
  layer := edge.layer
  weight := edge.weight
  source := edge.source
  target := edge.target
  state

end GlobalEdge

namespace GlobalGraph

variable (G : GlobalGraph n T W)

def empty : GlobalGraph n T W where
  node _ := none
  edge _ := none

def Owns (p : Fin n) (id : Id n) : Prop := ∃ node, G.node id = some node ∧ node.owner = p

instance (p : Fin n) (id : Id n) : Decidable (G.Owns p id) :=
  decidable_of_iff ((G.node id).any (·.owner = p)) (by simp [Owns, Option.any_eq_true])

def stateAt (p : Fin n) (edge : GlobalEdge n W) : LocationState :=
  if G.Owns p edge.source ∧ G.Owns p edge.target then .LOCAL else .DISTANT

def edgeAt (p : Fin n) (k : Id n) : Option (DistributedEdge n W) :=
  (G.edge k).bind fun edge =>
    if G.Owns p edge.source ∨ G.Owns p edge.target then some (edge.stored (G.stateAt p edge)) else none

variable {G}

theorem owns_unique {p q : Fin n} {id : Id n} (first : G.Owns p id) (second : G.Owns q id) : p = q := by
  obtain ⟨node, found, rfl⟩ := first
  obtain ⟨node', found', rfl⟩ := second
  cases found.symm.trans found'
  rfl

theorem edgeAt_eq_some {p : Fin n} {k : Id n} {e : DistributedEdge n W} :
    G.edgeAt p k = some e ↔ ∃ edge, G.edge k = some edge ∧
      (G.Owns p edge.source ∨ G.Owns p edge.target) ∧ e = edge.stored (G.stateAt p edge) := by
  unfold edgeAt
  rw [Option.bind_eq_some_iff]
  refine exists_congr fun edge => and_congr_right fun _ => ?_
  rw [Option.ite_none_right_eq_some, Option.some.injEq]
  exact and_congr_right fun _ => eq_comm

end GlobalGraph

/-- Every node of `G` is LOCAL on its owner, with its data and weight, and all that the other
processes have of it is a DISTANT node that tells where it is. -/
structure Hosts (G : GlobalGraph n T W) (v : Fin n → GraphView n T W) : Prop where
  rank : ∀ p, (v p).rank = p
  home : ∀ id node, G.node id = some node → (v node.owner).core id =
    some { data := node.data, weight := node.weight, location := node.owner, state := .LOCAL }
  ghost : ∀ p id core, (v p).core id = some core → ∃ node, G.node id = some node ∧
    (p ≠ node.owner → core.state = .DISTANT ∧ core.location = node.owner)
  closed : ∀ k edge, G.edge k = some edge →
    (∃ source, G.node edge.source = some source) ∧ ∃ target, G.node edge.target = some target
  managed : ∀ id node, G.node id = some node → (v id.rank).managed id = some node.owner
  newLocal : ∀ p id, (v p).newLocal id → id.rank = p ∧ ∀ node, G.node id = some node → node.owner = p
  nodeId : ∀ p, (v p).nodeId.rank = p
  edgeId : ∀ p, (v p).edgeId.rank = p
  nodesIssued : ∀ id node, G.node id = some node → id.id < (v id.rank).nodeId.id
  edgesIssued : ∀ k edge, G.edge k = some edge → k.id < (v k.rank).edgeId.id

/-- The processes store `G`, and each of them exactly the edges of its own nodes. -/
structure Represents (G : GlobalGraph n T W) (v : Fin n → GraphView n T W) : Prop
    extends Hosts G v where
  edges : ∀ p k, (v p).edge k = G.edgeAt p k

namespace Hosts

variable {G : GlobalGraph n T W} {v : Fin n → GraphView n T W}

theorem isLocal (hosts : Hosts G v) (p : Fin n) (id : Id n) : (v p).IsLocal id ↔ G.Owns p id := by
  constructor
  · rintro ⟨core, found, state⟩
    obtain ⟨node, inside, elsewhere⟩ := hosts.ghost p id core found
    refine ⟨node, inside, ?_⟩
    by_contra other
    rw [(elsewhere (Ne.symm other)).1] at state
    cases state
  · rintro ⟨node, inside, rfl⟩
    exact ⟨_, hosts.home id node inside, rfl⟩

theorem isDistant (hosts : Hosts G v) {p : Fin n} {id : Id n} (distant : (v p).IsDistant id) :
    ∃ node, G.node id = some node ∧ p ≠ node.owner := by
  obtain ⟨core, found, state⟩ := distant
  obtain ⟨node, inside, _⟩ := hosts.ghost p id core found
  refine ⟨node, inside, ?_⟩
  rintro rfl
  rw [hosts.home id node inside] at found
  cases found
  cases state

theorem ghost_of_owner (hosts : Hosts G v) {p q : Fin n} {id : Id n}
    (owned : G.Owns q id) (away : q ≠ p) {core : NodeCore n T W} (found : (v p).core id = some core) :
    core.state = .DISTANT ∧ core.location = q := by
  obtain ⟨node, inside, elsewhere⟩ := hosts.ghost p id core found
  obtain ⟨node', inside', rfl⟩ := owned
  cases inside.symm.trans inside'
  exact elsewhere (Ne.symm away)

theorem owner_of_ghost (hosts : Hosts G v) {p : Fin n} {id : Id n}
    {core : NodeCore n T W} (found : (v p).core id = some core) (state : core.state = .DISTANT) :
    G.Owns core.location id ∧ core.location ≠ p := by
  obtain ⟨node, inside, away⟩ := hosts.isDistant ⟨core, found, state⟩
  obtain ⟨node', inside', elsewhere⟩ := hosts.ghost p id core found
  cases inside.symm.trans inside'
  have location := (elsewhere away).2
  exact ⟨⟨node, inside, location.symm⟩, fun same => away (same.symm.trans location)⟩

theorem withEdges {v' : Fin n → GraphView n T W} (hosts : Hosts G v)
    {edge : Id n → Option (GlobalEdge n W)} (core : ∀ p, (v' p).core = (v p).core)
    (rank : ∀ p, (v' p).rank = (v p).rank) (managed : ∀ p, (v' p).managed = (v p).managed)
    (newLocal : ∀ p, (v' p).newLocal = (v p).newLocal) (nodeId : ∀ p, (v' p).nodeId = (v p).nodeId)
    (edgeId : ∀ p, (v' p).edgeId.rank = p)
    (closed : ∀ k e, edge k = some e →
      (∃ source, G.node e.source = some source) ∧ ∃ target, G.node e.target = some target)
    (issued : ∀ k e, edge k = some e → k.id < (v' k.rank).edgeId.id) :
    Hosts { G with edge } v' where
  rank p := (rank p).trans (hosts.rank p)
  home id node inside := by rw [core]; exact hosts.home id node inside
  ghost p id c found := hosts.ghost p id c (by rw [← core]; exact found)
  closed := closed
  managed id node inside := by rw [managed]; exact hosts.managed id node inside
  newLocal p id fresh := hosts.newLocal p id (by rw [← newLocal]; exact fresh)
  nodeId p := by rw [nodeId]; exact hosts.nodeId p
  edgeId := edgeId
  nodesIssued id node inside := by rw [nodeId]; exact hosts.nodesIssued id node inside
  edgesIssued := issued

theorem location (hosts : Hosts G v) {p : Fin n} {id : Id n} {core : NodeCore n T W}
    (found : (v p).core id = some core) : G.Owns core.location id := by
  obtain ⟨node, inside, elsewhere⟩ := hosts.ghost p id core found
  refine ⟨node, inside, ?_⟩
  by_cases here : p = node.owner
  · subst here
    rw [hosts.home id node inside] at found
    cases found
    rfl
  · exact (elsewhere here).2.symm

end Hosts

end Fpmas.Graph
