import Fpmas.Graph.GlobalGraph
import Fpmas.Graph.LocationAgreement
import Fpmas.Synchro.Ghost.GhostMode

set_option autoImplicit false

namespace Fpmas.Synchro.Ghost

open Fpmas.Graph

variable {n : Nat} {T W : Type} {G : GlobalGraph n T W} {order : Fin n → HashOrder}
  {s : Fin n → DistributedGraph n T W}

def refreshed (G : GlobalGraph n T W) (id : Id n) (core : NodeCore n T W) : NodeCore n T W :=
  match G.node id with
  | some node => { core with data := node.data, weight := node.weight }
  | none => core

theorem refreshed_state (id : Id n) (core : NodeCore n T W) :
    (refreshed G id core).state = core.state := by
  unfold refreshed
  split <;> rfl

theorem exportRequests_spec {g : DistributedGraph n T W} (inv : GraphInv g) (order : HashOrder) :
    ∃ requests, exportRequests g order = some requests ∧ ∀ q id, id ∈ requests.valuesAt q ↔
      ∃ core, g.view.core id = some core ∧ core.state = .DISTANT ∧ core.location = q := by
  obtain ⟨requests, result, member⟩ := UnorderedMap.pushAll_mapM
    (f := fun id => (g.getNode id).map fun node => (node.location, id)) (l := g.distantIds order)
    fun id listed => by
      obtain ⟨node, at_, _⟩ := (g.isDistant_iff id).mp ((inv.mem_distantIds order id).mp listed)
      exact ⟨(node.location, id), by rw [at_, Option.map_some]⟩
  refine ⟨requests, result, fun q id => (member q id).trans ?_⟩
  constructor
  · rintro ⟨_, listed, found⟩
    obtain ⟨node, at_, same⟩ := Option.map_eq_some_iff.mp found
    obtain ⟨rfl, rfl⟩ := Prod.mk.inj same
    obtain ⟨core, found, state⟩ := (inv.mem_distantIds order _).mp listed
    refine ⟨core, found, state, ?_⟩
    rw [DistributedGraph.view_core, at_] at found
    cases found
    rfl
  · rintro ⟨core, found, state, rfl⟩
    obtain ⟨node, at_, rfl⟩ := DistributedGraph.getNode_of_view rfl found
    refine ⟨id, (inv.mem_distantIds order id).mpr ⟨_, found, state⟩, ?_⟩
    rw [at_]
    rfl

-- Every request reaches the owner of the node, so that it is answered.
theorem synchronizeData_spec (order : Fin n → HashOrder) (inv : ∀ p, GraphInv (s p))
    (hosts : Hosts G fun p => (s p).view) :
    ∃ s', synchronizeData order s = some s' ∧ ∀ p, GraphInv (s' p) ∧
      (s' p).view = (s p).view.amend (s p).view.IsDistant (refreshed G) := by
  obtain ⟨requests, asked, listed⟩ := collect_some fun p => exportRequests_spec (inv p) (order p)
  have request : ∀ p q id, id ∈ (migrate requests q).valuesAt p ↔ ∃ core,
      (s p).view.core id = some core ∧ core.state = .DISTANT ∧ core.location = q := by
    intro p q id
    rw [valuesAt_migrate, listed]
  have hosted : ∀ p q id, id ∈ (migrate requests q).valuesAt p → ∃ node found,
      G.node id = some node ∧ (s q).getNode id = some found ∧ found.data = node.data ∧
      found.weight = node.weight := by
    intro p q id member
    obtain ⟨core, found, state, location⟩ := (request p q id).mp member
    obtain ⟨node, inside, away⟩ := hosts.isDistant ⟨core, found, state⟩
    obtain ⟨node', inside', elsewhere⟩ := hosts.ghost p id core found
    cases inside.symm.trans inside'
    have owner : node.owner = q := (elsewhere away).2.symm.trans location
    have home := hosts.home id node inside
    rw [owner] at home
    obtain ⟨here, at_, core'⟩ := DistributedGraph.getNode_of_view rfl home
    exact ⟨node, here, inside, at_, congrArg NodeCore.data core', congrArg NodeCore.weight core'⟩
  have answers : ∀ q, ∃ updates, exportData (s q) (order q) (migrate requests q) = some updates ∧
      ∀ p pack, pack ∈ updates.valuesAt p ↔ pack.id ∈ (migrate requests q).valuesAt p ∧
        ∃ node, G.node pack.id = some node ∧ pack.updatedData = node.data ∧
          pack.updatedWeight = node.weight := by
    intro q
    obtain ⟨updates, result, member⟩ := UnorderedMap.pushAll_mapM
      (f := fun message : Fin n × Id n => ((s q).getNode message.2).map fun node =>
        (message.1, ({ id := message.2, updatedData := node.data, updatedWeight := node.weight } :
          NodeUpdatePack n T W)))
      (l := (migrate requests q).messages (order q)) fun message inside => by
        obtain ⟨_, found, _, at_, _⟩ := hosted message.1 q message.2
          ((UnorderedMap.mem_messages _ _ _ _).mp inside)
        exact ⟨_, by rw [at_, Option.map_some]⟩
    refine ⟨updates, result, fun p pack => (member p pack).trans ?_⟩
    constructor
    · rintro ⟨⟨p', id⟩, inside, built⟩
      rw [UnorderedMap.mem_messages] at inside
      obtain ⟨node, found, insideG, at_, data, weight⟩ := hosted p' q id inside
      rw [at_, Option.map_some, Option.some.injEq, Prod.mk.injEq] at built
      obtain ⟨rfl, rfl⟩ := built
      exact ⟨inside, node, insideG, data, weight⟩
    · rintro ⟨inside, node, insideG, data, weight⟩
      obtain ⟨node', found, insideG', at_, data', weight'⟩ := hosted p q pack.id inside
      cases insideG.symm.trans insideG'
      refine ⟨(p, pack.id), (UnorderedMap.mem_messages _ _ _ _).mpr inside, ?_⟩
      rw [at_, Option.map_some, data', weight', ← data, ← weight]
  obtain ⟨updates, answered, packs⟩ := collect_some answers
  have imports : ∀ p, Refines (importData (s p) (order p) (migrate updates p))
      ((s p).view.amend (s p).view.IsDistant (refreshed G)) := by
    intro p
    have received : ∀ pack, pack ∈ (migrate updates p).flatten (order p) ↔
        (s p).view.IsDistant pack.id ∧ ∃ node, G.node pack.id = some node ∧
          pack.updatedData = node.data ∧ pack.updatedWeight = node.weight := by
      intro pack
      rw [UnorderedMap.mem_flatten]
      simp only [valuesAt_migrate, packs, listed]
      constructor
      · rintro ⟨q, ⟨core, found, state, _⟩, content⟩
        exact ⟨⟨core, found, state⟩, content⟩
      · rintro ⟨⟨core, found, state⟩, content⟩
        exact ⟨core.location, ⟨core, found, state, rfl⟩, content⟩
    have listed : (s p).view.IsDistant =
        (· ∈ ((migrate updates p).flatten (order p)).map (·.id)) := by
      funext id
      refine propext ⟨fun distant => ?_, fun member => ?_⟩
      · obtain ⟨node, inside, _⟩ := hosts.isDistant distant
        exact List.mem_map.mpr ⟨⟨id, node.data, node.weight⟩,
          (received _).mpr ⟨distant, node, inside, rfl, rfl⟩, rfl⟩
      · obtain ⟨pack, arrived, rfl⟩ := List.mem_map.mp member
        exact ((received pack).mp arrived).1
    rw [listed]
    refine (inv p).amend (fun pack : NodeUpdatePack n T W => pack.id) refreshed_state ?_ rfl ?_ ?_
    · intro id core
      unfold refreshed
      cases G.node id <;> rfl
    · intro g pack node _ _ member _ at_
      obtain ⟨_, content, inside, data, weight⟩ := (received pack).mp member
      refine ⟨{ node with data := pack.updatedData, weight := pack.updatedWeight }, ?_, ?_, rfl, rfl⟩
      · rw [at_, Option.map_some]
      · unfold refreshed
        rw [inside, data, weight]
        rfl
    · exact fun pack member => ((received pack).mp member).1
  obtain ⟨s', result, good⟩ := collect_some imports
  refine ⟨s', ?_, good⟩
  unfold synchronizeData
  rw [asked, Option.bind_some, answered, Option.bind_some]
  exact result

theorem refreshed_of_node {id : Id n} {node : GlobalNode n T W} (inside : G.node id = some node)
    (core : NodeCore n T W) :
    refreshed G id core = { core with data := node.data, weight := node.weight } := by
  unfold refreshed
  rw [inside]

theorem synchronizeData_represents (order : Fin n → HashOrder) (inv : ∀ p, GraphInv (s p))
    (represents : Represents G fun p => (s p).view) :
    ∃ s', synchronizeData order s = some s' ∧ (∀ p, GraphInv (s' p)) ∧
      (Represents G fun p => (s' p).view) ∧
      ∀ p id core, (s' p).view.core id = some core → ∃ node, G.node id = some node ∧
        core.data = node.data ∧ core.weight = node.weight := by
  obtain ⟨s', result, good⟩ := synchronizeData_spec order inv represents.toHosts
  have view := fun p => (good p).2
  have core : ∀ p id c, (s' p).view.core id = some c → ∃ c' node, (s p).view.core id = some c' ∧
      G.node id = some node ∧ c.state = c'.state ∧ c.location = c'.location ∧
      c.data = node.data ∧ c.weight = node.weight := by
    intro p id c found
    rw [view] at found
    by_cases distant : (s p).view.IsDistant id
    · simp only [GraphView.amend, if_pos distant] at found
      obtain ⟨c', before, same⟩ := Option.map_eq_some_iff.mp found
      obtain ⟨node, inside, _⟩ := represents.ghost p id c' before
      rw [refreshed_of_node inside] at same
      subst same
      exact ⟨c', node, before, inside, rfl, rfl, rfl, rfl⟩
    · simp only [GraphView.amend, if_neg distant] at found
      obtain ⟨node, inside, away⟩ := represents.ghost p id c found
      have here : p = node.owner := by
        by_contra other
        exact distant ⟨c, found, (away other).1⟩
      have home := represents.home id node inside
      rw [← here, found] at home
      cases home
      exact ⟨_, node, found, inside, rfl, rfl, rfl, rfl⟩
  have field : ∀ {α : Type} (f : GraphView n T W → α),
      (∀ v core, f { v with core } = f v) → ∀ q, f (s' q).view = f (s q).view := by
    intro α f same q
    rw [view]
    exact same _ _
  refine ⟨s', result, fun p => (good p).1, ⟨⟨?_, ?_, ?_, represents.closed, ?_, ?_, ?_, ?_, ?_, ?_⟩, ?_⟩, ?_⟩
  · intro p
    rw [field GraphView.rank fun _ _ => rfl]
    exact represents.rank p
  · intro id node inside
    have home := represents.home id node inside
    have near : ¬ (s node.owner).view.IsDistant id := by
      rintro ⟨c, found, state⟩
      cases home.symm.trans found
      cases state
    rw [view]
    simp only [GraphView.amend, if_neg near]
    exact home
  · intro p id c found
    obtain ⟨c', _, before, _, state, location, _⟩ := core p id c found
    obtain ⟨node, inside, away⟩ := represents.ghost p id c' before
    refine ⟨node, inside, fun other => ?_⟩
    rw [state, location]
    exact away other
  · intro id node inside
    rw [field GraphView.managed fun _ _ => rfl]
    exact represents.managed id node inside
  · intro p id fresh
    rw [field GraphView.newLocal fun _ _ => rfl] at fresh
    exact represents.newLocal p id fresh
  · intro p
    rw [field GraphView.nodeId fun _ _ => rfl]
    exact represents.nodeId p
  · intro p
    rw [field GraphView.edgeId fun _ _ => rfl]
    exact represents.edgeId p
  · intro id node inside
    rw [field GraphView.nodeId fun _ _ => rfl]
    exact represents.nodesIssued id node inside
  · intro k edge inside
    rw [field GraphView.edgeId fun _ _ => rfl]
    exact represents.edgesIssued k edge inside
  · intro p k
    rw [field GraphView.edge fun _ _ => rfl]
    exact represents.edges p k
  · intro p id c found
    obtain ⟨_, node, _, inside, _, _, data, weight⟩ := core p id c found
    exact ⟨node, inside, data, weight⟩

-- `getNode` throws on a process that is asked for a node it does not have.
theorem synchronizeData_throws (order : Fin n → HashOrder) (inv : ∀ p, GraphInv (s p)) {p : Fin n}
    {id : Id n} {core : NodeCore n T W} (found : (s p).view.core id = some core)
    (state : core.state = .DISTANT) (absent : (s core.location).getNode id = none) :
    synchronizeData order s = none := by
  obtain ⟨requests, asked, listed⟩ := collect_some fun p => exportRequests_spec (inv p) (order p)
  unfold synchronizeData
  rw [asked, Option.bind_some, Option.bind_eq_none_iff]
  intro updates answered
  have answer := collect_eq_some.mp answered core.location
  obtain ⟨items, read, _⟩ := Option.map_eq_some_iff.mp answer
  have request : (p, id) ∈ (migrate requests core.location).messages (order core.location) := by
    rw [UnorderedMap.mem_messages, valuesAt_migrate, listed]
    exact ⟨core, found, state, rfl⟩
  obtain ⟨_, image⟩ := List.each_some read _ request
  rw [absent] at image
  cases image

end Fpmas.Synchro.Ghost
