import Fpmas.Graph.GraphView

set_option autoImplicit false

namespace Fpmas.Graph

variable {n : Nat} {T W : Type}

-- The lists hold exactly the edges that are incident on each layer, once each.
def EdgeLists.Lists (lists : EdgeLists n) (incident : Id n → LayerId → Prop) : Prop :=
  ∀ layer, (lists.valuesAt layer).Nodup ∧ ∀ k, k ∈ lists.valuesAt layer ↔ incident k layer

namespace EdgeLists.Lists

variable {lists : EdgeLists n} {incident incident' : Id n → LayerId → Prop}

theorem congr (h : lists.Lists incident) (same : ∀ k layer, incident' k layer ↔ incident k layer) :
    lists.Lists incident' :=
  fun layer => ⟨(h layer).1, fun k => ((h layer).2 k).trans (same k layer).symm⟩

theorem empty (none : ∀ k layer, ¬ incident k layer) :
    (∅ : EdgeLists n).Lists incident := by
  intro layer
  simp [none]

theorem link (h : lists.Lists incident) {layer : LayerId} {edge : Id n}
    (fresh : ¬ incident edge layer) :
    (lists.link layer edge).Lists fun k l => incident k l ∨ k = edge ∧ l = layer := by
  intro other
  unfold EdgeLists.link
  rw [UnorderedMap.valuesAt_push]
  split
  case isTrue same =>
    subst same
    constructor
    · rw [List.nodup_append]
      refine ⟨(h other).1, List.nodup_singleton edge, ?_⟩
      intro k member k' single same
      rw [List.mem_singleton.mp single] at same
      exact fresh (((h other).2 edge).mp (same ▸ member))
    · intro k
      rw [List.mem_append, (h other).2, List.mem_singleton]
      simp
  case isFalse different =>
    refine ⟨(h other).1, fun k => ?_⟩
    rw [(h other).2]
    simp [different]

theorem unlink (h : lists.Lists incident) {layer : LayerId} {edge : Id n}
    (listed : incident edge layer) (one : ∀ l, incident edge l → l = layer) :
    ∃ lists', lists.unlink layer edge = some lists' ∧
      lists'.Lists fun k l => k ≠ edge ∧ incident k l := by
  obtain ⟨lists', result, values⟩ := EdgeLists.unlink_once (((h layer).2 edge).mpr listed)
    (h layer).1
  refine ⟨lists', result, fun other => ?_⟩
  rw [values]
  split
  case isTrue same =>
    subst same
    refine ⟨(h other).1.erase edge, fun k => ?_⟩
    rw [(h other).1.mem_erase_iff, (h other).2]
  case isFalse different =>
    refine ⟨(h other).1, fun k => ?_⟩
    rw [(h other).2]
    constructor
    · intro found
      refine ⟨?_, found⟩
      rintro rfl
      exact different (one other found)
    · exact And.right

theorem mem_flatten (h : lists.Lists incident) (order : HashOrder) (k : Id n) :
    k ∈ lists.flatten order ↔ ∃ layer, incident k layer := by
  rw [UnorderedMap.mem_flatten]
  exact exists_congr fun layer => (h layer).2 k

theorem nodup_flatten (h : lists.Lists incident) (order : HashOrder)
    (one : ∀ k l l', incident k l → incident k l' → l = l') : (lists.flatten order).Nodup := by
  apply UnorderedMap.nodup_flatten
  · exact fun layer => (h layer).1
  · intro l l' k left right
    exact one k l l' (((h l).2 k).mp left) (((h l').2 k).mp right)

end EdgeLists.Lists

/-- The representation invariant of the graph of one process. -/
structure GraphInv (g : DistributedGraph n T W) : Prop where
  source : ∀ k e, g.getEdge k = some e → ∃ node, g.getNode e.source = some node
  target : ∀ k e, g.getEdge k = some e → ∃ node, g.getNode e.target = some node
  outgoing : ∀ id node, g.getNode id = some node → node.outgoingEdges.Lists fun k layer =>
    ∃ e, g.getEdge k = some e ∧ e.source = id ∧ e.layer = layer
  incoming : ∀ id node, g.getNode id = some node → node.incomingEdges.Lists fun k layer =>
    ∃ e, g.getEdge k = some e ∧ e.target = id ∧ e.layer = layer
  localNodes : ∀ id, id ∈ g.locationManager.localNodes ↔ g.view.IsLocal id
  distantNodes : ∀ id, id ∈ g.locationManager.distantNodes ↔ g.view.IsDistant id

/-- A step of the graph does not fail, keeps the invariant and gives the view `v`. -/
def Refines (result : Option (DistributedGraph n T W)) (v : GraphView n T W) : Prop :=
  ∃ g, result = some g ∧ GraphInv g ∧ g.view = v

namespace Refines

variable {result : Option (DistributedGraph n T W)} {v v' : GraphView n T W}

theorem some {g : DistributedGraph n T W} (inv : GraphInv g) : Refines (some g) g.view :=
  ⟨g, rfl, inv, rfl⟩

theorem bind (h : Refines result v)
    {f : DistributedGraph n T W → Option (DistributedGraph n T W)}
    (next : ∀ g, GraphInv g → g.view = v → Refines (f g) v') : Refines (result.bind f) v' := by
  obtain ⟨g, rfl, inv, view⟩ := h
  exact next g inv view

-- A loop refines the loop of the steps on views, while `pre` tells that the rest can be done.
theorem foldlM {α : Type} {f : DistributedGraph n T W → α → Option (DistributedGraph n T W)}
    {step : GraphView n T W → α → GraphView n T W} (pre : GraphView n T W → List α → Prop)
    (once : ∀ g x rest, GraphInv g → pre g.view (x :: rest) → Refines (f g x) (step g.view x))
    (later : ∀ v x rest, pre v (x :: rest) → pre (step v x) rest)
    {l : List α} {g : DistributedGraph n T W} (inv : GraphInv g) (ready : pre g.view l) :
    Refines (l.foldlM f g) (l.foldl step g.view) := by
  induction l generalizing g with
  | nil => exact Refines.some inv
  | cons x rest ih =>
    rw [List.foldlM_cons, List.foldl_cons]
    refine (once g x rest inv ready).bind fun g' inv' view => ?_
    rw [← view]
    exact ih inv' (view ▸ later _ x rest ready)

end Refines

namespace DistributedGraph

variable (g : DistributedGraph n T W)

theorem getNode_setNode (id other : Id n) (node : DistributedNode n T W) :
    (g.setNode id node).getNode other = if other = id then some node else g.getNode other :=
  UnorderedMap.lookup_insert' _ _ _ _

@[simp] theorem getEdge_setNode (id k : Id n) (node : DistributedNode n T W) :
    (g.setNode id node).getEdge k = g.getEdge k := rfl

theorem view_core (id : Id n) : g.view.core id = (g.getNode id).map (·.core) := rfl
@[simp] theorem view_edge (id : Id n) : g.view.edge id = g.getEdge id := rfl
@[simp] theorem view_rank : g.view.rank = g.rank := rfl

theorem isLocal_iff (id : Id n) :
    g.view.IsLocal id ↔ ∃ node, g.getNode id = some node ∧ node.state = .LOCAL := by
  unfold GraphView.IsLocal
  rw [view_core]
  cases g.getNode id <;> simp [DistributedNode.core]

theorem isDistant_iff (id : Id n) :
    g.view.IsDistant id ↔ ∃ node, g.getNode id = some node ∧ node.state = .DISTANT := by
  unfold GraphView.IsDistant
  rw [view_core]
  cases g.getNode id <;> simp [DistributedNode.core]

end DistributedGraph

theorem graphInv_empty (p : Fin n) : GraphInv (DistributedGraph.empty p : DistributedGraph n T W) := by
  have noNode : ∀ id, (DistributedGraph.empty p : DistributedGraph n T W).getNode id = none :=
    fun _ => rfl
  have noEdge : ∀ k, (DistributedGraph.empty p : DistributedGraph n T W).getEdge k = none :=
    fun _ => rfl
  have none_ : ∀ id, ¬ id ∈ (∅ : NodeMap n) := fun id => AList.notMem_empty id
  refine ⟨?_, ?_, ?_, ?_, ?_, ?_⟩
  · intro k e found
    cases (noEdge k).symm.trans found
  · intro k e found
    cases (noEdge k).symm.trans found
  · intro id node at_
    cases (noNode id).symm.trans at_
  · intro id node at_
    cases (noNode id).symm.trans at_
  · intro id
    refine iff_of_false (none_ id) ?_
    rw [DistributedGraph.isLocal_iff]
    rintro ⟨node, at_, _⟩
    cases (noNode id).symm.trans at_
  · intro id
    refine iff_of_false (none_ id) ?_
    rw [DistributedGraph.isDistant_iff]
    rintro ⟨node, at_, _⟩
    cases (noNode id).symm.trans at_

section

variable {g : DistributedGraph n T W}

-- Both ends of a loop are the same node: the second write must not undo the first one.
theorem DistributedGraph.eraseEdge_eq {k : Id n} {e : DistributedEdge n W}
    {source target : DistributedNode n T W} {out into : EdgeLists n}
    (found : g.getEdge k = some e) (atSource : g.getNode e.source = some source)
    (atTarget : g.getNode e.target = some target)
    (unlinkedOut : source.outgoingEdges.unlink e.layer k = some out)
    (unlinkedIn : target.incomingEdges.unlink e.layer k = some into) :
    ∃ g', g.eraseEdge k = some g' ∧
      (∀ id, g'.getNode id = (g.getNode id).map fun node =>
        { node with
          outgoingEdges := if id = e.source then out else node.outgoingEdges
          incomingEdges := if id = e.target then into else node.incomingEdges }) ∧
      g' = { g with nodes := g'.nodes, edges := g.edges.erase k } := by
  by_cases loop : e.target = e.source
  · rw [loop, atSource] at atTarget
    cases atTarget
    let written := (g.setNode e.source { source with outgoingEdges := out }).setNode e.source
      { source with outgoingEdges := out, incomingEdges := into }
    refine ⟨{ written with edges := g.edges.erase k }, ?_, ?_, ?_⟩
    · simp only [DistributedGraph.eraseEdge, found, Option.bind_some, atSource,
        DistributedNode.unlinkOut, DistributedNode.unlinkIn, unlinkedOut, Option.map_some,
        DistributedGraph.getNode_setNode, loop, if_true, unlinkedIn]
      rfl
    · intro id
      show written.getNode id = _
      simp only [written, DistributedGraph.getNode_setNode, loop]
      by_cases here : id = e.source
      · subst here
        simp [atSource]
      · simp [here]
    · rfl
  · let written := (g.setNode e.source { source with outgoingEdges := out }).setNode e.target
      { target with incomingEdges := into }
    refine ⟨{ written with edges := g.edges.erase k }, ?_, ?_, ?_⟩
    · simp only [DistributedGraph.eraseEdge, found, Option.bind_some, atSource,
        DistributedNode.unlinkOut, DistributedNode.unlinkIn, unlinkedOut, Option.map_some,
        DistributedGraph.getNode_setNode, loop, if_false, atTarget, unlinkedIn]
      rfl
    · intro id
      show written.getNode id = _
      simp only [written, DistributedGraph.getNode_setNode]
      by_cases here : id = e.target
      · subst here
        simp [atTarget, loop]
      · by_cases there : id = e.source
        · subst there
          simp [atSource, here]
        · simp [here, there]
    · rfl

theorem GraphInv.eraseEdge (inv : GraphInv g) {k : Id n} {e : DistributedEdge n W}
    (found : g.getEdge k = some e) : Refines (g.eraseEdge k) (g.view.eraseEdge k) := by
  obtain ⟨source, atSource⟩ := inv.source k e found
  obtain ⟨target, atTarget⟩ := inv.target k e found
  obtain ⟨out, unlinkedOut, outLists⟩ := (inv.outgoing _ _ atSource).unlink
    ⟨e, found, rfl, rfl⟩ (by
      rintro l ⟨e', found', _, layer⟩
      cases found.symm.trans found'
      exact layer.symm)
  obtain ⟨into, unlinkedIn, inLists⟩ := (inv.incoming _ _ atTarget).unlink
    ⟨e, found, rfl, rfl⟩ (by
      rintro l ⟨e', found', _, layer⟩
      cases found.symm.trans found'
      exact layer.symm)
  obtain ⟨g', result, nodes, rest⟩ := DistributedGraph.eraseEdge_eq found atSource atTarget
    unlinkedOut unlinkedIn
  have edges : ∀ j, g'.getEdge j = if j = k then none else g.getEdge j := by
    intro j
    rw [rest]
    exact UnorderedMap.lookup_erase' _ _ _
  have core : ∀ id, g'.view.core id = g.view.core id := by
    intro id
    rw [DistributedGraph.view_core, nodes, DistributedGraph.view_core, Option.map_map]
    rfl
  have view : g'.view = g.view.eraseEdge k := by
    ext1
    case rank => rw [rest]; rfl
    case core => exact funext core
    case edge =>
      funext j
      rw [DistributedGraph.view_edge, edges]
      by_cases same : j = k
      · subst same
        simp [GraphView.eraseEdge]
      · simp [GraphView.eraseEdge, same]
    case managed => rw [rest]; rfl
    case newLocal => rw [rest]; rfl
    case nodeId => rw [rest]; rfl
    case edgeId => rw [rest]; rfl
  have states : ∀ id, (g'.view.IsLocal id ↔ g.view.IsLocal id) ∧
      (g'.view.IsDistant id ↔ g.view.IsDistant id) := by
    intro id
    unfold GraphView.IsLocal GraphView.IsDistant
    rw [core]
    exact ⟨Iff.rfl, Iff.rfl⟩
  have present : ∀ id, (∃ node, g.getNode id = some node) → ∃ node, g'.getNode id = some node := by
    rintro id ⟨node, at_⟩
    exact ⟨_, (nodes id).trans (by rw [at_]; rfl)⟩
  refine ⟨g', result, ⟨?_, ?_, ?_, ?_, ?_, ?_⟩, view⟩
  · intro j f found'
    rw [edges] at found'
    split at found'
    · cases found'
    · exact present _ (inv.source j f found')
  · intro j f found'
    rw [edges] at found'
    split at found'
    · cases found'
    · exact present _ (inv.target j f found')
  · intro id node at_
    rw [nodes] at at_
    obtain ⟨old, before, rfl⟩ := Option.map_eq_some_iff.mp at_
    simp only [edges]
    by_cases here : id = e.source
    · subst here
      simp only [if_true]
      refine outLists.congr fun j layer => ?_
      by_cases same : j = k <;> simp [same]
    · simp only [if_neg here]
      refine (inv.outgoing id old before).congr fun j layer => ?_
      by_cases same : j = k
      · subst same
        simp only [if_true, reduceCtorEq, false_and, exists_false, false_iff]
        rintro ⟨f, found', source', _⟩
        cases found.symm.trans found'
        exact here source'.symm
      · simp [same]
  · intro id node at_
    rw [nodes] at at_
    obtain ⟨old, before, rfl⟩ := Option.map_eq_some_iff.mp at_
    simp only [edges]
    by_cases here : id = e.target
    · subst here
      simp only [if_true]
      refine inLists.congr fun j layer => ?_
      by_cases same : j = k <;> simp [same]
    · simp only [if_neg here]
      refine (inv.incoming id old before).congr fun j layer => ?_
      by_cases same : j = k
      · subst same
        simp only [if_true, reduceCtorEq, false_and, exists_false, false_iff]
        rintro ⟨f, found', target', _⟩
        cases found.symm.trans found'
        exact here target'.symm
      · simp [same]
  · intro id
    rw [(states id).1, ← inv.localNodes id, rest]
  · intro id
    rw [(states id).2, ← inv.distantNodes id, rest]

theorem GraphView.foldl_eraseEdge (v : GraphView n T W) (ids : List (Id n)) :
    ids.foldl GraphView.eraseEdge v = v.eraseEdges (· ∈ ids) := by
  classical
  induction ids generalizing v with
  | nil => simp [GraphView.eraseEdges]
  | cons k rest ih =>
    rw [List.foldl_cons, ih]
    ext1 <;> try rfl
    funext j
    simp only [GraphView.eraseEdges, GraphView.eraseEdge, List.mem_cons, Function.update_apply]
    by_cases inside : j ∈ rest
    · simp [inside]
    · simp [inside]

theorem GraphInv.eraseEdges (inv : GraphInv g) {ids : List (Id n)} (once : ids.Nodup)
    (present : ∀ k ∈ ids, ∃ e, g.getEdge k = some e) :
    Refines (g.eraseEdges ids) (g.view.eraseEdges (· ∈ ids)) := by
  rw [← GraphView.foldl_eraseEdge]
  apply Refines.foldlM (fun v l => l.Nodup ∧ ∀ k ∈ l, ∃ e, v.edge k = some e)
  · rintro g k rest inv ⟨_, present⟩
    obtain ⟨e, found⟩ := present k List.mem_cons_self
    exact inv.eraseEdge found
  · rintro v k rest ⟨once, present⟩
    rw [List.nodup_cons] at once
    refine ⟨once.2, fun j member => ?_⟩
    have other : j ≠ k := fun same => once.1 (same ▸ member)
    obtain ⟨e, found⟩ := present j (List.mem_cons_of_mem k member)
    exact ⟨e, by simp only [GraphView.eraseEdge, Function.update_of_ne other, found]⟩
  · exact inv
  · exact ⟨once, present⟩

-- Edges that have left the graph already are skipped.
theorem GraphInv.erasePresent (inv : GraphInv g) (ids : List (Id n)) :
    Refines (ids.foldlM (fun g id => if id ∈ g.edges then g.eraseEdge id else some g) g)
      (g.view.eraseEdges (· ∈ ids)) := by
  rw [← GraphView.foldl_eraseEdge]
  apply Refines.foldlM (fun _ _ => True)
  · intro g k rest inv _
    by_cases present : k ∈ g.edges
    · rw [if_pos present]
      obtain ⟨e, found⟩ := (UnorderedMap.mem_iff_lookup g.edges k).mp present
      exact inv.eraseEdge found
    · rw [if_neg present]
      have absent : g.view.edge k = none := AList.lookup_eq_none.mpr present
      have same : g.view.eraseEdge k = g.view := by
        unfold GraphView.eraseEdge
        rw [← absent, Function.update_eq_self]
      rw [same]
      exact Refines.some inv
  · exact fun _ _ _ _ => trivial
  · exact inv
  · trivial

section

variable (inv : GraphInv g) (order : HashOrder) {id : Id n} {node : DistributedNode n T W}
  (at_ : g.getNode id = some node)

include inv at_

theorem GraphInv.mem_getIncomingEdges (k : Id n) :
    k ∈ node.getIncomingEdges order ↔ ∃ e, g.getEdge k = some e ∧ e.target = id := by
  unfold DistributedNode.getIncomingEdges
  rw [(inv.incoming id node at_).mem_flatten]
  constructor
  · rintro ⟨_, e, found, target, _⟩
    exact ⟨e, found, target⟩
  · rintro ⟨e, found, target⟩
    exact ⟨e.layer, e, found, target, rfl⟩

theorem GraphInv.mem_getOutgoingEdges (k : Id n) :
    k ∈ node.getOutgoingEdges order ↔ ∃ e, g.getEdge k = some e ∧ e.source = id := by
  unfold DistributedNode.getOutgoingEdges
  rw [(inv.outgoing id node at_).mem_flatten]
  constructor
  · rintro ⟨_, e, found, source, _⟩
    exact ⟨e, found, source⟩
  · rintro ⟨e, found, source⟩
    exact ⟨e.layer, e, found, source, rfl⟩

theorem GraphInv.nodup_getIncomingEdges : (node.getIncomingEdges order).Nodup := by
  apply (inv.incoming id node at_).nodup_flatten
  rintro k l l' ⟨e, found, _, layer⟩ ⟨e', found', _, layer'⟩
  cases found.symm.trans found'
  exact layer.symm.trans layer'

theorem GraphInv.nodup_getOutgoingEdges : (node.getOutgoingEdges order).Nodup := by
  apply (inv.outgoing id node at_).nodup_flatten
  rintro k l l' ⟨e, found, _, layer⟩ ⟨e', found', _, layer'⟩
  cases found.symm.trans found'
  exact layer.symm.trans layer'

end

theorem DistributedGraph.getNode_of_view {v : GraphView n T W} (view : g.view = v) {id : Id n}
    {core : NodeCore n T W} (found : v.core id = some core) :
    ∃ node, g.getNode id = some node ∧ node.core = core := by
  subst view
  exact Option.map_eq_some_iff.mp found

theorem LocationManager.mem_remove (manager : LocationManager n) (id other : Id n)
    (state : LocationState) :
    (other ∈ (manager.remove id state).localNodes ↔
      other ∈ manager.localNodes ∧ ¬ (other = id ∧ state = .LOCAL)) ∧
    (other ∈ (manager.remove id state).distantNodes ↔
      other ∈ manager.distantNodes ∧ ¬ (other = id ∧ state = .DISTANT)) := by
  cases state <;> simp [LocationManager.remove, AList.mem_erase, and_comm]

-- The node leaves the maps once none of its edges is left.
theorem GraphInv.dropNode (inv : GraphInv g) {id : Id n} {node : DistributedNode n T W}
    (at_ : g.getNode id = some node) (free : ∀ k e, g.getEdge k = some e → ¬ e.Touches id) :
    let g' := { g with
      nodes := g.nodes.erase id
      locationManager := g.locationManager.remove id node.state }
    GraphInv g' ∧ g'.view = { g.view with core := Function.update g.view.core id none } := by
  intro g'
  have nodes : ∀ other, g'.getNode other = if other = id then none else g.getNode other :=
    fun other => UnorderedMap.lookup_erase' _ _ _
  have kept : ∀ other, other ≠ id → (∃ found, g.getNode other = some found) →
      ∃ found, g'.getNode other = some found := by
    rintro other different ⟨found, before⟩
    exact ⟨found, by rw [nodes, if_neg different, before]⟩
  have stored : ∀ {other found}, g'.getNode other = some found →
      other ≠ id ∧ g.getNode other = some found := by
    intro other found after
    rw [nodes] at after
    split at after
    case isTrue => cases after
    case isFalse different => exact ⟨different, after⟩
  refine ⟨⟨?_, ?_, ?_, ?_, ?_, ?_⟩, ?_⟩
  · intro k e found
    exact kept _ (fun same => free k e found (.inl same)) (inv.source k e found)
  · intro k e found
    exact kept _ (fun same => free k e found (.inr same)) (inv.target k e found)
  · intro other found after
    exact inv.outgoing other found (stored after).2
  · intro other found after
    exact inv.incoming other found (stored after).2
  · intro other
    rw [(LocationManager.mem_remove _ _ _ _).1, inv.localNodes, g'.isLocal_iff, g.isLocal_iff, nodes]
    by_cases same : other = id
    · subst same
      simp [at_]
    · simp [same]
  · intro other
    rw [(LocationManager.mem_remove _ _ _ _).2, inv.distantNodes, g'.isDistant_iff, g.isDistant_iff,
      nodes]
    by_cases same : other = id
    · subst same
      simp [at_]
    · simp [same]
  · have manager : g'.locationManager.managedNodesLocations = g.locationManager.managedNodesLocations ∧
        g'.locationManager.newLocalNodes = g.locationManager.newLocalNodes := by
      cases state : node.state <;> simp [g', LocationManager.remove, state]
    ext1 <;> try rfl
    case core =>
      funext other
      show _ = Function.update g.view.core id none other
      rw [DistributedGraph.view_core, nodes, Function.update_apply]
      split <;> rfl
    case managed => exact congrArg (fun (m : UnorderedMap (Id n) (Fin n)) id => m.lookup id) manager.1
    case newLocal => exact congrArg (fun (m : NodeMap n) other => other ∈ m) manager.2

theorem GraphInv.eraseNode (inv : GraphInv g) (order : HashOrder) {id : Id n}
    {node : DistributedNode n T W} (at_ : g.getNode id = some node) :
    Refines (g.eraseNode order id) (g.view.eraseNode id) := by
  unfold DistributedGraph.eraseNode
  rw [at_, Option.bind_some]
  have incoming := inv.eraseEdges (inv.nodup_getIncomingEdges order at_) fun k member => by
    obtain ⟨e, found, _⟩ := (inv.mem_getIncomingEdges order at_ k).mp member
    exact ⟨e, found⟩
  refine incoming.bind fun g₁ inv₁ view₁ => ?_
  have found₁ : (g.view.eraseEdges (· ∈ node.getIncomingEdges order)).core id = some node.core := by
    simp [GraphView.eraseEdges, DistributedGraph.view_core, at_]
  obtain ⟨node₁, at₁, _⟩ := DistributedGraph.getNode_of_view view₁ found₁
  rw [at₁, Option.bind_some]
  have outgoing := inv₁.eraseEdges (inv₁.nodup_getOutgoingEdges order at₁) fun k member => by
    obtain ⟨e, found, _⟩ := (inv₁.mem_getOutgoingEdges order at₁ k).mp member
    exact ⟨e, found⟩
  refine outgoing.bind fun g₂ inv₂ view₂ => ?_
  have found₂ : (g₁.view.eraseEdges (· ∈ node₁.getOutgoingEdges order)).core id = some node.core := by
    simp [GraphView.eraseEdges, view₁, DistributedGraph.view_core, at_]
  obtain ⟨node₂, at₂, _⟩ := DistributedGraph.getNode_of_view view₂ found₂
  rw [at₂, Option.map_some]
  have edges₁ : ∀ k e, g₁.getEdge k = some e ↔ g.getEdge k = some e ∧ e.target ≠ id := by
    intro k e
    rw [← DistributedGraph.view_edge, view₁, GraphView.eraseEdges_edge]
    refine and_congr_right fun found => not_congr ?_
    rw [inv.mem_getIncomingEdges order at_]
    constructor
    · rintro ⟨e', found', target⟩
      cases found.symm.trans found'
      exact target
    · exact fun target => ⟨e, found, target⟩
  have edges₂ : ∀ k e, g₂.getEdge k = some e ↔ g.getEdge k = some e ∧ ¬ e.Touches id := by
    intro k e
    rw [← DistributedGraph.view_edge, view₂, GraphView.eraseEdges_edge, DistributedGraph.view_edge,
      inv₁.mem_getOutgoingEdges order at₁]
    unfold DistributedEdge.Touches
    constructor
    · rintro ⟨found, outside⟩
      have before := (edges₁ k e).mp found
      refine ⟨before.1, ?_⟩
      rintro (source | target)
      · exact outside ⟨e, found, source⟩
      · exact before.2 target
    · rintro ⟨found, apart⟩
      have before := (edges₁ k e).mpr ⟨found, fun target => apart (.inr target)⟩
      refine ⟨before, ?_⟩
      rintro ⟨e', found', source⟩
      cases before.symm.trans found'
      exact apart (.inl source)
  obtain ⟨inv₃, view₃⟩ := inv₂.dropNode at₂ fun k e found => ((edges₂ k e).mp found).2
  refine ⟨_, rfl, inv₃, view₃.trans ?_⟩
  have edge₂ : g₂.view.edge = (g.view.eraseNode id).edge := by
    funext k
    ext e
    rw [GraphView.eraseNode_edge]
    exact edges₂ k e
  rw [view₂, view₁] at edge₂ ⊢
  ext1 <;> try rfl
  exact edge₂

theorem GraphInv.eraseNodes (inv : GraphInv g) (order : HashOrder) {ids : List (Id n)}
    (once : ids.Nodup) (present : ∀ id ∈ ids, ∃ core, g.view.core id = some core) :
    Refines (ids.foldlM (fun g id => g.eraseNode order id) g) (g.view.eraseNodes (· ∈ ids)) := by
  rw [← GraphView.foldl_eraseNode]
  apply Refines.foldlM (fun v l => l.Nodup ∧ ∀ id ∈ l, ∃ core, v.core id = some core)
  · rintro g id rest inv ⟨_, present⟩
    obtain ⟨core, found⟩ := present id List.mem_cons_self
    obtain ⟨node, at_, _⟩ := DistributedGraph.getNode_of_view rfl found
    exact inv.eraseNode order at_
  · rintro v id rest ⟨once, present⟩
    rw [List.nodup_cons] at once
    refine ⟨once.2, fun other member => ?_⟩
    have different : other ≠ id := fun same => once.1 (same ▸ member)
    rw [GraphView.eraseNode_core, if_neg different]
    exact present other (List.mem_cons_of_mem id member)
  · exact inv
  · exact ⟨once, present⟩

-- To erase a node twice is an error.
theorem GraphInv.eraseNodes_once (inv : GraphInv g) {order : HashOrder} {ids : List (Id n)}
    {g' : DistributedGraph n T W}
    (result : ids.foldlM (fun g id => g.eraseNode order id) g = some g') :
    ids.Nodup ∧ ∀ id ∈ ids, ∃ core, g.view.core id = some core := by
  induction ids generalizing g with
  | nil => simp
  | cons id rest ih =>
    rw [List.foldlM_cons] at result
    obtain ⟨g₁, erased, later⟩ := Option.bind_eq_some_iff.mp result
    obtain ⟨node, at_, _⟩ := Option.bind_eq_some_iff.mp erased
    obtain ⟨g₂, erased', inv₁, view⟩ := inv.eraseNode order at_
    cases erased.symm.trans erased'
    obtain ⟨once, present⟩ := ih inv₁ later
    have gone : g₁.view.core id = none := by
      rw [view]
      exact Function.update_self _ _ _
    constructor
    · rw [List.nodup_cons]
      refine ⟨fun again => ?_, once⟩
      obtain ⟨core, found⟩ := present id again
      cases gone.symm.trans found
    · intro other member
      rcases List.mem_cons.mp member with rfl | inside
      · exact ⟨node.core, by rw [DistributedGraph.view_core, at_, Option.map_some]⟩
      · obtain ⟨core, found⟩ := present other inside
        have different : other ≠ id := by
          rintro rfl
          cases gone.symm.trans found
        rw [view, GraphView.eraseNode_core, if_neg different] at found
        exact ⟨core, found⟩

end

end Fpmas.Graph
