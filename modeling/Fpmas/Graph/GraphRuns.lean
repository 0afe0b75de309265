import Fpmas.Graph.Distribute
import Fpmas.Graph.GraphCalls
import Fpmas.Library.TransitionSystem

set_option autoImplicit false

namespace Fpmas.Graph

variable {n : Nat} {T W : Type}

namespace AddressedGraph

-- `_distribute`, with the objects of the nodes.
def _distribute [One W] (light : T → T) (order : Fin n → HashOrder) (partition : Fin n → PartitionMap n)
    (s : Fin n → AddressedGraph n T W) : Option (Fin n → AddressedGraph n T W) :=
  let exported := fun p => (s p).graph.exportedNodes (order p) (partition p)
  (collect fun p => (s p).graph.nodeExportMap (exported p)).bind fun nodes =>
  (collect fun p => (s p).graph.edgeExportMap (order p) light (exported p)).bind fun edges =>
  (collect fun p =>
    (((migrate nodes p).flatten (order p)).foldlM (fun (g : AddressedGraph n T W) node => g.importNode node)
      (s p)).bind fun g =>
    (((migrate edges p).flatten (order p)).foldlM
      (fun (g : AddressedGraph n T W) edge => g.importEdge (order p) edge) g).bind fun g =>
    ((exported p).map Prod.fst).foldlM
      (fun (g : AddressedGraph n T W) id => g.setDistant (order p) id) g).bind fun s =>
  (updateLocations order fun p => (s p).graph).bind fun located =>
  collect fun p => ({ s p with graph := located p }).clearNodes (order p) ((exported p).map Prod.fst)

-- `synchronize`: the linker and the data synchronization act on the graph of each process through the
-- calls that they make there.
def synchronize [One W] (order : Fin n → HashOrder) (linker dataSync : Fin n → List (GraphCall n T W))
    (s : Fin n → AddressedGraph n T W) : Option (Fin n → AddressedGraph n T W) :=
  (collect fun p => (s p).calls (order p) (linker p)).bind fun s =>
  (collect fun p => (s p).clearDistantNodes (order p)).bind fun s =>
  collect fun p => (s p).calls (order p) (dataSync p)

def distribute [One W] (light : T → T) (order : Fin n → HashOrder)
    (linker dataSync : Fin n → List (GraphCall n T W)) (partition : Fin n → PartitionMap n)
    (s : Fin n → AddressedGraph n T W) : Option (Fin n → AddressedGraph n T W) :=
  (collect fun p => (s p).calls (order p) (linker p)).bind fun s =>
  (_distribute light order partition s).bind fun s =>
  collect fun p => (s p).calls (order p) (dataSync p)

end AddressedGraph

inductive GraphAction (n : Nat) (T W : Type) where
  | call (p : Fin n) (order : HashOrder) (made : GraphCall n T W)
  | synchronize (order : Fin n → HashOrder) (linker dataSync : Fin n → List (GraphCall n T W))
  | distribute (order : Fin n → HashOrder) (linker dataSync : Fin n → List (GraphCall n T W))
      (partition : Fin n → PartitionMap n)

/-- The process that gives its rank to the id has created such a node. -/
def NodeIssued (s : Fin n → AddressedGraph n T W) (id : Id n) : Prop :=
  id.id < (s id.rank).graph.nodeId.id

def EdgeIssued (s : Fin n → AddressedGraph n T W) (k : Id n) : Prop :=
  k.id < (s k.rank).graph.edgeId.id

def GraphCall.Genuine (made : GraphCall n T W) (s : Fin n → AddressedGraph n T W) : Prop :=
  (∀ id ∈ made.nodes, NodeIssued s id) ∧ ∀ k ∈ made.edges, EdgeIssued s k

instance (made : GraphCall n T W) (s : Fin n → AddressedGraph n T W) : Decidable (made.Genuine s) :=
  inferInstanceAs (Decidable ((∀ id ∈ made.nodes, id.id < (s id.rank).graph.nodeId.id) ∧
    ∀ k ∈ made.edges, k.id < (s k.rank).graph.edgeId.id))

namespace GraphAction

def next [One W] (light : T → T) (s : Fin n → AddressedGraph n T W) :
    GraphAction n T W → Option (Fin n → AddressedGraph n T W)
  | call p order made => ((s p).call order made).map (Function.update s p)
  | synchronize order linker dataSync => AddressedGraph.synchronize order linker dataSync s
  | distribute order linker dataSync partition =>
    AddressedGraph.distribute light order linker dataSync partition s

-- What is imported comes from some process.
def Genuine (s : Fin n → AddressedGraph n T W) : GraphAction n T W → Prop
  | call _ _ made => made.Genuine s
  | synchronize _ linker dataSync => ∀ p, ∀ made ∈ linker p ++ dataSync p, made.Genuine s
  | distribute _ linker dataSync _ => ∀ p, ∀ made ∈ linker p ++ dataSync p, made.Genuine s

instance (s : Fin n → AddressedGraph n T W) (action : GraphAction n T W) :
    Decidable (action.Genuine s) :=
  match action with
  | call _ _ made => inferInstanceAs (Decidable (made.Genuine s))
  | synchronize _ linker dataSync =>
    inferInstanceAs (Decidable (∀ p, ∀ made ∈ linker p ++ dataSync p, made.Genuine s))
  | distribute _ linker dataSync _ =>
    inferInstanceAs (Decidable (∀ p, ∀ made ∈ linker p ++ dataSync p, made.Genuine s))

end GraphAction

def graphs (n : Nat) (T W : Type) [One W] (light : T → T) :
    TransitionSystem (Fin n → AddressedGraph n T W) (GraphAction n T W) where
  init s := s = AddressedGraph.empty
  next s action := action.next light s

theorem AddressedGraph._distribute_graph [One W] {light : T → T} {order : Fin n → HashOrder}
    {partition : Fin n → PartitionMap n} {s t : Fin n → AddressedGraph n T W}
    (taken : AddressedGraph._distribute light order partition s = some t) :
    Graph._distribute light order partition (fun p => (s p).graph) = some fun p => (t p).graph := by
  obtain ⟨sentNodes, packedNodes, taken⟩ := Option.bind_eq_some_iff.mp taken
  obtain ⟨sentEdges, packedEdges, taken⟩ := Option.bind_eq_some_iff.mp taken
  obtain ⟨moved, imported, taken⟩ := Option.bind_eq_some_iff.mp taken
  obtain ⟨located, updated, cleared⟩ := Option.bind_eq_some_iff.mp taken
  refine Option.bind_eq_some_iff.mpr ⟨sentNodes, packedNodes, Option.bind_eq_some_iff.mpr
    ⟨sentEdges, packedEdges, Option.bind_eq_some_iff.mpr ⟨fun p => (moved p).graph, ?_,
      Option.bind_eq_some_iff.mpr ⟨located, updated, ?_⟩⟩⟩⟩
  · refine collect_eq_some.mpr fun p => ?_
    obtain ⟨first, importedNodes, rest⟩ := Option.bind_eq_some_iff.mp (collect_eq_some.mp imported p)
    obtain ⟨second, importedEdges, exported⟩ := Option.bind_eq_some_iff.mp rest
    refine Option.bind_eq_some_iff.mpr ⟨first.graph, ?_, Option.bind_eq_some_iff.mpr ⟨second.graph, ?_, ?_⟩⟩
    · exact List.foldlM_view AddressedGraph.graph (fun _ _ _ step => importNode_graph step) importedNodes
    · exact List.foldlM_view AddressedGraph.graph (fun _ _ _ step => importEdge_graph step) importedEdges
    · exact List.foldlM_view AddressedGraph.graph (fun _ _ _ step => setDistant_graph step) exported
  · exact collect_eq_some.mpr fun p => clearNodes_graph (collect_eq_some.mp cleared p)

section Messages

variable {g : DistributedGraph n T W}

-- What is sent of a node comes from the graph.
theorem nodeExportMap_from {exported : List (Id n × Fin n)}
    {messages : UnorderedMap (Fin n) (List (NodeMessage n T W))}
    (result : g.nodeExportMap exported = some messages) {q : Fin n} {message : NodeMessage n T W}
    (sent : message ∈ messages.valuesAt q) : ∃ node, g.getNode message.id = some node := by
  obtain ⟨list, read, _⟩ := Option.map_eq_some_iff.mp result
  obtain ⟨messages', result', member⟩ := UnorderedMap.pushAll_mapM (List.each_some read)
  cases result.symm.trans result'
  obtain ⟨item, _, made⟩ := (member q message).mp sent
  obtain ⟨_, packed, same⟩ := Option.map_eq_some_iff.mp made
  cases same
  obtain ⟨node, at_, rfl⟩ := Option.map_eq_some_iff.mp packed
  exact ⟨node, at_⟩

theorem edgeExportMap_from {order : HashOrder} {light : T → T} {exported : List (Id n × Fin n)}
    {messages : UnorderedMap (Fin n) (List (EdgeMessage n T W))}
    (result : g.edgeExportMap order light exported = some messages) {q : Fin n}
    {message : EdgeMessage n T W} (sent : message ∈ messages.valuesAt q) :
    (∃ e, g.getEdge message.id = some e) ∧ (∃ node, g.getNode message.source = some node) ∧
      ∃ node, g.getNode message.target = some node := by
  obtain ⟨ids, _, result⟩ := Option.bind_eq_some_iff.mp result
  obtain ⟨list, read, _⟩ := Option.map_eq_some_iff.mp result
  obtain ⟨messages', result', member⟩ := UnorderedMap.pushAll_mapM (List.each_some read)
  cases result.symm.trans result'
  obtain ⟨item, _, made⟩ := (member q message).mp sent
  obtain ⟨_, packed, same⟩ := Option.map_eq_some_iff.mp made
  cases same
  obtain ⟨e, found, packed⟩ := Option.bind_eq_some_iff.mp packed
  obtain ⟨source, atSource, packed⟩ := Option.bind_eq_some_iff.mp packed
  obtain ⟨target, atTarget, rfl⟩ := Option.map_eq_some_iff.mp packed
  exact ⟨⟨e, found⟩, ⟨source, atSource⟩, target, atTarget⟩

theorem mem_flatten_migrate {V : Type} {order : HashOrder} {exported : Fin n → UnorderedMap (Fin n) (List V)}
    {p : Fin n} {value : V} : value ∈ (migrate exported p).flatten order ↔
      ∃ q, value ∈ (exported q).valuesAt p := by
  rw [UnorderedMap.mem_flatten]
  simp only [valuesAt_migrate]

end Messages

section Locations

variable {p : Fin n} {nodes edges : Id n → Prop} {g g' : DistributedGraph n T W}
  {state : Id n → Option LocationState}

-- The graph of a process, of which only the locations are still to be updated.
structure Settling (p : Fin n) (nodes edges : Id n → Prop) (state : Id n → Option LocationState)
    (g : DistributedGraph n T W) : Prop where
  wf : WellFormed p nodes edges g
  state : g.view.state = state

namespace Settling

theorem withManaged (settling : Settling p nodes edges state g) (managed : UnorderedMap (Id n) (Fin n)) :
    Settling p nodes edges state (g.withManaged managed) := by
  refine ⟨settling.wf.extend (settling.wf.inv.withManaged managed) ?_, settling.state⟩
  exact .shrink rfl rfl rfl (fun _ core found => ⟨core, found⟩) fun _ e found => ⟨e, found⟩

theorem managedLocation (settling : Settling p nodes edges state g) (id : Id n) :
    Settling p nodes edges state (g.managedLocation id).1 := by
  unfold DistributedGraph.managedLocation
  split
  · exact settling
  · exact settling.withManaged _

theorem setLocation (settling : Settling p nodes edges state g) {id : Id n} {location : Fin n}
    (taken : g.setLocation id location = some g') : Settling p nodes edges state g' := by
  obtain ⟨node, at_, rfl⟩ := Option.map_eq_some_iff.mp taken
  obtain ⟨wf, same⟩ := settling.wf.setNode { node with location } at_ rfl rfl rfl
  exact ⟨wf, same.trans settling.state⟩

variable (order : HashOrder)

theorem exportUpdatedLocations (settling : Settling p nodes edges state g) :
    Settling p nodes edges state (g.exportUpdatedLocations order).2 := by
  obtain ⟨_, managed, same, _⟩ := g.exportUpdatedLocations_spec order
  rw [same]
  exact settling.withManaged managed

theorem importUpdatedLocations (settling : Settling p nodes edges state g)
    {imported : UnorderedMap (Fin n) (List (Id n))}
    (taken : g.importUpdatedLocations order imported = some g') : Settling p nodes edges state g' := by
  have told : Settling p nodes edges state
      ((imported.messages order).foldl (fun g message => g.addManagedNode message.2 message.1) g) :=
    List.foldlRecOn _ _ settling fun h kept message _ => kept.withManaged _
  exact List.foldlM_kept (fun _ id _ _ kept step => (kept.managedLocation id).setLocation step) told taken

theorem exportLocations (settling : Settling p nodes edges state g)
    (requests : UnorderedMap (Fin n) (List (Id n))) :
    Settling p nodes edges state (g.exportLocations order requests).2 := by
  unfold DistributedGraph.exportLocations
  refine List.foldlRecOn (motive := fun (x : UnorderedMap (Fin n) (List (Id n × Fin n)) ×
    DistributedGraph n T W) => Settling p nodes edges state x.2) _ _ settling ?_
  exact fun _ kept message _ => kept.managedLocation message.2

theorem importLocations (settling : Settling p nodes edges state g)
    {locations : UnorderedMap (Fin n) (List (Id n × Fin n))}
    (taken : g.importLocations order locations = some g') : Settling p nodes edges state g' := by
  obtain ⟨h, read, rfl⟩ := Option.map_eq_some_iff.mp taken
  have told : Settling p nodes edges state h :=
    List.foldlM_kept (fun _ _ _ _ kept step => kept.setLocation (Option.ite_none_right_eq_some.mp step).2)
      settling read
  refine ⟨told.wf.extend ?_ ?_, told.state⟩
  · have inv := told.wf.inv
    exact ⟨inv.source, inv.target, inv.outgoing, inv.incoming, inv.localNodes, inv.distantNodes⟩
  · exact .shrink rfl rfl rfl (fun _ core found => ⟨core, found⟩) fun _ e found => ⟨e, found⟩

end Settling

theorem Settling.updateLocations {order : Fin n → HashOrder} {s t : Fin n → DistributedGraph n T W}
    {state : Fin n → Id n → Option LocationState}
    (settling : ∀ p, Settling p nodes edges (state p) (s p)) (taken : updateLocations order s = some t)
    (p : Fin n) : Settling p nodes edges (state p) (t p) := by
  obtain ⟨middle, updated, answered⟩ := Option.bind_eq_some_iff.mp taken
  have first := ((settling p).exportUpdatedLocations (order p)).importUpdatedLocations (order p)
    (collect_eq_some.mp updated p)
  exact (first.exportLocations (order p) _).importLocations (order p) (collect_eq_some.mp answered p)

end Locations

section Runs

/-- Every process has a graph of its own, that holds nothing but what the processes have created. -/
def Kept (s : Fin n → AddressedGraph n T W) : Prop :=
  ∀ p, (s p).Valid p (NodeIssued s) (EdgeIssued s)

variable {nodes edges : Id n → Prop} {s t : Fin n → AddressedGraph n T W}

theorem Kept.nodeIssued (kept : Kept s) {p : Fin n} {id : Id n} {node : DistributedNode n T W}
    (at_ : (s p).graph.getNode id = some node) : NodeIssued s id := by
  have found : (s p).graph.view.core id = some node.core := by
    rw [DistributedGraph.view_core, at_, Option.map_some]
  rcases (kept p).wf.node id _ found with issued | ⟨rfl, issued⟩
  · exact issued
  · exact issued

theorem Kept.edgeIssued (kept : Kept s) {p : Fin n} {k : Id n} {e : DistributedEdge n W}
    (found : (s p).graph.getEdge k = some e) : EdgeIssued s k := by
  rcases (kept p).wf.edge k _ found with issued | ⟨rfl, issued⟩
  · exact issued
  · exact issued

theorem Kept.of_valid (valid : ∀ p, (t p).Valid p nodes edges) : Kept t := by
  have nodeIssued : ∀ id, nodes id → NodeIssued t id := fun id issued =>
    (valid id.rank).wf.nodesIssued id issued rfl
  have edgeIssued : ∀ k, edges k → EdgeIssued t k := fun k issued =>
    (valid k.rank).wf.edgesIssued k issued rfl
  intro p
  have wf := (valid p).wf
  refine ⟨⟨wf.inv, wf.rank, wf.nodeRank, wf.edgeRank, fun id core found => ?_, fun k e found => ?_,
    fun id issued rank => ?_, fun k issued rank => ?_⟩, (valid p).follow⟩
  · exact (wf.node id core found).imp_left (nodeIssued id)
  · exact (wf.edge k e found).imp_left (edgeIssued k)
  · subst rank
    exact issued
  · subst rank
    exact issued

theorem AddressedGraph.Valid._distribute [One W] {light : T → T} {order : Fin n → HashOrder}
    {partition : Fin n → PartitionMap n} (valid : ∀ p, (s p).Valid p nodes edges)
    (fromNodes : ∀ p id node, (s p).graph.getNode id = some node → nodes id)
    (fromEdges : ∀ p k e, (s p).graph.getEdge k = some e → edges k)
    (taken : _distribute light order partition s = some t) (p : Fin n) : (t p).Valid p nodes edges := by
  obtain ⟨sentNodes, packedNodes, taken⟩ := Option.bind_eq_some_iff.mp taken
  obtain ⟨sentEdges, packedEdges, taken⟩ := Option.bind_eq_some_iff.mp taken
  obtain ⟨moved, imported, taken⟩ := Option.bind_eq_some_iff.mp taken
  obtain ⟨located, updated, cleared⟩ := Option.bind_eq_some_iff.mp taken
  rw [collect_eq_some] at packedNodes packedEdges imported cleared
  have arrived : ∀ p, (moved p).Valid p nodes edges := by
    intro p
    obtain ⟨first, importedNodes, imported⟩ := Option.bind_eq_some_iff.mp (imported p)
    obtain ⟨second, importedEdges, exported⟩ := Option.bind_eq_some_iff.mp imported
    have withNodes : first.Valid p nodes edges :=
      List.foldlM_kept (fun _ message _ inside kept step => by
        obtain ⟨q, sent⟩ := mem_flatten_migrate.mp inside
        obtain ⟨node, at_⟩ := nodeExportMap_from (packedNodes q) sent
        exact kept.importNode (fromNodes q _ node at_) step) (valid p) importedNodes
    have withEdges : second.Valid p nodes edges :=
      List.foldlM_kept (fun _ message _ inside kept step => by
        obtain ⟨q, sent⟩ := mem_flatten_migrate.mp inside
        obtain ⟨⟨e, found⟩, ⟨source, atSource⟩, target, atTarget⟩ := edgeExportMap_from (packedEdges q) sent
        exact kept.importEdge (order p) (fromNodes q _ source atSource) (fromNodes q _ target atTarget)
          (fromEdges q _ e found) step) withNodes importedEdges
    exact List.foldlM_kept (fun _ _ _ _ kept step => kept.setDistant (order p) step) withEdges exported
  have unsettled : ∀ p, Settling p nodes edges (moved p).graph.view.state (moved p).graph := fun p =>
    ⟨(arrived p).wf, rfl⟩
  have settled := Settling.updateLocations unsettled updated
  have ready : ({ moved p with graph := located p } : AddressedGraph n T W).Valid p nodes edges :=
    ⟨(settled p).wf, (settled p).state ▸ (arrived p).follow⟩
  exact ready.clearNodes (order p) (cleared p)

theorem Kept.call [One W] (kept : Kept s) {p : Fin n} {order : HashOrder} {made : GraphCall n T W}
    (genuine : made.Genuine s) (taken : ((s p).call order made).map (Function.update s p) = some t) :
    Kept t := by
  obtain ⟨g, made_, rfl⟩ := Option.map_eq_some_iff.mp taken
  have valid : ∀ q, (Function.update s p g q).Valid q (NodeIssued s) (EdgeIssued s) := by
    intro q
    by_cases same : q = p
    · subst same
      rw [Function.update_self]
      exact (kept q).call order genuine.1 genuine.2 made_
    · rw [Function.update_of_ne same]
      exact kept q
  exact Kept.of_valid valid

theorem AddressedGraph.Valid.allCalls [One W] {order : Fin n → HashOrder}
    {made : Fin n → List (GraphCall n T W)} (valid : ∀ p, (s p).Valid p nodes edges)
    (fromNodes : ∀ p, ∀ call ∈ made p, ∀ id ∈ call.nodes, nodes id)
    (fromEdges : ∀ p, ∀ call ∈ made p, ∀ k ∈ call.edges, edges k)
    (taken : (collect fun p => (s p).calls (order p) (made p)) = some t) (p : Fin n) :
    (t p).Valid p nodes edges :=
  (valid p).calls (order p) (fromNodes p) (fromEdges p) (collect_eq_some.mp taken p)

theorem Kept.next [One W] {light : T → T} (kept : Kept s) {action : GraphAction n T W}
    (genuine : action.Genuine s) (taken : action.next light s = some t) : Kept t := by
  cases action with
  | call p order made => exact kept.call genuine taken
  | synchronize order linker dataSync =>
    obtain ⟨linked, first, taken⟩ := Option.bind_eq_some_iff.mp taken
    obtain ⟨cleared, second, last⟩ := Option.bind_eq_some_iff.mp taken
    have valid := AddressedGraph.Valid.allCalls kept
      (fun p call inside => (genuine p call (List.mem_append_left _ inside)).1)
      (fun p call inside => (genuine p call (List.mem_append_left _ inside)).2) first
    have valid' := fun p => (valid p).clearNodes (order p) (collect_eq_some.mp second p)
    exact Kept.of_valid (AddressedGraph.Valid.allCalls valid'
      (fun p call inside => (genuine p call (List.mem_append_right _ inside)).1)
      (fun p call inside => (genuine p call (List.mem_append_right _ inside)).2) last)
  | distribute order linker dataSync partition =>
    obtain ⟨linked, first, taken⟩ := Option.bind_eq_some_iff.mp taken
    obtain ⟨moved, second, last⟩ := Option.bind_eq_some_iff.mp taken
    have valid := AddressedGraph.Valid.allCalls kept
      (fun p call inside => (genuine p call (List.mem_append_left _ inside)).1)
      (fun p call inside => (genuine p call (List.mem_append_left _ inside)).2) first
    have kept' : Kept linked := Kept.of_valid valid
    have valid' := AddressedGraph.Valid._distribute kept' (fun _ _ _ at_ => kept'.nodeIssued at_)
      (fun _ _ _ found => kept'.edgeIssued found) second
    exact Kept.of_valid (AddressedGraph.Valid.allCalls valid'
      (fun p call inside id listed => (valid id.rank).wf.nodesIssued id
        ((genuine p call (List.mem_append_right _ inside)).1 id listed) rfl)
      (fun p call inside k listed => (valid k.rank).wf.edgesIssued k
        ((genuine p call (List.mem_append_right _ inside)).2 k listed) rfl) last)

theorem kept_empty : Kept (AddressedGraph.empty : Fin n → AddressedGraph n T W) := by
  have noCore : ∀ (p : Fin n) id, ((AddressedGraph.empty p : AddressedGraph n T W).graph.view).core id = none :=
    fun _ _ => rfl
  refine fun p => ⟨⟨graphInv_empty p, rfl, rfl, rfl, ?_, ?_, ?_, ?_⟩, ?_⟩
  · intro id core found
    cases (noCore p id).symm.trans found
  · intro k e found
    cases found
  · intro id issued
    exact absurd issued (Nat.not_lt_zero _)
  · intro k issued
    exact absurd issued (Nat.not_lt_zero _)
  · refine ⟨fun id => ?_, fun id => ?_, fun id => ?_, fun id address at_ => ?_, fun id _ => ?_⟩
    · exact iff_of_true rfl rfl
    · rw [if_neg (by simp [GraphView.state, noCore])]
      rfl
    · rw [if_neg (by simp [GraphView.state, noCore])]
      rfl
    · cases at_
    · exact iff_of_true rfl List.not_mem_nil

theorem reachable_kept [One W] {light : T → T}
    (reached : (graphs n T W light).ReachableBy (fun s a => a.Genuine s) s) : Kept s := by
  refine reached.invariant (I := Kept) ?_ ?_
  · rintro s rfl
    exact kept_empty
  · exact fun s a t _ kept genuine taken => kept.next genuine taken

end Runs

end Fpmas.Graph
