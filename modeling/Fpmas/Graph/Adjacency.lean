import Fpmas.Graph.GraphCalls
import Fpmas.Library.TransitionSystem

set_option autoImplicit false

namespace Fpmas.Graph

variable {n : Nat} {T W : Type}

/-- What changes the graph of one process, on the side of `Graph` and on that of `DistributedGraph`. -/
inductive GraphEdit (n : Nat) (T W : Type) where
  -- `insert(NodeType*)`, which tells the location manager nothing.
  | insert (id : Id n) (data : T) (weight : W) (location : Fin n) (state : LocationState)
  | call (order : HashOrder) (made : GraphCall n T W)

namespace GraphEdit

def next [One W] (g : DistributedGraph n T W) : GraphEdit n T W → Option (DistributedGraph n T W)
  | insert id data weight location state =>
    let node : DistributedNode n T W := .build data weight location
    some (g.insertNode id { node with state })
  | call order made => g.call order made

def nodes : GraphEdit n T W → List (Id n)
  | insert id _ _ _ _ => [id]
  | call _ made => made.nodes

def edges : GraphEdit n T W → List (Id n)
  | insert _ _ _ _ _ => []
  | call _ made => made.edges

/-- What comes from elsewhere has none of the ids that the process is still to give. -/
def Genuine (g : DistributedGraph n T W) (edit : GraphEdit n T W) : Prop :=
  (∀ id ∈ edit.nodes, id.rank = g.rank → id.id < g.nodeId.id) ∧
    ∀ k ∈ edit.edges, k.rank = g.rank → k.id < g.edgeId.id

instance (g : DistributedGraph n T W) (edit : GraphEdit n T W) : Decidable (edit.Genuine g) :=
  inferInstanceAs (Decidable ((∀ id ∈ edit.nodes, id.rank = g.rank → id.id < g.nodeId.id) ∧
    ∀ k ∈ edit.edges, k.rank = g.rank → k.id < g.edgeId.id))

end GraphEdit

def localGraph (n : Nat) (T W : Type) [One W] :
    TransitionSystem (DistributedGraph n T W) (GraphEdit n T W) where
  init g := ∃ rank, g = .empty rank
  next g edit := edit.next g

/-- The lists of the nodes hold the edges of the graph, each of them once at either end. -/
structure Adjacency (g : DistributedGraph n T W) : Prop where
  listed : ∀ k source target layer,
    (∃ e, g.getEdge k = some e ∧ e.source = source ∧ e.target = target ∧ e.layer = layer) ↔
      (∃ node, g.getNode source = some node ∧ (node.outgoingEdges.valuesAt layer).count k = 1) ∧
        ∃ node, g.getNode target = some node ∧ (node.incomingEdges.valuesAt layer).count k = 1
  once : ∀ id node layer, g.getNode id = some node →
    (node.outgoingEdges.valuesAt layer).Nodup ∧ (node.incomingEdges.valuesAt layer).Nodup

theorem GraphInv.adjacency {g : DistributedGraph n T W} (inv : GraphInv g) : Adjacency g := by
  refine ⟨fun k source target layer => ?_, fun id node layer at_ => ?_⟩
  · constructor
    · rintro ⟨e, found, rfl, rfl, rfl⟩
      obtain ⟨source, atSource⟩ := inv.source k e found
      obtain ⟨target, atTarget⟩ := inv.target k e found
      obtain ⟨onceOut, out⟩ := inv.outgoing _ _ atSource e.layer
      obtain ⟨onceIn, into⟩ := inv.incoming _ _ atTarget e.layer
      exact ⟨⟨source, atSource, List.count_eq_one_of_mem onceOut ((out k).mpr ⟨e, found, rfl, rfl⟩)⟩,
        target, atTarget, List.count_eq_one_of_mem onceIn ((into k).mpr ⟨e, found, rfl, rfl⟩)⟩
    · rintro ⟨⟨src, atSource, outOnce⟩, tgt, atTarget, inOnce⟩
      have leaves : k ∈ src.outgoingEdges.valuesAt layer := List.count_pos_iff.mp (by omega)
      have enters : k ∈ tgt.incomingEdges.valuesAt layer := List.count_pos_iff.mp (by omega)
      obtain ⟨e, found, from_, layer_⟩ := ((inv.outgoing _ _ atSource layer).2 k).mp leaves
      obtain ⟨e', found', to_, _⟩ := ((inv.incoming _ _ atTarget layer).2 k).mp enters
      cases found.symm.trans found'
      exact ⟨e, found, from_, to_, layer_⟩
  · exact ⟨(inv.outgoing id node at_ layer).1, (inv.incoming id node at_ layer).1⟩

def DistributedGraph.withManager (g : DistributedGraph n T W) (manager : LocationManager n) :
    DistributedGraph n T W :=
  { g with locationManager := manager }

-- The two graphs differ in what the location managers know.
def Alike (g h : DistributedGraph n T W) : Prop := ∃ manager, h = g.withManager manager

namespace Alike

variable {g h : DistributedGraph n T W}

theorem bind {x y : Option (DistributedGraph n T W)}
    {f f' : DistributedGraph n T W → Option (DistributedGraph n T W)} (alike : Option.Rel Alike x y)
    (next : ∀ g h, Alike g h → Option.Rel Alike (f g) (f' h)) : Option.Rel Alike (x.bind f) (y.bind f') := by
  cases alike with
  | none => exact .none
  | some related => exact next _ _ related

theorem read {α : Type} (x : Option α) {f f' : α → Option (DistributedGraph n T W)}
    (each : ∀ a, Option.Rel Alike (f a) (f' a)) : Option.Rel Alike (x.bind f) (x.bind f') := by
  cases x with
  | none => exact .none
  | some a => exact each a

theorem map {α : Type} (x : Option α) {f f' : α → DistributedGraph n T W}
    (each : ∀ a, Alike (f a) (f' a)) : Option.Rel Alike (x.map f) (x.map f') := by
  cases x with
  | none => exact .none
  | some a => exact .some (each a)

theorem mapBoth {x y : Option (DistributedGraph n T W)} {f f' : DistributedGraph n T W → DistributedGraph n T W}
    (alike : Option.Rel Alike x y) (next : ∀ g h, Alike g h → Alike (f g) (f' h)) :
    Option.Rel Alike (x.map f) (y.map f') := by
  cases alike with
  | none => exact .none
  | some related => exact .some (next _ _ related)

theorem foldlM {α : Type} {f : DistributedGraph n T W → α → Option (DistributedGraph n T W)}
    (each : ∀ g h x, Alike g h → Option.Rel Alike (f g x) (f h x)) (l : List α) (alike : Alike g h) :
    Option.Rel Alike (l.foldlM f g) (l.foldlM f h) := by
  induction l generalizing g h with
  | nil => exact .some alike
  | cons x rest ih =>
    rw [List.foldlM_cons, List.foldlM_cons]
    exact bind (each g h x alike) fun g h alike => ih alike

variable (alike : Alike g h) (order : HashOrder)

include alike

theorem eraseEdge (k : Id n) : Option.Rel Alike (g.eraseEdge k) (h.eraseEdge k) := by
  obtain ⟨manager, rfl⟩ := alike
  exact read _ fun edge => read _ fun source => read _ fun source => read _ fun target => map _ fun target =>
    ⟨manager, rfl⟩

theorem eraseEdges (ids : List (Id n)) : Option.Rel Alike (g.eraseEdges ids) (h.eraseEdges ids) :=
  foldlM (fun _ _ k alike => alike.eraseEdge k) ids alike

theorem eraseNode (id : Id n) : Option.Rel Alike (g.eraseNode order id) (h.eraseNode order id) := by
  have same : g.getNode id = h.getNode id := by
    obtain ⟨manager, rfl⟩ := alike
    rfl
  unfold DistributedGraph.eraseNode
  rw [same]
  refine read _ fun node => bind (alike.eraseEdges _) fun g h alike => ?_
  obtain ⟨manager, rfl⟩ := alike
  refine read _ fun node => bind (eraseEdges ⟨manager, rfl⟩ _) fun g h alike => ?_
  obtain ⟨manager, rfl⟩ := alike
  exact map _ fun node => ⟨_, rfl⟩

theorem setEdgeState (state : LocationState) (k : Id n) :
    Option.Rel Alike (g.setEdgeState state k) (h.setEdgeState state k) := by
  obtain ⟨manager, rfl⟩ := alike
  exact map _ fun edge => ⟨manager, rfl⟩

theorem setLocal (id : Id n) : Option.Rel Alike (g.setLocal id) (h.setLocal id) := by
  obtain ⟨manager, rfl⟩ := alike
  exact map _ fun node => ⟨_, rfl⟩

theorem setDistant (id : Id n) : Option.Rel Alike (g.setDistant order id) (h.setDistant order id) := by
  obtain ⟨manager, rfl⟩ := alike
  exact read _ fun node => foldlM (fun _ _ k alike => alike.setEdgeState .DISTANT k) _ ⟨_, rfl⟩

theorem importNode (node : NodeMessage n T W) :
    Option.Rel Alike (g.importNode node) (h.importNode node) := by
  obtain ⟨manager, rfl⟩ := alike
  show Option.Rel Alike (g.importNode node) ((g.withManager manager).importNode node)
  unfold DistributedGraph.importNode
  rw [show (g.withManager manager).getNode node.id = g.getNode node.id from rfl]
  cases g.getNode node.id with
  | none => exact setLocal ⟨manager, rfl⟩ _
  | some found => exact setLocal ⟨manager, rfl⟩ _

theorem insertDistant (node : NodeMessage n T W) :
    Option.Rel Alike (g.insertDistant order node) (h.insertDistant order node) := by
  obtain ⟨manager, rfl⟩ := alike
  unfold DistributedGraph.insertDistant
  rw [show (g.withManager manager).getNode node.id = g.getNode node.id from rfl]
  cases g.getNode node.id with
  | none => exact setDistant ⟨manager, rfl⟩ order _
  | some found => exact .some ⟨manager, rfl⟩

theorem linkOut (id : Id n) (layer : LayerId) (k : Id n) :
    Option.Rel Alike (g.linkOut id layer k) (h.linkOut id layer k) := by
  obtain ⟨manager, rfl⟩ := alike
  exact map _ fun node => ⟨manager, rfl⟩

theorem linkIn (id : Id n) (layer : LayerId) (k : Id n) :
    Option.Rel Alike (g.linkIn id layer k) (h.linkIn id layer k) := by
  obtain ⟨manager, rfl⟩ := alike
  exact map _ fun node => ⟨manager, rfl⟩

theorem importEnd [One W] (id : Id n) (data : T) (location : Fin n) :
    Option.Rel Alike (g.importEnd order id data location) (h.importEnd order id data location) := by
  obtain ⟨manager, rfl⟩ := alike
  unfold DistributedGraph.importEnd
  rw [show (g.withManager manager).getNode id = g.getNode id from rfl]
  cases g.getNode id with
  | none => exact setDistant ⟨manager, rfl⟩ order _
  | some found => exact .some ⟨manager, rfl⟩

theorem importEdge [One W] (edge : EdgeMessage n T W) :
    Option.Rel Alike (g.importEdge order edge) (h.importEdge order edge) := by
  have same : g.getEdge edge.id = h.getEdge edge.id := by
    obtain ⟨manager, rfl⟩ := alike
    rfl
  unfold DistributedGraph.importEdge
  rw [← same]
  cases g.getEdge edge.id with
  | none =>
    refine bind (alike.importEnd order _ _ _) fun g h alike => bind (alike.linkOut _ _ _) fun g h alike =>
      bind (alike.importEnd order _ _ _) fun g h alike => bind (alike.linkIn _ _ _) fun g h alike => ?_
    obtain ⟨manager, rfl⟩ := alike
    exact map _ fun both => ⟨manager, rfl⟩
  | some found =>
    obtain ⟨manager, rfl⟩ := alike
    refine read _ fun both => ?_
    split
    · exact setEdgeState ⟨manager, rfl⟩ _ _
    · exact .some ⟨manager, rfl⟩

theorem buildNode [One W] (data : T) : Option.Rel Alike (g.buildNode data) (h.buildNode data) := by
  obtain ⟨manager, rfl⟩ := alike
  refine mapBoth (setLocal ⟨manager, rfl⟩ g.nodeId) fun g h alike => ?_
  obtain ⟨manager, rfl⟩ := alike
  exact ⟨_, rfl⟩

theorem link [One W] (source target : Id n) (layer : LayerId) :
    Option.Rel Alike (g.link source target layer) (h.link source target layer) := by
  obtain ⟨manager, rfl⟩ := alike
  unfold DistributedGraph.link DistributedGraph.buildEdge
  simp only [Option.map_bind, Option.map_map, Function.comp_def]
  refine bind (linkOut ⟨manager, rfl⟩ source layer g.edgeId) fun g h alike =>
    bind (alike.linkIn target layer _) fun g h alike => ?_
  obtain ⟨manager, rfl⟩ := alike
  exact map _ fun both => ⟨manager, rfl⟩

theorem clearNode (id : Id n) : Option.Rel Alike (g.clearNode order id) (h.clearNode order id) := by
  obtain ⟨manager, rfl⟩ := alike
  refine read _ fun node => read _ fun neighbors => ?_
  split
  · exact eraseNode ⟨manager, rfl⟩ order id
  · exact eraseEdges ⟨manager, rfl⟩ _

theorem clear : Option.Rel Alike (g.clear order) (h.clear order) := by
  have same : g.edges = h.edges := by
    obtain ⟨manager, rfl⟩ := alike
    rfl
  unfold DistributedGraph.clear
  rw [same]
  refine bind (alike.eraseEdges _) fun g h alike => ?_
  obtain ⟨manager, rfl⟩ := alike
  exact foldlM (fun _ _ id alike => alike.eraseNode order id) _ ⟨manager, rfl⟩

theorem setData (id : Id n) (data : T) (weight : W) :
    Option.Rel Alike (g.setData id data weight) (h.setData id data weight) := by
  obtain ⟨manager, rfl⟩ := alike
  exact map _ fun node => ⟨manager, rfl⟩

end Alike

def LocationManager.file (manager : LocationManager n) (id : Id n) (state : LocationState) :
    LocationManager n :=
  match state with
  | .LOCAL =>
    { manager with
      localNodes := manager.localNodes.insert id ()
      distantNodes := manager.distantNodes.erase id }
  | .DISTANT =>
    { manager with
      localNodes := manager.localNodes.erase id
      distantNodes := manager.distantNodes.insert id () }

theorem LocationManager.mem_file (manager : LocationManager n) (id other : Id n) (state : LocationState) :
    (other ∈ (manager.file id state).localNodes ↔
      if other = id then state = .LOCAL else other ∈ manager.localNodes) ∧
    (other ∈ (manager.file id state).distantNodes ↔
      if other = id then state = .DISTANT else other ∈ manager.distantNodes) := by
  cases state <;> by_cases same : other = id <;> simp [LocationManager.file, same]

-- With the right location manager, the graph would be a graph of process `p`.
def Repairable (p : Fin n) (nodes edges : Id n → Prop) (g : DistributedGraph n T W) : Prop :=
  ∃ manager, WellFormed p nodes edges (g.withManager manager)

namespace Repairable

variable {p : Fin n} {nodes edges : Id n → Prop} {g g' : DistributedGraph n T W}

theorem of_alike (whole : Repairable p nodes edges g) {f : DistributedGraph n T W → Option (DistributedGraph n T W)}
    (alike : ∀ h, Alike g h → Option.Rel Alike (f g) (f h))
    (kept : ∀ h h', WellFormed p nodes edges h → f h = some h' → WellFormed p nodes edges h')
    (taken : f g = some g') : Repairable p nodes edges g' := by
  obtain ⟨manager, wf⟩ := whole
  have related := alike _ ⟨manager, rfl⟩
  rw [taken] at related
  cases result : f (g.withManager manager) with
  | none =>
    rw [result] at related
    cases related
  | some h' =>
    rw [result] at related
    cases related with
    | some both =>
      obtain ⟨manager', rfl⟩ := both
      exact ⟨manager', kept _ _ wf result⟩

theorem call [One W] (whole : Repairable p nodes edges g) {order : HashOrder} {made : GraphCall n T W}
    (fromNodes : ∀ id ∈ made.nodes, nodes id) (fromEdges : ∀ k ∈ made.edges, edges k)
    (taken : g.call order made = some g') : Repairable p nodes edges g' := by
  have kept : ∀ h h', WellFormed p nodes edges h → h.call order made = some h' →
      WellFormed p nodes edges h' := fun _ _ wf step => wf.call order fromNodes fromEdges step
  cases made with
  | buildNode data => exact whole.of_alike (fun _ alike => alike.buildNode data) kept taken
  | importNode node => exact whole.of_alike (fun _ alike => alike.importNode node) kept taken
  | insertDistant node => exact whole.of_alike (fun _ alike => alike.insertDistant order node) kept taken
  | importEdge edge => exact whole.of_alike (fun _ alike => alike.importEdge order edge) kept taken
  | link source target layer =>
    exact whole.of_alike (fun _ alike => alike.link source target layer) kept taken
  | unlink edge => exact whole.of_alike (fun _ alike => alike.eraseEdge edge) kept taken
  | eraseEdge edge => exact whole.of_alike (fun _ alike => alike.eraseEdge edge) kept taken
  | eraseNode node => exact whole.of_alike (fun _ alike => alike.eraseNode order node) kept taken
  | clear => exact whole.of_alike (fun _ alike => alike.clear order) kept taken
  | clearDistantNodes =>
    -- The nodes to clear are read from the location manager, whatever it knows.
    exact List.foldlM_kept (fun _ id _ _ whole step => whole.of_alike
      (fun _ alike => alike.clearNode order id) (fun _ _ wf step => (wf.clearNode order step).1) step)
      whole taken
  | setData node data weight =>
    exact whole.of_alike (fun _ alike => alike.setData node data weight) kept taken

theorem insert (whole : Repairable p nodes edges g) {id : Id n} (listed : nodes id)
    (node : DistributedNode n T W) (incoming : node.incomingEdges = ∅) (outgoing : node.outgoingEdges = ∅) :
    Repairable p nodes edges (g.insertNode id node) := by
  obtain ⟨manager, wf⟩ := whole
  cases at_ : g.getNode id with
  | some found =>
    have present : id ∈ g.nodes := (UnorderedMap.mem_iff_lookup _ _).mpr ⟨found, at_⟩
    have unchanged : g.nodes.insertNew id node = g.nodes := if_pos present
    refine ⟨manager, ?_⟩
    unfold DistributedGraph.insertNode
    rw [unchanged]
    exact wf
  | none =>
    have placed : Placed (g.withManager manager)
        ((g.insertNode id node).withManager (manager.file id node.state)) id node := by
      refine ⟨DistributedGraph.getNode_insertNode at_ node, fun k => rfl, fun other => ?_, fun other => ?_⟩
      · exact (manager.mem_file id other node.state).1
      · exact (manager.mem_file id other node.state).2
    refine ⟨manager.file id node.state, wf.extend (placed.inv wf.inv (.inr ⟨at_, incoming, outgoing⟩)) ?_⟩
    refine ⟨rfl, rfl, le_rfl, rfl, le_rfl, fun other core found => ?_, fun k e found => .inl ⟨e, found⟩⟩
    by_cases same : other = id
    · exact .inr (.inl (same ▸ listed))
    · rw [placed.core, Function.update_of_ne same] at found
      exact .inl ⟨core, found⟩

end Repairable

-- The ids of process `p` that are below a counter, and all those of the others.
def Below (p : Fin n) (next : Nat) (id : Id n) : Prop := id.rank = p → id.id < next

-- What a run keeps, between two edits.
def Adjacent (p : Fin n) (g : DistributedGraph n T W) : Prop :=
  Repairable p (Below p g.nodeId.id) (Below p g.edgeId.id) g

theorem Repairable.adjacent {p : Fin n} {nodes edges : Id n → Prop} {g : DistributedGraph n T W}
    (whole : Repairable p nodes edges g) : Adjacent p g := by
  obtain ⟨manager, wf⟩ := whole
  refine ⟨manager, wf.inv, wf.rank, wf.nodeRank, wf.edgeRank, fun id core found => ?_, fun k e found => ?_,
    fun id below => below, fun k below => below⟩
  · refine .inl fun own => ?_
    rcases wf.node id core found with issued | ⟨_, issued⟩
    · exact wf.nodesIssued id issued own
    · exact issued
  · refine .inl fun own => ?_
    rcases wf.edge k e found with issued | ⟨_, issued⟩
    · exact wf.edgesIssued k issued own
    · exact issued

theorem Adjacent.next [One W] {p : Fin n} {g g' : DistributedGraph n T W} (adjacent : Adjacent p g)
    {edit : GraphEdit n T W} (genuine : edit.Genuine g) (taken : edit.next g = some g') :
    Adjacent p g' := by
  have rank : g.rank = p := by
    obtain ⟨manager, wf⟩ := adjacent
    exact wf.rank
  have fromNodes : ∀ id ∈ edit.nodes, Below p g.nodeId.id id := fun id listed own =>
    genuine.1 id listed (own.trans rank.symm)
  have fromEdges : ∀ k ∈ edit.edges, Below p g.edgeId.id k := fun k listed own =>
    genuine.2 k listed (own.trans rank.symm)
  have whole : Repairable p (Below p g.nodeId.id) (Below p g.edgeId.id) g' := by
    cases edit with
    | insert id data weight location state =>
      cases taken
      exact Repairable.insert adjacent (fromNodes id List.mem_cons_self) _ rfl rfl
    | call order made => exact Repairable.call adjacent fromNodes fromEdges taken
  exact whole.adjacent

theorem adjacent_empty (p : Fin n) : Adjacent p (DistributedGraph.empty p : DistributedGraph n T W) := by
  have noCore : ∀ id, (DistributedGraph.empty p : DistributedGraph n T W).view.core id = none := fun _ => rfl
  refine ⟨_, graphInv_empty p, rfl, rfl, rfl, fun id core found => ?_, fun k e found => ?_, fun _ below => below,
    fun _ below => below⟩
  · cases (noCore id).symm.trans found
  · cases found

/-- Through every sequence of insertions, links and erasures, the two copies of the adjacency agree, and
a node is erased with its own edges only. -/
theorem adjacency_invariant [One W] {g : DistributedGraph n T W}
    (reached : (localGraph n T W).ReachableBy (fun g edit => edit.Genuine g) g) :
    Adjacency g ∧ ∀ order id node, g.getNode id = some node →
      ∃ g', g.eraseNode order id = some g' ∧
        (∀ other, (g'.getNode other).map (·.core) =
          if other = id then none else (g.getNode other).map (·.core)) ∧
        ∀ k e, g'.getEdge k = some e ↔ g.getEdge k = some e ∧ e.source ≠ id ∧ e.target ≠ id := by
  have adjacent : ∃ p, Adjacent p g := by
    refine reached.invariant (I := fun g => ∃ p, Adjacent p g) ?_ ?_
    · rintro g ⟨rank, rfl⟩
      exact ⟨rank, adjacent_empty rank⟩
    · rintro g edit t _ ⟨p, adjacent⟩ genuine taken
      exact ⟨p, adjacent.next genuine taken⟩
  obtain ⟨p, manager, wf⟩ := adjacent
  have both := wf.inv.adjacency
  refine ⟨⟨both.listed, both.once⟩, fun order id node at_ => ?_⟩
  have inside : (g.withManager manager).getNode id = some node := at_
  obtain ⟨h, erased, _, view⟩ := wf.inv.eraseNode order inside
  have related := Alike.eraseNode (g := g) ⟨manager, rfl⟩ order id
  rw [erased] at related
  cases result : g.eraseNode order id with
  | none =>
    rw [result] at related
    cases related
  | some g' =>
    rw [result] at related
    cases related with
    | some alike =>
      obtain ⟨manager', rfl⟩ := alike
      refine ⟨g', rfl, fun other => ?_, fun k e => ?_⟩
      · exact (congrFun (congrArg GraphView.core view) other).trans (GraphView.eraseNode_core id other)
      · show (g'.withManager manager').view.edge k = some e ↔ _
        rw [view]
        refine GraphView.eraseNode_edge.trans (and_congr_right fun _ => ?_)
        unfold DistributedEdge.Touches
        exact not_or

theorem adjacency_loop : ∃ g, (localGraph 2 Unit Nat).execBy (fun g edit => edit.Genuine g)
    (DistributedGraph.empty 0)
    [.insert ⟨1, 0⟩ () 1 1 .DISTANT, .call .insertion (.buildNode ()),
      .call .insertion (.link ⟨0, 0⟩ ⟨0, 0⟩ 0), .call .insertion (.link ⟨0, 0⟩ ⟨1, 0⟩ 0),
      .call .insertion (.link ⟨0, 0⟩ ⟨1, 0⟩ 0)] = some g ∧ Adjacency g := by
  have run : ((localGraph 2 Unit Nat).execBy (fun g edit => edit.Genuine g) (DistributedGraph.empty 0)
      [.insert ⟨1, 0⟩ () 1 1 .DISTANT, .call .insertion (.buildNode ()),
        .call .insertion (.link ⟨0, 0⟩ ⟨0, 0⟩ 0), .call .insertion (.link ⟨0, 0⟩ ⟨1, 0⟩ 0),
        .call .insertion (.link ⟨0, 0⟩ ⟨1, 0⟩ 0)]).isSome = true := by decide
  obtain ⟨g, taken⟩ := Option.isSome_iff_exists.mp run
  exact ⟨g, taken, (adjacency_invariant (TransitionSystem.ReachableBy.execBy _ (.start ⟨0, rfl⟩) taken)).1⟩

end Fpmas.Graph
