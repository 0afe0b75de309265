import Fpmas.Graph.HalfLinked
import Fpmas.Synchro.Hard.EdgeLife
import Fpmas.Synchro.Hard.HardSyncLinker
import Fpmas.Synchro.HostSteps

set_option autoImplicit false

namespace Fpmas.Graph.GlobalGraph

variable {n : Nat} {T W : Type}

-- `p` owns one of the nodes of the edge.
def Near (G : GlobalGraph n T W) (p : Fin n) (edge : GlobalEdge n W) : Prop :=
  G.Owns p edge.source ∨ G.Owns p edge.target

variable {G G' : GlobalGraph n T W}

theorem Grows.near (grows : Grows G G') {edge : GlobalEdge n W}
    (source : ∃ node, G.node edge.source = some node) (target : ∃ node, G.node edge.target = some node)
    (p : Fin n) : G'.Near p edge ↔ G.Near p edge := by
  obtain ⟨_, atSource⟩ := source
  obtain ⟨_, atTarget⟩ := target
  exact or_congr (grows.owns atSource) (grows.owns atTarget)

theorem Grows.stateAt (grows : Grows G G') {edge : GlobalEdge n W}
    (source : ∃ node, G.node edge.source = some node) (target : ∃ node, G.node edge.target = some node)
    (p : Fin n) : G'.stateAt p edge = G.stateAt p edge := by
  obtain ⟨_, atSource⟩ := source
  obtain ⟨_, atTarget⟩ := target
  unfold GlobalGraph.stateAt
  simp only [grows.owns atSource, grows.owns atTarget]

theorem stateAt_local {p : Fin n} {edge : GlobalEdge n W} :
    G.stateAt p edge = .LOCAL ↔ G.Owns p edge.source ∧ G.Owns p edge.target := by
  unfold GlobalGraph.stateAt
  split
  next both => exact iff_of_true rfl both
  next apart => exact iff_of_false LocationState.noConfusion apart

theorem stateAt_distant {p : Fin n} {edge : GlobalEdge n W} :
    G.stateAt p edge = .DISTANT ↔ ¬ (G.Owns p edge.source ∧ G.Owns p edge.target) := by
  rw [← stateAt_local, LocationState.not_local]

theorem near_of_local {p : Fin n} {edge : GlobalEdge n W} (alone : ¬ G.stateAt p edge = .DISTANT)
    (q : Fin n) : G.Near q edge ↔ q = p := by
  rw [stateAt_distant, not_not] at alone
  constructor
  · rintro (owned | owned)
    · exact owns_unique owned alone.1
    · exact owns_unique owned alone.2
  · rintro rfl
    exact .inl alone.1

end Fpmas.Graph.GlobalGraph

namespace Fpmas.Synchro.Hard

open Fpmas.Graph

variable {n : Nat} {T W : Type}

namespace LinkFrame

def Links (id : Id n) : LinkFrame n T W → Prop
  | link k _ _ => k = id
  | _ => False

def Unlinks (id : Id n) : LinkFrame n T W → Prop
  | unlink k _ => k = id
  | _ => False

end LinkFrame

/-- What a process does with one edge. -/
@[ext]
structure EdgeRole (n : Nat) where
  present : Prop
  linking : Prop
  unlinking : Prop
  ghost : Prop
  -- The processes that its LINK request, or its UNLINK request, has not reached yet.
  asks : Fin n → Prop
  tells : Fin n → Prop

namespace HardProcess

variable (s : HardProcess n T W)

/-- The graph of the process, with the edge that it is linking: its nodes list it already. -/
def whole : DistributedGraph n T W :=
  match s.stack with
  | [.link id edge _] => s.graph.insertEdge id edge
  | _ => s.graph

def role (id : Id n) : EdgeRole n where
  present := ∃ edge, s.whole.getEdge id = some edge
  linking := ∃ call ∈ s.stack, call.Links id
  unlinking := ∃ call ∈ s.stack, call.Unlinks id
  ghost := id ∈ s.ghostEdges
  asks q := ∃ call ∈ s.stack, call.Links id ∧ ∃ request ∈ call.sends, request.dest = q
  tells q := ∃ call ∈ s.stack, call.Unlinks id ∧ ∃ request ∈ call.sends, request.dest = q

variable {s}

theorem whole_idle (idle : s.stack = []) : s.whole = s.graph := by
  unfold whole
  rw [idle]

theorem whole_link {id : Id n} {edge : DistributedEdge n W} {sends : List (LinkRequest n T W)}
    (call : s.stack = [.link id edge sends]) : s.whole = s.graph.insertEdge id edge := by
  unfold whole
  rw [call]

theorem whole_unlink {id : Id n} {sends : List (LinkRequest n T W)}
    (call : s.stack = [.unlink id sends]) : s.whole = s.graph := by
  unfold whole
  rw [call]

theorem role_idle (idle : s.stack = []) (id : Id n) : s.role id =
    { present := ∃ edge, s.whole.getEdge id = some edge
      linking := False
      unlinking := False
      ghost := id ∈ s.ghostEdges
      asks := fun _ => False
      tells := fun _ => False } := by
  ext <;> simp [role, idle]

theorem role_link {k : Id n} {edge : DistributedEdge n W} {sends : List (LinkRequest n T W)}
    (call : s.stack = [.link k edge sends]) (id : Id n) : s.role id =
    { present := ∃ edge, s.whole.getEdge id = some edge
      linking := k = id
      unlinking := False
      ghost := id ∈ s.ghostEdges
      asks := fun q => k = id ∧ q ∈ sends.map (·.dest)
      tells := fun _ => False } := by
  ext <;> simp [role, call, LinkFrame.Links, LinkFrame.Unlinks, LinkFrame.sends]

theorem role_unlink {k : Id n} {sends : List (LinkRequest n T W)}
    (call : s.stack = [.unlink k sends]) (id : Id n) : s.role id =
    { present := ∃ edge, s.whole.getEdge id = some edge
      linking := False
      unlinking := k = id
      ghost := id ∈ s.ghostEdges
      asks := fun _ => False
      tells := fun q => k = id ∧ q ∈ sends.map (·.dest) } := by
  ext <;> simp [role, call, LinkFrame.Links, LinkFrame.Unlinks, LinkFrame.sends]

end HardProcess

/-- The life of the edge `id` of `G`. -/
def HardSystem.life (s : HardSystem n T W) (G : GlobalGraph n T W) (id : Id n) (edge : GlobalEdge n W) :
    EdgeLife (Fin n) where
  near q := G.Near q edge
  removed := id ∈ s.unlinked
  present q := ((s.process q).role id).present
  linking q := ((s.process q).role id).linking
  unlinking q := ((s.process q).role id).unlinking
  ghost q := ((s.process q).role id).ghost
  asks p q := ((s.process p).role id).asks q
  tells p q := ((s.process p).role id).tells q

/-- A LINK request tells where the nodes of the edge are. -/
def LinkRequest.Carries (request : LinkRequest n T W) (G : GlobalGraph n T W) (id : Id n) : Prop :=
  ∃ message edge, request.message = .link message ∧ message.id = id ∧ G.edge id = some edge ∧
    message.Carries edge ∧ G.Owns message.sourceLocation edge.source ∧
    G.Owns message.targetLocation edge.target

/-- The calls that `p` may be in, when nobody removes nodes. -/
inductive InCall (G : GlobalGraph n T W) (p : Fin n) (graph : DistributedGraph n T W) :
    List (LinkFrame n T W) → Prop
  | idle : InCall G p graph []
  -- Nobody but `p` links an edge that has the rank of `p`.
  | link {id : Id n} {edge : DistributedEdge n W} {sends : List (LinkRequest n T W)}
      (half : graph.getEdge id = none) (mine : id.rank = p) (once : (sends.map (·.dest)).Nodup)
      (sent : ∀ request ∈ sends, request.dest ≠ p ∧ request.Carries G id) :
      InCall G p graph [.link id edge sends]
  | unlink {id : Id n} {sends : List (LinkRequest n T W)} (inside : ∃ edge, G.edge id = some edge)
      (sent : ∀ request ∈ sends, request.dest ≠ p ∧ request.message = .unlink id) :
      InCall G p graph [.unlink id sends]

/-- What holds on a process at any time, while `G` are the nodes and the edges that have been built. -/
structure LiveProcess (G : GlobalGraph n T W) (p : Fin n) (s : HardProcess n T W) : Prop where
  graph : GraphInv s.whole
  edges : ∀ k e, s.whole.getEdge k = some e →
    ∃ edge, G.edge k = some edge ∧ e = edge.stored (G.stateAt p edge)
  call : InCall G p s.graph s.stack
  locked : ∀ k, k ∈ s.server.lockedUnlinkEdges ↔ (s.role k).unlinking
  stays : s.server.lockedRemoveNodes = [] ∧ s.nodesToRemove = []
  once : s.ghostEdges.Nodup
  ghosts : ∀ k ∈ s.ghostEdges, ∃ edge, G.edge k = some edge
  settled : s.synchronizing = true → s.stack = [] ∧ s.ghostEdges = []

/-- What holds in any state, while nobody removes nodes. -/
structure Live (G : GlobalGraph n T W) (s : HardSystem n T W) : Prop where
  process : ∀ p, LiveProcess G p (s.process p)
  hosts : Hosts G fun p => (s.process p).whole.view
  linked : ∀ k edge, G.edge k = some edge → s.linked k = some edge
  -- Until a synchronization, `G` has the edges that have been unlinked.
  kept : ∀ k edge, s.linked k = some edge → k ∉ s.unlinked → G.edge k = some edge
  issued : ∀ k edge, s.linked k = some edge → k.id < (s.process k.rank).whole.edgeId.id
  unlinked : ∀ k ∈ s.unlinked, ∃ edge, s.linked k = some edge
  ok : ∀ k edge, G.edge k = some edge → (s.life G k edge).Ok

section

variable {G G' : GlobalGraph n T W} {p : Fin n} {s : HardProcess n T W}

open GlobalGraph

theorem LinkRequest.Carries.grow {request : LinkRequest n T W} {id : Id n}
    (carries : request.Carries G id) (grows : Grows G G') : request.Carries G' id := by
  obtain ⟨message, edge, sent, same, inside, carries, ⟨_, source, owner⟩, _, target, owner'⟩ := carries
  exact ⟨message, edge, sent, same, grows.edge _ _ inside, carries,
    ⟨_, grows.node _ _ source, owner⟩, _, grows.node _ _ target, owner'⟩

theorem InCall.grow {graph : DistributedGraph n T W} {stack : List (LinkFrame n T W)}
    (call : InCall G p graph stack) (grows : Grows G G') : InCall G' p graph stack := by
  cases call with
  | idle => exact .idle
  | link half mine once sent =>
    exact .link half mine once fun request member =>
      ⟨(sent request member).1, (sent request member).2.grow grows⟩
  | unlink inside sent =>
    obtain ⟨edge, inside⟩ := inside
    exact .unlink ⟨edge, grows.edge _ _ inside⟩ sent

theorem LiveProcess.grow (live : LiveProcess G p s) (grows : Grows G G')
    (closed : ∀ k edge, G.edge k = some edge →
      (∃ source, G.node edge.source = some source) ∧ ∃ target, G.node edge.target = some target) :
    LiveProcess G' p s where
  graph := live.graph
  edges k e found := by
    obtain ⟨edge, inside, stored⟩ := live.edges k e found
    obtain ⟨source, target⟩ := closed k edge inside
    exact ⟨edge, grows.edge k edge inside, by rw [grows.stateAt source target, stored]⟩
  call := live.call.grow grows
  locked := live.locked
  stays := live.stays
  once := live.once
  ghosts k member := by
    obtain ⟨edge, inside⟩ := live.ghosts k member
    exact ⟨edge, grows.edge k edge inside⟩
  settled := live.settled

/-- An edge of the graph of a process is also one of the whole graph. -/
theorem LiveProcess.whole_of_graph (live : LiveProcess G p s) {k : Id n} {e : DistributedEdge n W}
    (found : s.graph.getEdge k = some e) : s.whole.getEdge k = some e := by
  have call := live.call
  unfold HardProcess.whole
  cases stack : s.stack with
  | nil => exact found
  | cons first rest =>
    rw [stack] at call
    cases call with
    | link half mine once sent =>
      rw [DistributedGraph.getEdge_insertEdge half, if_neg, found]
      rintro rfl
      cases half.symm.trans found
    | unlink inside sent => exact found

theorem LiveProcess.graph_of_whole (live : LiveProcess G p s) {k : Id n} {e : DistributedEdge n W}
    (found : s.whole.getEdge k = some e) (free : ¬ (s.role k).linking) : s.graph.getEdge k = some e := by
  have call := live.call
  cases stack : s.stack with
  | nil =>
    rw [HardProcess.whole_idle stack] at found
    exact found
  | cons first rest =>
    rw [stack] at call
    cases call with
    | @link id edge sends half mine once sent =>
      have apart : id ≠ k := by
        intro same
        rw [HardProcess.role_link stack] at free
        exact free same
      rw [HardProcess.whole_link stack, DistributedGraph.getEdge_insertEdge half,
        if_neg (Ne.symm apart)] at found
      exact found
    | unlink inside sent =>
      rw [HardProcess.whole_unlink stack] at found
      exact found

theorem HardProcess.running_idle (runs : s.running = true) :
    s.stack = [] ∧ s.synchronizing = false := by
  unfold HardProcess.running at runs
  rw [Bool.and_eq_true, List.isEmpty_iff, Bool.not_eq_true'] at runs
  exact runs

end

end Fpmas.Synchro.Hard
