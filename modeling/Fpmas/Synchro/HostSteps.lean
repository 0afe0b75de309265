import Fpmas.Graph.DistributePhases
import Fpmas.Graph.Import

set_option autoImplicit false

namespace Fpmas.Graph

variable {n : Nat} {T W : Type}

namespace GlobalGraph

section

variable (G : GlobalGraph n T W)

def buildNode [One W] (p : Fin n) (id : Id n) (data : T) : GlobalGraph n T W :=
  { G with node := Function.update G.node id (some { owner := p, data, weight := 1 }) }

def link (k : Id n) (edge : GlobalEdge n W) : GlobalGraph n T W :=
  { G with edge := Function.update G.edge k (some edge) }

def unlink (k : Id n) : GlobalGraph n T W :=
  { G with edge := Function.update G.edge k none }

-- Only the owner of a node changes it: what is written to a DISTANT node is lost.
def setData (p : Fin n) (id : Id n) (data : T) (weight : W) : GlobalGraph n T W :=
  { G with
    node := fun other => (G.node other).map fun node =>
      if other = id ∧ node.owner = p then { node with data, weight } else node }

variable {G}

theorem link_edge (k j : Id n) (edge : GlobalEdge n W) :
    (G.link k edge).edge j = if j = k then some edge else G.edge j :=
  Function.update_apply _ _ _ _

theorem unlink_edge (k j : Id n) : (G.unlink k).edge j = if j = k then none else G.edge j :=
  Function.update_apply _ _ _ _

theorem unlink_some {k j : Id n} {edge : GlobalEdge n W} :
    (G.unlink k).edge j = some edge ↔ j ≠ k ∧ G.edge j = some edge := by
  rw [unlink_edge]
  by_cases same : j = k <;> simp [same]

theorem buildNode_node [One W] (p : Fin n) (id x : Id n) (data : T) :
    (G.buildNode p id data).node x =
      if x = id then some { owner := p, data, weight := 1 } else G.node x :=
  Function.update_apply _ _ _ _

theorem buildNode_owns [One W] {p q : Fin n} {id x : Id n} {data : T} {node : GlobalNode n T W}
    (fresh : G.node id = none) (inside : G.node x = some node) :
    (G.buildNode p id data).Owns q x ↔ G.Owns q x := by
  have other : x ≠ id := by
    rintro rfl
    cases fresh.symm.trans inside
  unfold Owns
  rw [buildNode_node, if_neg other]

theorem setData_some {p : Fin n} {id x : Id n} {data : T} {weight : W} {node' : GlobalNode n T W} :
    (G.setData p id data weight).node x = some node' ↔ ∃ node, G.node x = some node ∧
      (if x = id ∧ node.owner = p then { node with data, weight } else node) = node' :=
  Option.map_eq_some_iff

theorem setData_owns {p q : Fin n} {id x : Id n} {data : T} {weight : W} :
    (G.setData p id data weight).Owns q x ↔ G.Owns q x := by
  constructor
  · rintro ⟨_, inside, owner⟩
    obtain ⟨node, before, rfl⟩ := setData_some.mp inside
    refine ⟨node, before, ?_⟩
    split at owner
    next => exact owner
    next => exact owner
  · rintro ⟨node, inside, owner⟩
    refine ⟨_, setData_some.mpr ⟨node, inside, rfl⟩, ?_⟩
    split
    next => exact owner
    next => exact owner

end

/-- `G'` has all that `G` has. -/
structure Grows (G G' : GlobalGraph n T W) : Prop where
  node : ∀ id node, G.node id = some node → G'.node id = some node
  edge : ∀ k edge, G.edge k = some edge → G'.edge k = some edge

variable {G G' : GlobalGraph n T W}

theorem Grows.refl (G : GlobalGraph n T W) : Grows G G := ⟨fun _ _ h => h, fun _ _ h => h⟩

theorem Grows.owns (grows : Grows G G') {p : Fin n} {id : Id n} {node : GlobalNode n T W}
    (inside : G.node id = some node) : G'.Owns p id ↔ G.Owns p id := by
  constructor
  · rintro ⟨node', inside', owner⟩
    cases (grows.node id node inside).symm.trans inside'
    exact ⟨node, inside, owner⟩
  · rintro ⟨node', inside', owner⟩
    exact ⟨node', grows.node id node' inside', owner⟩

end GlobalGraph

variable {G : GlobalGraph n T W} {v : Fin n → GraphView n T W}

namespace Hosts

theorem node_fresh (hosts : Hosts G v) (p q : Fin n) :
    G.node (v p).nodeId = none ∧ (v q).core (v p).nodeId = none := by
  have absent : G.node (v p).nodeId = none := by
    cases inside : G.node (v p).nodeId with
    | none => rfl
    | some node =>
      have issued := hosts.nodesIssued _ node inside
      rw [hosts.nodeId p] at issued
      exact absurd issued (Nat.lt_irrefl _)
  refine ⟨absent, ?_⟩
  cases found : (v q).core (v p).nodeId with
  | none => rfl
  | some core =>
    obtain ⟨node, inside, _⟩ := hosts.ghost q _ core found
    cases absent.symm.trans inside

theorem edge_fresh (hosts : Hosts G v) (p : Fin n) : G.edge (v p).edgeId = none := by
  cases inside : G.edge (v p).edgeId with
  | none => rfl
  | some edge =>
    have issued := hosts.edgesIssued _ edge inside
    rw [hosts.edgeId p] at issued
    exact absurd issued (Nat.lt_irrefl _)

theorem grows_link (hosts : Hosts G v) (p : Fin n) (edge : GlobalEdge n W) :
    GlobalGraph.Grows G (G.link (v p).edgeId edge) := by
  refine ⟨fun _ _ inside => inside, fun j e inside => ?_⟩
  rw [GlobalGraph.link_edge, if_neg, inside]
  rintro rfl
  cases (hosts.edge_fresh p).symm.trans inside

theorem stateAt (hosts : Hosts G v) (p : Fin n) (edge : GlobalEdge n W) :
    G.stateAt p edge = (v p).edgeState edge.source edge.target := by
  unfold GlobalGraph.stateAt GraphView.edgeState
  simp only [hosts.isLocal p]

theorem gain (hosts : Hosts G v) {q : Fin n} {view : GraphView n T W}
    (kept : ∀ id core, (v q).core id = some core → view.core id = some core)
    (ghost : ∀ id core, view.core id = some core →
      (v q).core id = some core ∨ core.state = .DISTANT ∧ G.Owns core.location id)
    (rest : view = { v q with
      core := view.core
      edge := view.edge }) : Hosts G (Function.update v q view) := by
  have same : ∀ {α : Type} (f : GraphView n T W → α), f view = f (v q) → ∀ p,
      f (Function.update v q view p) = f (v p) := by
    intro α f unchanged p
    rw [Function.update_apply]
    split
    case isTrue here => rw [here, unchanged]
    case isFalse => rfl
  have rank := same GraphView.rank (by rw [rest])
  have managed := same GraphView.managed (by rw [rest])
  have newLocal := same GraphView.newLocal (by rw [rest])
  have nodeId := same GraphView.nodeId (by rw [rest])
  have edgeId := same GraphView.edgeId (by rw [rest])
  refine ⟨fun p => (rank p).trans (hosts.rank p), fun id node inside => ?_, fun p id core found => ?_,
    hosts.closed, fun id node inside => ?_, fun p id fresh => ?_, fun p => ?_, fun p => ?_,
    fun id node inside => ?_, fun k edge inside => ?_⟩
  · have home := hosts.home id node inside
    rw [Function.update_apply]
    split
    next here => exact kept id _ (here ▸ home)
    next => exact home
  · by_cases here : p = q
    · subst here
      rw [Function.update_self] at found
      rcases ghost id core found with before | ⟨distant, node, inside, location⟩
      · exact hosts.ghost p id core before
      · exact ⟨node, inside, fun _ => ⟨distant, location.symm⟩⟩
    · rw [Function.update_of_ne here] at found
      exact hosts.ghost p id core found
  · rw [managed]
    exact hosts.managed id node inside
  · rw [newLocal] at fresh
    exact hosts.newLocal p id fresh
  · rw [nodeId]
    exact hosts.nodeId p
  · rw [edgeId]
    exact hosts.edgeId p
  · rw [nodeId]
    exact hosts.nodesIssued id node inside
  · rw [edgeId]
    exact hosts.edgesIssued k edge inside

theorem importEdge [One W] (hosts : Hosts G v) {q : Fin n} {message : EdgeMessage n T W}
    {edge : GlobalEdge n W} (carries : message.Carries edge) (fresh : (v q).edge message.id = none)
    (source : G.Owns message.sourceLocation edge.source)
    (target : G.Owns message.targetLocation edge.target) :
    Hosts G (Function.update v q ((v q).importEdge message)) ∧
      ((v q).importEdge message).edgeId = (v q).edgeId ∧
      ∀ k, ((v q).importEdge message).edge k =
        if k = message.id then some (edge.stored (G.stateAt q edge)) else (v q).edge k := by
  have imported := GraphView.importEdge_one (v := v q) message fun e found => by
    cases fresh.symm.trans found
  obtain ⟨layer, weight, atSource, atTarget⟩ := carries
  refine ⟨hosts.gain imported.kept (fun id core found => ?_) imported.rest,
    by rw [imported.rest], fun k => ?_⟩
  · refine (imported.ghost id core found).imp_right ?_
    rintro ⟨distant, sent, member, ends⟩
    rw [List.mem_singleton] at member
    subst member
    refine ⟨distant, ?_⟩
    rcases ends with ⟨rfl, location⟩ | ⟨rfl, location⟩
    · rw [location, atSource]
      exact source
    · rw [location, atTarget]
      exact target
  · rw [imported.edge]
    simp only [List.map_cons, List.map_nil, List.mem_singleton]
    rw [layer, weight, atSource, atTarget, hosts.stateAt q edge]
    rfl

theorem link (hosts : Hosts G v) {p : Fin n} {edge : GlobalEdge n W} {view : GraphView n T W}
    (source : ∃ node, G.node edge.source = some node) (target : ∃ node, G.node edge.target = some node)
    (rest : view = { v p with
      edge := view.edge
      edgeId := (v p).edgeId.next }) :
    Hosts (G.link (v p).edgeId edge) (Function.update v p view) := by
  have same : ∀ {α : Type} (f : GraphView n T W → α), f view = f (v p) → ∀ q,
      f (Function.update v p view q) = f (v q) := by
    intro α f unchanged q
    rw [Function.update_apply]
    split
    case isTrue here => rw [here, unchanged]
    case isFalse => rfl
  have edgeId : ∀ q, (Function.update v p view q).edgeId =
      if q = p then (v p).edgeId.next else (v q).edgeId := by
    intro q
    rw [Function.update_apply]
    split
    next => rw [rest]
    next => rfl
  refine hosts.withEdges (same GraphView.core (by rw [rest])) (same GraphView.rank (by rw [rest]))
    (same GraphView.managed (by rw [rest])) (same GraphView.newLocal (by rw [rest]))
    (same GraphView.nodeId (by rw [rest])) (fun q => ?_) (fun k e inside => ?_) fun k e inside => ?_
  · rw [edgeId]
    split
    next here => rw [here]; exact hosts.edgeId p
    next => exact hosts.edgeId q
  · rw [Function.update_apply] at inside
    split at inside
    next =>
      cases inside
      exact ⟨source, target⟩
    next => exact hosts.closed k e inside
  · rw [Function.update_apply] at inside
    rw [edgeId]
    split at inside
    next here =>
      rw [here, hosts.edgeId p, if_pos rfl]
      exact Nat.lt_succ_self _
    next =>
      have issued := hosts.edgesIssued k e inside
      split
      next there =>
        rw [there] at issued
        exact Nat.lt_succ_of_lt issued
      next => exact issued

theorem buildNode [One W] (hosts : Hosts G v) (p : Fin n) (data : T) :
    Hosts (G.buildNode p (v p).nodeId data) (Function.update v p ((v p).buildNode data)) := by
  have fresh := hosts.node_fresh p
  have rank : (v p).nodeId.rank = p := hosts.nodeId p
  have rankP : (v p).rank = p := hosts.rank p
  have at_ : Function.update v p ((v p).buildNode data) p = (v p).buildNode data :=
    Function.update_self _ _ _
  have off : ∀ q, q ≠ p → Function.update v p ((v p).buildNode data) q = v q :=
    fun q other => Function.update_of_ne other _ _
  generalize Function.update v p ((v p).buildNode data) = u at at_ off
  generalize stored : (v p).nodeId = id at fresh rank
  have node : ∀ x, (G.buildNode p id data).node x =
      if x = id then some { owner := p, data, weight := 1 } else G.node x :=
    fun x => GlobalGraph.buildNode_node _ _ _ _
  have older : ∀ x node, G.node x = some node → x ≠ id := by
    rintro x node inside rfl
    cases (fresh p).1.symm.trans inside
  have grown : ∀ x node, G.node x = some node → (G.buildNode p id data).node x = some node := by
    intro x old inside
    rw [node, if_neg (older x old inside), inside]
  have core : ∀ q x, (u q).core x = if q = p ∧ x = id then
      some { data, weight := 1, location := p, state := .LOCAL } else (v q).core x := by
    intro q x
    by_cases same : q = p
    · subst same
      rw [at_]
      simp only [GraphView.buildNode, Function.update_apply, stored, true_and, rankP]
    · rw [off q same, if_neg fun both => same both.1]
  have keep : ∀ {α : Type} (f : GraphView n T W → α), f ((v p).buildNode data) = f (v p) →
      ∀ q, f (u q) = f (v q) := by
    intro α f unchanged q
    by_cases same : q = p
    · rw [same, at_, unchanged]
    · rw [off q same]
  have nodeId : ∀ q, (u q).nodeId = if q = p then id.next else (v q).nodeId := by
    intro q
    split
    next same =>
      rw [same, at_, ← stored]
      rfl
    next other => rw [off q other]
  refine ⟨fun q => (keep GraphView.rank rfl q).trans (hosts.rank q), fun x built inside => ?_,
    fun q x c found => ?_, fun k e inside => ?_, fun x built inside => ?_, fun q x new => ?_,
    fun q => ?_, fun q => ?_, fun x built inside => ?_, fun k e inside => ?_⟩
  · rw [node] at inside
    rw [core]
    split at inside
    next here =>
      cases inside
      rw [if_pos ⟨rfl, here⟩]
    next other =>
      rw [if_neg fun both => other both.2]
      exact hosts.home x built inside
  · rw [core] at found
    split at found
    next both =>
      refine ⟨_, (node x).trans (if_pos both.2), fun away => absurd both.1 away⟩
    next =>
      obtain ⟨old, inside, elsewhere⟩ := hosts.ghost q x c found
      exact ⟨old, grown x old inside, elsewhere⟩
  · obtain ⟨⟨source, atSource⟩, target, atTarget⟩ := hosts.closed k e inside
    exact ⟨⟨source, grown _ source atSource⟩, target, grown _ target atTarget⟩
  · rw [node] at inside
    split at inside
    next here =>
      cases inside
      subst here
      rw [rank, at_]
      simp only [GraphView.buildNode, stored, Function.update_self, rankP]
    next other =>
      have managed : (u x.rank).managed x = (v x.rank).managed x := by
        by_cases same : x.rank = p
        · rw [same, at_]
          exact Function.update_of_ne (by rw [stored]; exact other) _ _
        · rw [off _ same]
      rw [managed]
      exact hosts.managed x built inside
  · have newLocal : x = id ∧ q = p ∨ (v q).newLocal x := by
      by_cases same : q = p
      · subst same
        rw [at_] at new
        exact new.imp_left fun here => ⟨here.trans stored, rfl⟩
      · rw [off q same] at new
        exact .inr new
    rcases newLocal with ⟨rfl, rfl⟩ | old
    · refine ⟨rank, fun built inside => ?_⟩
      rw [node, if_pos rfl] at inside
      cases inside
      rfl
    · obtain ⟨rank', owner⟩ := hosts.newLocal q x old
      refine ⟨rank', fun built inside => ?_⟩
      rw [node] at inside
      split at inside
      next here =>
        cases inside
        rw [here, rank] at rank'
        exact rank'
      next => exact owner built inside
  · rw [nodeId]
    split
    next here => rw [here]; exact rank
    next => exact hosts.nodeId q
  · rw [keep GraphView.edgeId rfl]
    exact hosts.edgeId q
  · rw [node] at inside
    rw [nodeId]
    split at inside
    next here =>
      rw [here, rank, if_pos rfl]
      exact Nat.lt_succ_self _
    next =>
      have issued := hosts.nodesIssued x built inside
      split
      next there =>
        rw [there, stored] at issued
        exact Nat.lt_succ_of_lt issued
      next => exact issued
  · rw [keep GraphView.edgeId rfl]
    exact hosts.edgesIssued k e inside

theorem setData (hosts : Hosts G v) {p : Fin n} {id : Id n} (data : T) (weight : W)
    {old : NodeCore n T W} (found : (v p).core id = some old) :
    Hosts (G.setData p id data weight) (Function.update v p
      { v p with core := Function.update (v p).core id (some { old with data, weight }) }) := by
  have keep : ∀ {α : Type} (f : GraphView n T W → α), (∀ v core, f { v with core } = f v) →
      ∀ q, f (Function.update v p
        { v p with core := Function.update (v p).core id (some { old with data, weight }) } q) =
          f (v q) := by
    intro α f unchanged q
    rw [Function.update_apply]
    split
    next here => rw [here, unchanged]
    next => rfl
  have core : ∀ q x, (Function.update v p
      { v p with core := Function.update (v p).core id (some { old with data, weight }) } q).core x =
        if q = p ∧ x = id then some { old with data, weight } else (v q).core x := by
    intro q x
    by_cases same : q = p
    · subst same
      simp only [Function.update_self, Function.update_apply, true_and]
    · rw [Function.update_of_ne same, if_neg fun both => same both.1]
  -- A node keeps its owner.
  have before : ∀ x node', (G.setData p id data weight).node x = some node' →
      ∃ node, G.node x = some node ∧ node'.owner = node.owner := by
    intro x node' inside
    obtain ⟨node, before, rfl⟩ := GlobalGraph.setData_some.mp inside
    refine ⟨node, before, ?_⟩
    split <;> rfl
  refine ⟨fun q => (keep GraphView.rank (fun _ _ => rfl) q).trans (hosts.rank q),
    fun x node' inside => ?_, fun q x c found' => ?_, fun k e inside => ?_, fun x node' inside => ?_,
    fun q x fresh => ?_, fun q => ?_, fun q => ?_, fun x node' inside => ?_, fun k e inside => ?_⟩
  · obtain ⟨node, before, rfl⟩ := GlobalGraph.setData_some.mp inside
    have home := hosts.home x node before
    by_cases mine : x = id ∧ node.owner = p
    · obtain ⟨rfl, rfl⟩ := mine
      cases found.symm.trans home
      simp
    · rw [if_neg mine, core, if_neg fun both => mine ⟨both.2, both.1⟩]
      exact home
  · have known : ∃ c', (v q).core x = some c' ∧ c.state = c'.state ∧ c.location = c'.location := by
      rw [core] at found'
      split at found'
      next both =>
        obtain ⟨rfl, rfl⟩ := both
        cases found'
        exact ⟨old, found, rfl, rfl⟩
      next => exact ⟨c, found', rfl, rfl⟩
    obtain ⟨c', known, state, location⟩ := known
    obtain ⟨node, inside, elsewhere⟩ := hosts.ghost q x c' known
    have owner : (if x = id ∧ node.owner = p then { node with data, weight } else node).owner =
        node.owner := by split <;> rfl
    refine ⟨_, GlobalGraph.setData_some.mpr ⟨node, inside, rfl⟩, fun away => ?_⟩
    rw [owner] at away ⊢
    rw [state, location]
    exact elsewhere away
  · obtain ⟨⟨source, atSource⟩, target, atTarget⟩ := hosts.closed k e inside
    exact ⟨⟨_, GlobalGraph.setData_some.mpr ⟨source, atSource, rfl⟩⟩, _,
      GlobalGraph.setData_some.mpr ⟨target, atTarget, rfl⟩⟩
  · obtain ⟨node, before, owner⟩ := before x node' inside
    rw [keep GraphView.managed fun _ _ => rfl, owner]
    exact hosts.managed x node before
  · rw [keep GraphView.newLocal fun _ _ => rfl] at fresh
    obtain ⟨rank, same⟩ := hosts.newLocal q x fresh
    refine ⟨rank, fun node' inside => ?_⟩
    obtain ⟨node, before, owner⟩ := before x node' inside
    exact owner.trans (same node before)
  · rw [keep GraphView.nodeId fun _ _ => rfl]
    exact hosts.nodeId q
  · rw [keep GraphView.edgeId fun _ _ => rfl]
    exact hosts.edgeId q
  · obtain ⟨node, before, _⟩ := before x node' inside
    rw [keep GraphView.nodeId fun _ _ => rfl]
    exact hosts.nodesIssued x node before
  · rw [keep GraphView.edgeId fun _ _ => rfl]
    exact hosts.edgesIssued k e inside

end Hosts

end Fpmas.Graph
