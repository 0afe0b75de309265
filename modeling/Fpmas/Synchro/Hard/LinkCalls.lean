import Fpmas.Synchro.Hard.LinkTraffic

set_option autoImplicit false

namespace Fpmas.Graph

variable {n : Nat} {T W : Type} {G : GlobalGraph n T W} {v : Fin n → GraphView n T W}

theorem Hosts.distant_iff (hosts : Hosts G v) {p : Fin n} {id : Id n} {core : NodeCore n T W}
    (found : (v p).core id = some core) : core.state = .DISTANT ↔ core.location ≠ p := by
  constructor
  · exact fun distant => (hosts.owner_of_ghost found distant).2
  · exact fun away => (hosts.ghost_of_owner (hosts.location found) away found).1

theorem DistributedGraph.buildEdge_returns [One W] {g g' : DistributedGraph n T W} {source target : Id n}
    {layer : LayerId} {e : DistributedEdge n W} (built : g.buildEdge source target layer = some (g', e)) :
    g'.edges = g.edges ∧ (∃ node, g.getNode source = some node) ∧ ∃ node, g.getNode target = some node := by
  obtain ⟨g₁, first, built⟩ := Option.bind_eq_some_iff.mp built
  obtain ⟨g₂, second, built⟩ := Option.bind_eq_some_iff.mp built
  obtain ⟨_, _, same⟩ := Option.map_eq_some_iff.mp built
  cases same
  have outgoing := edges_linkOut first
  refine ⟨(edges_linkIn second).trans outgoing, ?_⟩
  obtain ⟨src, atSource, rfl⟩ := Option.map_eq_some_iff.mp first
  obtain ⟨tgt, atTarget, _⟩ := Option.map_eq_some_iff.mp second
  rw [getNode_setNode] at atTarget
  refine ⟨⟨src, atSource⟩, ?_⟩
  split at atTarget
  next here =>
    rw [here]
    exact ⟨src, atSource⟩
  next => exact ⟨tgt, atTarget⟩

end Fpmas.Graph

namespace Fpmas.Synchro.Hard

open Fpmas.Graph

variable {n : Nat} {T W : Type} {G : GlobalGraph n T W} {v : Fin n → GraphView n T W} {p : Fin n}

open GlobalGraph

section

variable {graph : DistributedGraph n T W}

theorem ends_spec (hosts : Hosts G v) (core : graph.view.core = (v p).core) {edge : GlobalEdge n W}
    (atSource : ∃ node, graph.getNode edge.source = some node)
    (atTarget : ∃ node, graph.getNode edge.target = some node) :
    ∃ src tgt, graph.getNode edge.source = some src ∧ graph.getNode edge.target = some tgt ∧
      G.Owns src.location edge.source ∧ G.Owns tgt.location edge.target ∧
      (src.state = .DISTANT ↔ src.location ≠ p) ∧ (tgt.state = .DISTANT ↔ tgt.location ≠ p) ∧
      ∀ q, G.Near q edge ↔ q = src.location ∨ q = tgt.location := by
  obtain ⟨src, atSource⟩ := atSource
  obtain ⟨tgt, atTarget⟩ := atTarget
  have source : (v p).core edge.source = some src.core := by
    rw [← core, DistributedGraph.view_core, atSource]
    rfl
  have target : (v p).core edge.target = some tgt.core := by
    rw [← core, DistributedGraph.view_core, atTarget]
    rfl
  have ownsSource : G.Owns src.location edge.source := hosts.location source
  have ownsTarget : G.Owns tgt.location edge.target := hosts.location target
  refine ⟨src, tgt, atSource, atTarget, ownsSource, ownsTarget, hosts.distant_iff source,
    hosts.distant_iff target, fun q => or_congr ⟨fun owns => ?_, ?_⟩ ⟨fun owns => ?_, ?_⟩⟩
  · exact owns_unique owns ownsSource
  · rintro rfl
    exact ownsSource
  · exact owns_unique owns ownsTarget
  · rintro rfl
    exact ownsTarget

-- One LINK request goes to each of the other processes that own a node of the edge.
theorem linkRequests_spec (hosts : Hosts G v) (light : T → T) (core : graph.view.core = (v p).core)
    (id : Id n) (edge : GlobalEdge n W) (state : LocationState)
    (atSource : ∃ node, graph.getNode edge.source = some node)
    (atTarget : ∃ node, graph.getNode edge.target = some node)
    (apart : ¬ (G.Owns p edge.source ∧ G.Owns p edge.target)) :
    ∃ sends, HardProcess.linkRequests light graph id (edge.stored state) = some sends ∧
      (sends.map (·.dest)).Nodup ∧ (∀ q, q ∈ sends.map (·.dest) ↔ G.Near q edge ∧ q ≠ p) ∧
      ∀ request ∈ sends, ∃ message, request.message = .link message ∧ message.id = id ∧
        message.Carries edge ∧ G.Owns message.sourceLocation edge.source ∧
        G.Owns message.targetLocation edge.target := by
  obtain ⟨src, tgt, atSource, atTarget, source, target, awaySource, awayTarget, near⟩ :=
    ends_spec hosts core atSource atTarget
  have atSource' : graph.getNode (edge.stored state).source = some src := atSource
  have atTarget' : graph.getNode (edge.stored state).target = some tgt := atTarget
  unfold HardProcess.linkRequests
  rw [atSource', Option.bind_some, atTarget', Option.map_some]
  refine ⟨_, rfl, ?_⟩
  dsimp only
  simp only [awaySource, awayTarget, near]
  by_cases same : src.location = tgt.location
  · rw [if_neg (not_not.mpr same)]
    have away : src.location ≠ p := by
      intro here
      rw [here] at source same
      rw [← same] at target
      exact apart ⟨source, target⟩
    refine ⟨List.nodup_singleton _, fun q => ?_, fun request member => ?_⟩
    · simp only [List.map_cons, List.map_nil, List.mem_singleton, ← same, or_self]
      constructor
      · rintro rfl
        exact ⟨rfl, away⟩
      · exact fun both => both.1
    · rw [List.mem_singleton] at member
      subst member
      exact ⟨_, rfl, rfl, ⟨rfl, rfl, rfl, rfl⟩, source, target⟩
  · rw [if_pos same]
    by_cases first : src.location = p
    · have second : tgt.location ≠ p := fun here => same (first.trans here.symm)
      simp only [first, ne_eq, not_true_eq_false, if_false, List.nil_append, second, not_false_eq_true,
        if_true]
      refine ⟨List.nodup_singleton _, fun q => ?_, fun request member => ?_⟩
      · simp only [List.map_cons, List.map_nil, List.mem_singleton]
        constructor
        · rintro rfl
          exact ⟨.inr rfl, second⟩
        · exact fun ⟨near, away⟩ => near.resolve_left away
      · rw [List.mem_singleton] at member
        subst member
        exact ⟨_, rfl, rfl, ⟨rfl, rfl, rfl, rfl⟩, first ▸ source, target⟩
    · by_cases second : tgt.location = p
      · simp only [second, ne_eq, not_true_eq_false, if_false, List.append_nil, first, not_false_eq_true,
          if_true]
        refine ⟨List.nodup_singleton _, fun q => ?_, fun request member => ?_⟩
        · simp only [List.map_cons, List.map_nil, List.mem_singleton]
          constructor
          · rintro rfl
            exact ⟨.inl rfl, first⟩
          · exact fun ⟨near, away⟩ => near.resolve_right away
        · rw [List.mem_singleton] at member
          subst member
          exact ⟨_, rfl, rfl, ⟨rfl, rfl, rfl, rfl⟩, source, second ▸ target⟩
      · simp only [first, second, ne_eq, not_false_eq_true, if_true]
        refine ⟨?_, fun q => ?_, fun request member => ?_⟩
        · simpa using same
        · simp only [List.map_append, List.map_cons, List.map_nil, List.mem_append, List.mem_singleton]
          constructor
          · rintro (rfl | rfl)
            · exact ⟨.inl rfl, first⟩
            · exact ⟨.inr rfl, second⟩
          · exact fun both => both.1
        · simp only [List.mem_append, List.mem_singleton] at member
          rcases member with rfl | rfl
          · exact ⟨_, rfl, rfl, ⟨rfl, rfl, rfl, rfl⟩, source, target⟩
          · exact ⟨_, rfl, rfl, ⟨rfl, rfl, rfl, rfl⟩, source, target⟩

end

namespace LiveProcess

variable {s : HardProcess n T W}

theorem unlinkRequests_spec (hosts : Hosts G v) (core : s.graph.view.core = (v p).core) (id : Id n)
    (edge : GlobalEdge n W) (state : LocationState)
    (atSource : ∃ node, s.graph.getNode edge.source = some node)
    (atTarget : ∃ node, s.graph.getNode edge.target = some node) :
    ∃ sends, s.unlinkRequests id (edge.stored state) = some sends ∧
      (∀ q, q ∈ sends.map (·.dest) ↔ G.Near q edge ∧ q ≠ p) ∧
      ∀ request ∈ sends, request.message = .unlink id := by
  obtain ⟨src, tgt, atSource, atTarget, _, _, awaySource, awayTarget, near⟩ :=
    ends_spec hosts core atSource atTarget
  have atSource' : s.graph.getNode (edge.stored state).source = some src := atSource
  have atTarget' : s.graph.getNode (edge.stored state).target = some tgt := atTarget
  unfold HardProcess.unlinkRequests
  rw [atSource', Option.bind_some, atTarget', Option.map_some]
  refine ⟨_, rfl, fun q => ?_, fun request member => ?_⟩
  · simp only [awaySource, awayTarget, near, List.map_append, List.mem_append]
    by_cases first : src.location = p
    · by_cases second : tgt.location = p
      · simp [first, second]
      · simp only [first, second, ne_eq, not_true_eq_false, not_false_eq_true, if_false, if_true,
          List.map_nil, List.map_cons, List.mem_singleton, List.not_mem_nil, false_or]
        constructor
        · rintro rfl
          exact ⟨.inr rfl, second⟩
        · exact fun ⟨near, away⟩ => near.resolve_left away
    · by_cases second : tgt.location = p
      · simp only [first, second, ne_eq, not_true_eq_false, not_false_eq_true, if_false, if_true,
          List.map_nil, List.map_cons, List.mem_singleton, List.not_mem_nil, or_false]
        constructor
        · rintro rfl
          exact ⟨.inl rfl, first⟩
        · exact fun ⟨near, away⟩ => near.resolve_right away
      · simp only [first, second, ne_eq, not_false_eq_true, if_true, List.map_cons, List.map_nil,
          List.mem_singleton]
        constructor
        · rintro (rfl | rfl)
          · exact ⟨.inl rfl, first⟩
          · exact ⟨.inr rfl, second⟩
        · exact fun both => both.1
  · rw [List.mem_append] at member
    split at member <;> split at member <;> simp at member <;> grind

section

variable (live : LiveProcess G p s) (hosts : Hosts G v) (view : s.whole.view = v p)

include live hosts view

omit hosts view in
theorem nodes_of_edge {k : Id n} {edge : GlobalEdge n W} {state : LocationState}
    (found : s.whole.getEdge k = some (edge.stored state)) :
    (∃ node, s.graph.getNode edge.source = some node) ∧
      ∃ node, s.graph.getNode edge.target = some node := by
  have nodes : s.whole.getNode = s.graph.getNode := by
    unfold HardProcess.whole
    split <;> rfl
  rw [← nodes]
  exact ⟨live.graph.source k _ found, live.graph.target k _ found⟩

omit hosts view in
theorem unlocked (idle : s.stack = []) (k : Id n) : k ∉ s.server.lockedUnlinkEdges := by
  rw [live.locked, HardProcess.role_idle idle]
  exact not_false

omit live in
theorem inside {x : Id n} (present : ∃ node, s.whole.getNode x = some node) :
    ∃ node, G.node x = some node := by
  obtain ⟨node, at_⟩ := present
  obtain ⟨found, inside, _⟩ := hosts.ghost p x node.core (by
    rw [← view, DistributedGraph.view_core, at_]
    rfl)
  exact ⟨found, inside⟩

theorem built [One W] (idle : s.stack = []) {source target : Id n} {layer : LayerId}
    {g : DistributedGraph n T W} {e : DistributedEdge n W}
    (built : s.graph.buildEdge source target layer = some (g, e)) :
    let k := (v p).edgeId
    let edge : GlobalEdge n W := { layer, weight := 1, source, target }
    ((∃ node, G.node source = some node) ∧ ∃ node, G.node target = some node) ∧
      s.graph.edgeId = k ∧ e = edge.stored (G.stateAt p edge) ∧ g.getEdge k = none ∧
      g.view.core = (v p).core ∧ GraphInv (g.insertEdge k e) ∧
      (g.insertEdge k e).view = { v p with
        edge := Function.update (v p).edge k (some e)
        edgeId := k.next } := by
  intro k edge
  have whole := HardProcess.whole_idle idle
  have inv := live.graph
  have known := fun x => inside hosts view (x := x)
  have edges := live.edges
  rw [whole] at inv view known edges
  have edgeId : s.graph.edgeId = k := congrArg GraphView.edgeId view
  have unbuilt : s.graph.getEdge s.graph.edgeId = none := by
    cases found : s.graph.getEdge s.graph.edgeId with
    | none => rfl
    | some e =>
      obtain ⟨_, inside, _⟩ := edges _ e found
      rw [edgeId] at inside
      cases (hosts.edge_fresh p).symm.trans inside
  obtain ⟨kept, atSource, atTarget⟩ := DistributedGraph.buildEdge_returns built
  obtain ⟨_, built', invG, viewG⟩ := inv.buildEdge layer unbuilt atSource atTarget
  cases built.symm.trans built'
  rw [edgeId] at invG viewG
  have state : s.graph.view.edgeState source target = G.stateAt p edge := by
    rw [view, hosts.stateAt p edge]
  refine ⟨⟨known _ atSource, known _ atTarget⟩, edgeId, ?_, ?_, ?_, invG, ?_⟩
  · rw [state]
    rfl
  · unfold DistributedGraph.getEdge
    rw [kept, ← edgeId]
    exact unbuilt
  · have core := congrArg GraphView.core viewG
    rw [view] at core
    exact core
  · rw [viewG, view]

section

variable {edge : GlobalEdge n W} {g : DistributedGraph n T W} (inserted : g.view = { v p with
  edge := Function.update (v p).edge (v p).edgeId (some (edge.stored (G.stateAt p edge)))
  edgeId := (v p).edgeId.next })

include inserted

omit live hosts in
theorem getEdge_link (j : Id n) : g.getEdge j =
    if j = (v p).edgeId then some (edge.stored (G.stateAt p edge)) else s.whole.getEdge j := by
  rw [← DistributedGraph.view_edge, inserted, ← DistributedGraph.view_edge, view]
  exact Function.update_apply _ _ _ _

theorem edges_link (j : Id n) (e : DistributedEdge n W) (found : g.getEdge j = some e) :
    ∃ edge', (G.link (v p).edgeId edge).edge j = some edge' ∧
      e = edge'.stored ((G.link (v p).edgeId edge).stateAt p edge') := by
  rw [getEdge_link view inserted] at found
  split at found
  next here =>
    cases found
    exact ⟨edge, by rw [link_edge, if_pos here], rfl⟩
  next =>
    obtain ⟨old, inside, rfl⟩ := live.edges j e found
    exact ⟨old, (hosts.grows_link p edge).edge j old inside, rfl⟩

end

theorem link [One W] (runs : s.running = true) (light : T → T) (source target : Id n) (layer : LayerId)
    {t : HardProcess n T W} (taken : s.link light source target layer = some t) :
    let k := (v p).edgeId
    let edge : GlobalEdge n W := { layer, weight := 1, source, target }
    ((∃ node, G.node source = some node) ∧ ∃ node, G.node target = some node) ∧
      LiveProcess (G.link k edge) p t ∧
      t.whole.view = { v p with
        edge := Function.update (v p).edge k (some (edge.stored (G.stateAt p edge)))
        edgeId := k.next } ∧
      (∀ j, j ≠ k → t.role j = s.role j) ∧
      t.role k =
        { present := True
          linking := G.stateAt p edge = .DISTANT
          unlinking := False
          ghost := False
          asks := fun q => G.stateAt p edge = .DISTANT ∧ G.Near q edge ∧ q ≠ p
          tells := fun _ => False } := by
  intro k edge
  obtain ⟨idle, free⟩ := HardProcess.running_idle runs
  obtain ⟨⟨g, e⟩, built, rest⟩ := Option.bind_eq_some_iff.mp taken
  obtain ⟨ends, edgeId, rfl, half, core, inv, viewG⟩ := live.built hosts view idle built
  rw [edgeId] at rest
  change GraphInv (g.insertEdge k (edge.stored (G.stateAt p edge))) at inv
  change (g.insertEdge k (edge.stored (G.stateAt p edge))).view = _ at viewG
  have lookup := getEdge_link view viewG
  have edges := edges_link live hosts view viewG
  have ghosts : ∀ j ∈ s.ghostEdges, ∃ edge', (G.link k edge).edge j = some edge' := by
    intro j member
    obtain ⟨old, inside⟩ := live.ghosts j member
    exact ⟨old, (hosts.grows_link p edge).edge j old inside⟩
  have mine : k ∉ s.ghostEdges := by
    intro member
    obtain ⟨_, inside⟩ := live.ghosts k member
    cases (hosts.edge_fresh p).symm.trans inside
  refine ⟨ends, ?_⟩
  change (if G.stateAt p edge = .DISTANT then
    (HardProcess.linkRequests light g k (edge.stored (G.stateAt p edge))).map _ else _) = some t at rest
  by_cases distant : G.stateAt p edge = .DISTANT
  · have apart : ¬ (G.Owns p edge.source ∧ G.Owns p edge.target) := by
      rw [← stateAt_local, distant]
      exact LocationState.noConfusion
    have found : (g.insertEdge k (edge.stored (G.stateAt p edge))).getEdge k =
        some (edge.stored (G.stateAt p edge)) := (lookup k).trans (if_pos rfl)
    obtain ⟨sends, requests, once, reached, carried⟩ := linkRequests_spec hosts light core k edge
      (G.stateAt p edge) (inv.source k _ found) (inv.target k _ found) apart
    rw [if_pos distant] at rest
    obtain ⟨_, requests', rfl⟩ := Option.map_eq_some_iff.mp rest
    cases requests.symm.trans requests'
    let t : HardProcess n T W := { s with
      graph := g
      stack := [.link k (edge.stored (G.stateAt p edge)) sends] }
    have called : t = { s with
        graph := g
        stack := .link k (edge.stored (G.stateAt p edge)) sends :: s.stack } := by rw [idle]
    rw [← called]
    have stack : t.stack = [.link k (edge.stored (G.stateAt p edge)) sends] := rfl
    have roles := HardProcess.role_link stack
    have wholeT : t.whole = g.insertEdge k (edge.stored (G.stateAt p edge)) := HardProcess.whole_link stack
    refine ⟨⟨?_, ?_, ?_, fun j => ?_, live.stays, live.once, ghosts, ?_⟩, ?_, fun j other => ?_, ?_⟩
    · rw [wholeT]
      exact inv
    · rw [wholeT]
      exact edges
    · refine .link half (hosts.edgeId p) once fun request member => ⟨?_, ?_⟩
      · exact ((reached request.dest).mp (List.mem_map_of_mem member)).2
      · obtain ⟨message, sent, id, carries, source, target⟩ := carried request member
        exact ⟨message, edge, sent, id, (link_edge _ _ _).trans (if_pos rfl), carries, source, target⟩
    · rw [roles]
      exact iff_of_false (live.unlocked idle j) not_false
    · intro synchronizing
      cases free.symm.trans synchronizing
    · rw [wholeT]
      exact viewG
    · rw [roles, HardProcess.role_idle idle, wholeT, lookup, if_neg other]
      simp [Ne.symm other, t]
    · rw [roles, wholeT, found]
      simp [reached, distant, mine, t]
  · rw [if_neg distant] at rest
    cases rest
    let t : HardProcess n T W := { s with graph := g.insertEdge k (edge.stored (G.stateAt p edge)) }
    have stack : t.stack = [] := idle
    have roles := HardProcess.role_idle stack
    have wholeT : t.whole = g.insertEdge k (edge.stored (G.stateAt p edge)) := HardProcess.whole_idle stack
    show LiveProcess _ p t ∧ t.whole.view = _ ∧ (∀ j, j ≠ k → t.role j = s.role j) ∧ t.role k = _
    refine ⟨⟨?_, ?_, ?_, fun j => ?_, live.stays, live.once, ghosts, ?_⟩, ?_, fun j other => ?_, ?_⟩
    · rw [wholeT]
      exact inv
    · rw [wholeT]
      exact edges
    · rw [stack]
      exact .idle
    · rw [roles]
      exact iff_of_false (live.unlocked idle j) not_false
    · intro synchronizing
      cases free.symm.trans synchronizing
    · rw [wholeT]
      exact viewG
    · rw [roles, HardProcess.role_idle idle, wholeT, lookup, if_neg other]
    · rw [roles, wholeT, lookup, if_pos rfl]
      simp [distant, mine, t]

omit hosts in
theorem erased {k : Id n} (present : (s.role k).present) (free : ¬ (s.role k).linking) :
    ∃ g, s.graph.eraseEdge k = some g ∧ LiveProcess G p { s with graph := g } ∧
      ({ s with graph := g } : HardProcess n T W).whole.view = (v p).eraseEdge k ∧
      (∀ j, j ≠ k → ({ s with graph := g } : HardProcess n T W).role j = s.role j) ∧
      ({ s with graph := g } : HardProcess n T W).role k = { s.role k with present := False } := by
  obtain ⟨e, whole⟩ := present
  have found := live.graph_of_whole whole free
  have erase : ∃ g, s.graph.eraseEdge k = some g ∧ InCall G p g s.stack ∧
      GraphInv ({ s with graph := g } : HardProcess n T W).whole ∧
      ({ s with graph := g } : HardProcess n T W).whole.view = (v p).eraseEdge k := by
    have call := live.call
    have inv := live.graph
    unfold HardProcess.whole at inv view ⊢
    cases stack : s.stack with
    | nil =>
      rw [stack] at inv view
      obtain ⟨g, result, good, left⟩ := inv.eraseEdge found
      exact ⟨g, result, .idle, good, left.trans (by rw [view])⟩
    | cons first rest =>
      rw [stack] at call inv view
      cases call with
      | @link id edge sends half mine once sent =>
        obtain ⟨g, result, half', good, left⟩ := inv.eraseEdge_half half found
        exact ⟨g, result, .link half' mine once sent, good, left.trans (by rw [view])⟩
      | unlink inside sent =>
        obtain ⟨g, result, good, left⟩ := inv.eraseEdge found
        exact ⟨g, result, .unlink inside sent, good, left.trans (by rw [view])⟩
  obtain ⟨g, result, call, inv, left⟩ := erase
  have lookup : ∀ j, ({ s with graph := g } : HardProcess n T W).whole.getEdge j =
      if j = k then none else s.whole.getEdge j := by
    intro j
    rw [← DistributedGraph.view_edge, left, ← DistributedGraph.view_edge, view]
    exact Function.update_apply _ _ _ _
  refine ⟨g, result, ⟨inv, fun j e found => ?_, call, live.locked, live.stays, live.once, live.ghosts,
    live.settled⟩, left, fun j other => ?_, ?_⟩
  · rw [lookup] at found
    split at found
    next => cases found
    next => exact live.edges j e found
  · ext1 <;> try rfl
    simp only [HardProcess.role, lookup, if_neg other]
  · ext1 <;> try rfl
    simp [HardProcess.role, lookup]

theorem unlink (runs : s.running = true) {k : Id n} {t : HardProcess n T W}
    (taken : s.unlink k = some t) :
    (s.role k).present ∧ LiveProcess G p t ∧ (∀ j, j ≠ k → t.role j = s.role j) ∧
      ∃ edge, G.edge k = some edge ∧
        (G.stateAt p edge = .DISTANT ∧ t.whole.view = v p ∧
          t.role k = { s.role k with unlinking := True, tells := fun q => G.Near q edge ∧ q ≠ p } ∨
        G.stateAt p edge = .LOCAL ∧ t.whole.view = (v p).eraseEdge k ∧
          t.role k = { s.role k with present := False }) := by
  obtain ⟨idle, free⟩ := HardProcess.running_idle runs
  have whole := HardProcess.whole_idle idle
  obtain ⟨e, found, rest⟩ := Option.bind_eq_some_iff.mp taken
  have stored : s.whole.getEdge k = some e := live.whole_of_graph found
  obtain ⟨edge, inside, rfl⟩ := live.edges k e stored
  have present : (s.role k).present := ⟨_, stored⟩
  refine ⟨present, ?_⟩
  have locked : ∀ j, j ∈ (s.server.lockUnlink k).lockedUnlinkEdges ↔ j = k := by
    intro j
    unfold LinkServer.lockUnlink
    rw [List.mem_insert_iff]
    exact or_iff_left (live.unlocked idle j)
  change (if G.stateAt p edge = .DISTANT then _ else _) = some t at rest
  by_cases distant : G.stateAt p edge = .DISTANT
  · rw [if_pos distant] at rest
    obtain ⟨atSource, atTarget⟩ := live.nodes_of_edge stored
    have core : s.graph.view.core = (v p).core := by rw [← whole, view]
    obtain ⟨sends, requests, reached, message⟩ := LiveProcess.unlinkRequests_spec (s := { s with
      server := s.server.lockUnlink k }) hosts core k edge (G.stateAt p edge) atSource atTarget
    obtain ⟨_, requests', rfl⟩ := Option.map_eq_some_iff.mp rest
    cases requests.symm.trans requests'
    let t : HardProcess n T W := { s with
      server := s.server.lockUnlink k
      stack := [.unlink k sends] }
    have called : t = { s with
        server := s.server.lockUnlink k
        stack := .unlink k sends :: s.stack } := by rw [idle]
    rw [← called]
    have roles := HardProcess.role_unlink (show t.stack = _ from rfl)
    have wholeT : t.whole = s.whole := (HardProcess.whole_unlink rfl).trans whole.symm
    refine ⟨⟨?_, ?_, ?_, fun j => ?_, live.stays, live.once, live.ghosts, ?_⟩, fun j other => ?_, edge,
      inside, .inl ⟨distant, ?_, ?_⟩⟩
    · rw [wholeT]
      exact live.graph
    · rw [wholeT]
      exact live.edges
    · refine .unlink ⟨edge, inside⟩ fun request member => ⟨?_, message request member⟩
      exact ((reached request.dest).mp (List.mem_map_of_mem member)).2
    · rw [roles]
      exact (locked j).trans eq_comm
    · intro synchronizing
      cases free.symm.trans synchronizing
    · rw [roles, HardProcess.role_idle idle, wholeT]
      simp [Ne.symm other, t]
    · rw [wholeT, view]
    · rw [roles, HardProcess.role_idle idle, wholeT]
      simp [reached, t]
  · rw [if_neg distant] at rest
    have near : G.stateAt p edge = .LOCAL := by
      cases state : G.stateAt p edge with
      | LOCAL => rfl
      | DISTANT => exact absurd state distant
    have outside : ¬ (s.role k).linking := by
      rw [HardProcess.role_idle idle]
      exact not_false
    obtain ⟨g, result, live', view', others, mine⟩ := live.erased view present outside
    obtain ⟨g', result', rfl⟩ := Option.map_eq_some_iff.mp rest
    cases result.symm.trans result'
    have unlocked : ∀ j, j ∈ ((s.server.lockUnlink k).unlockUnlink k).lockedUnlinkEdges ↔
        j ∈ s.server.lockedUnlinkEdges := by
      intro j
      unfold LinkServer.unlockUnlink
      rw [List.mem_filter, locked, decide_eq_true_eq]
      exact iff_of_false (fun both => both.2 both.1) (live.unlocked idle j)
    refine ⟨⟨live'.graph, live'.edges, live'.call, fun j => ?_, live.stays, live.once, live.ghosts,
      live.settled⟩, others, edge, inside, .inr ⟨near, view', mine⟩⟩
    exact (unlocked j).trans (live'.locked j)

theorem linked {k : Id n} {e : DistributedEdge n W} (stack : s.stack = [.link k e []])
    (free : k ∉ s.ghostEdges) :
    ∃ t, ({ s with stack := [] } : HardProcess n T W).linked k e = some t ∧ LiveProcess G p t ∧
      t.whole.view = v p ∧ (∀ j, j ≠ k → t.role j = s.role j) ∧
      ∃ edge, G.edge k = some edge ∧ (s.role k).present ∧
        t.role k = { s.role k with
          linking := False
          ghost := ¬ G.Near p edge } := by
  have half : s.graph.getEdge k = none := by
    have call := live.call
    rw [stack] at call
    cases call with
    | link half mine once sent => exact half
  have whole := HardProcess.whole_link stack
  have found : s.whole.getEdge k = some e := by
    rw [whole, DistributedGraph.getEdge_insertEdge half, if_pos rfl]
  obtain ⟨edge, inside, rfl⟩ := live.edges k e found
  obtain ⟨atSource, atTarget⟩ := live.nodes_of_edge found
  have core : s.graph.view.core = (v p).core := by
    rw [← view, whole]
    rfl
  obtain ⟨src, tgt, atSource, atTarget, _, _, awaySource, awayTarget, near⟩ :=
    ends_spec hosts core atSource atTarget
  have far : (src.state = .DISTANT ∧ tgt.state = .DISTANT) ↔ ¬ G.Near p edge := by
    rw [awaySource, awayTarget, near, not_or]
    exact and_congr ⟨Ne.symm, Ne.symm⟩ ⟨Ne.symm, Ne.symm⟩
  have busy : ¬ s.synchronizing = true := by
    intro synchronizing
    cases stack.symm.trans (live.settled synchronizing).1
  let t : HardProcess n T W := { s with
    graph := s.graph.insertEdge k (edge.stored (G.stateAt p edge))
    ghostEdges := if src.state = .DISTANT ∧ tgt.state = .DISTANT then s.ghostEdges ++ [k] else s.ghostEdges
    stack := [] }
  have wholeT : t.whole = s.whole := whole.symm
  have roles := HardProcess.role_idle (show t.stack = [] from rfl)
  have ghosts : ∀ j, j ∈ t.ghostEdges ↔ j ∈ s.ghostEdges ∨ j = k ∧ ¬ G.Near p edge := by
    intro j
    rw [← far]
    show j ∈ (if src.state = .DISTANT ∧ tgt.state = .DISTANT then s.ghostEdges ++ [k] else s.ghostEdges) ↔ _
    split
    next away => simp [away]
    next close => simp [close]
  refine ⟨t, ?_, ⟨?_, ?_, .idle, fun j => ?_, live.stays, ?_, fun j member => ?_, fun synchronizing => ?_⟩,
    ?_, fun j other => ?_, edge, inside, ⟨_, found⟩, ?_⟩
  · have atSource' : s.graph.getNode (edge.stored (G.stateAt p edge)).source = some src := atSource
    have atTarget' : s.graph.getNode (edge.stored (G.stateAt p edge)).target = some tgt := atTarget
    unfold HardProcess.linked
    dsimp only
    rw [atSource', Option.bind_some, atTarget', Option.map_some]
  · rw [wholeT]
    exact live.graph
  · rw [wholeT]
    exact live.edges
  · rw [roles]
    refine (live.locked j).trans ?_
    rw [HardProcess.role_link stack]
  · show List.Nodup (if src.state = .DISTANT ∧ tgt.state = .DISTANT then s.ghostEdges ++ [k] else s.ghostEdges)
    split
    next => exact live.once.append (List.nodup_singleton k) (by simpa using free)
    next => exact live.once
  · rcases (ghosts j).mp member with old | ⟨rfl, _⟩
    · exact live.ghosts j old
    · exact ⟨edge, inside⟩
  · exact absurd synchronizing busy
  · rw [wholeT, view]
  · rw [roles, HardProcess.role_link stack, wholeT]
    simp [ghosts, other, Ne.symm other]
  · rw [roles, HardProcess.role_link stack, wholeT]
    simp [ghosts, free]

omit hosts in
theorem unlinked {k : Id n} (stack : s.stack = [.unlink k []]) (present : (s.role k).present) :
    ∃ t, ({ s with stack := [] } : HardProcess n T W).unlinked k = some t ∧ LiveProcess G p t ∧
      t.whole.view = (v p).eraseEdge k ∧ (∀ j, j ≠ k → t.role j = s.role j) ∧
      t.role k = { s.role k with
        present := False
        unlinking := False } := by
  have outside : ¬ (s.role k).linking := by
    rw [HardProcess.role_unlink stack]
    exact not_false
  obtain ⟨g, result, live', view', others, mine⟩ := live.erased view present outside
  have busy : ¬ s.synchronizing = true := by
    intro synchronizing
    cases stack.symm.trans (live.settled synchronizing).1
  let u : HardProcess n T W := { s with graph := g }
  let t : HardProcess n T W := { s with
    graph := g
    server := s.server.unlockUnlink k
    stack := [] }
  have called : u.stack = [.unlink k []] := stack
  have wholeT : t.whole = u.whole := (HardProcess.whole_idle rfl).trans (HardProcess.whole_unlink called).symm
  have roles := HardProcess.role_idle (show t.stack = [] from rfl)
  have before := HardProcess.role_unlink called
  refine ⟨t, ?_, ⟨?_, ?_, .idle, fun j => ?_, live.stays, live.once, live.ghosts, fun synchronizing => ?_⟩,
    ?_, fun j other => ?_, ?_⟩
  · unfold HardProcess.unlinked
    rw [show DistributedGraph.eraseEdge _ _ = some g from result]
    rfl
  · rw [wholeT]
    exact live'.graph
  · rw [wholeT]
    exact live'.edges
  · rw [roles]
    refine iff_of_false ?_ not_false
    show j ∉ (s.server.unlockUnlink k).lockedUnlinkEdges
    unfold LinkServer.unlockUnlink
    rw [List.mem_filter, live.locked, HardProcess.role_unlink stack, decide_eq_true_eq]
    exact fun both => both.2 both.1.symm
  · exact absurd synchronizing busy
  · rw [wholeT]
    exact view'
  · rw [← others j other, roles, before, wholeT]
    simp [Ne.symm other, t, u]
  · have same := mine
    rw [before, HardProcess.role_unlink stack, EdgeRole.mk.injEq] at same
    rw [roles, HardProcess.role_unlink stack, wholeT, same.1]
    simp [t]

theorem imported [One W] (order : HashOrder) {message : EdgeMessage n T W} {edge : GlobalEdge n W}
    (inside : G.edge message.id = some edge) (carries : message.Carries edge)
    (source : G.Owns message.sourceLocation edge.source)
    (target : G.Owns message.targetLocation edge.target) (fresh : ¬ (s.role message.id).present) :
    ∃ g, s.graph.importEdge order message = some g ∧ LiveProcess G p { s with graph := g } ∧
      ({ s with graph := g } : HardProcess n T W).whole.view = (v p).importEdge message ∧
      (∀ j, j ≠ message.id → ({ s with graph := g } : HardProcess n T W).role j = s.role j) ∧
      ({ s with graph := g } : HardProcess n T W).role message.id =
        { s.role message.id with present := True } := by
  have absent : s.whole.getEdge message.id = none := by
    cases found : s.whole.getEdge message.id with
    | none => rfl
    | some e => exact absurd ⟨e, found⟩ fresh
  have absent' : s.graph.getEdge message.id = none := by
    cases found : s.graph.getEdge message.id with
    | none => rfl
    | some e => cases absent.symm.trans (live.whole_of_graph found)
  have import_ : ∃ g, s.graph.importEdge order message = some g ∧ InCall G p g s.stack ∧
      GraphInv ({ s with graph := g } : HardProcess n T W).whole ∧
      ({ s with graph := g } : HardProcess n T W).whole.view = (v p).importEdge message := by
    have call := live.call
    have inv := live.graph
    have absent := absent
    unfold HardProcess.whole at inv view absent ⊢
    cases stack : s.stack with
    | nil =>
      rw [stack] at inv view
      obtain ⟨g, result, good, left⟩ := inv.importEdge order message
      exact ⟨g, result, .idle, good, left.trans (by rw [view])⟩
    | cons first rest =>
      rw [stack] at call inv view absent
      cases call with
      | @link id edge sends half mine once sent =>
        have apart : message.id ≠ id := by
          intro same
          dsimp only at absent
          rw [DistributedGraph.getEdge_insertEdge half, if_pos same] at absent
          cases absent
        obtain ⟨g, result, half', good, left⟩ := inv.importEdge_half half order absent' apart
        exact ⟨g, result, .link half' mine once sent, good, left.trans (by rw [view])⟩
      | unlink inside sent =>
        obtain ⟨g, result, good, left⟩ := inv.importEdge order message
        exact ⟨g, result, .unlink inside sent, good, left.trans (by rw [view])⟩
  obtain ⟨g, result, call, inv, left⟩ := import_
  have unknown : (v p).edge message.id = none := by
    rw [← view]
    exact absent
  have stored := (hosts.importEdge carries unknown source target).2.2
  have lookup : ∀ j, ({ s with graph := g } : HardProcess n T W).whole.getEdge j =
      if j = message.id then some (edge.stored (G.stateAt p edge)) else s.whole.getEdge j := by
    intro j
    rw [← DistributedGraph.view_edge, left, ← DistributedGraph.view_edge, view]
    exact stored j
  refine ⟨g, result, ⟨inv, fun j e found => ?_, call, live.locked, live.stays, live.once, live.ghosts,
    live.settled⟩, left, fun j other => ?_, ?_⟩
  · rw [lookup] at found
    split at found
    next here =>
      cases found
      exact ⟨edge, by rw [here, inside], rfl⟩
    next => exact live.edges j e found
  · ext1 <;> try rfl
    simp only [HardProcess.role, lookup, if_neg other]
  · ext1 <;> try rfl
    simp [HardProcess.role, lookup]

omit hosts in
theorem entered (runs : s.running = true) (present : ∀ k ∈ s.ghostEdges, (s.role k).present) :
    ∃ t, s.synchronize = some t ∧ LiveProcess G p t ∧
      t.whole.view = (v p).eraseEdges (· ∈ s.ghostEdges) ∧
      ∀ k, t.role k = { s.role k with
        present := (s.role k).present ∧ ¬ (s.role k).ghost
        ghost := False } := by
  obtain ⟨idle, free⟩ := HardProcess.running_idle runs
  have whole := HardProcess.whole_idle idle
  have inv := live.graph
  have stored : ∀ k ∈ s.ghostEdges, ∃ e, s.whole.getEdge k = some e := present
  have known := live.edges
  rw [whole] at inv view known stored
  obtain ⟨g, result, good, left⟩ := inv.eraseEdges live.once stored
  rw [view] at left
  let t : HardProcess n T W := { s with
    graph := g
    ghostEdges := []
    synchronizing := true }
  have idleT : t.stack = [] := idle
  have wholeT : t.whole = g := HardProcess.whole_idle idleT
  have lookup : ∀ j e, g.getEdge j = some e ↔ s.graph.getEdge j = some e ∧ j ∉ s.ghostEdges := by
    intro j e
    rw [← DistributedGraph.view_edge, left, ← DistributedGraph.view_edge, view]
    exact GraphView.eraseEdges_edge
  refine ⟨t, ?_, ⟨?_, fun j e found => ?_, ?_, fun j => ?_, live.stays, List.nodup_nil, ?_, ?_⟩, ?_,
    fun j => ?_⟩
  · unfold HardProcess.synchronize
    rw [result, Option.map_some]
  · rw [wholeT]
    exact good
  · rw [wholeT] at found
    exact known j e ((lookup j e).mp found).1
  · rw [idleT]
    exact .idle
  · rw [HardProcess.role_idle idleT]
    refine (live.locked j).trans ?_
    rw [HardProcess.role_idle idle]
  · intro j member
    cases member
  · exact fun _ => ⟨idleT, rfl⟩
  · rw [wholeT]
    exact left
  · rw [HardProcess.role_idle idleT, HardProcess.role_idle idle, whole, wholeT]
    simp [lookup, t]

omit hosts view in
theorem received {call : LinkFrame n T W} (stack : s.stack = [call]) {index : Nat}
    {request : LinkRequest n T W} (at_ : call.sends[index]? = some request) :
    let t := { s with stack := [call.received index] }
    LiveProcess G p t ∧ t.whole = s.whole ∧ ∀ j, ∃ tells : Fin n → Prop,
      t.role j = { s.role j with
        asks := fun q => (s.role j).asks q ∧ ¬ (call.Links j ∧ q = request.dest)
        tells } ∧
      (∀ q, tells q → (s.role j).tells q) ∧
      ∀ q, (s.role j).tells q → ¬ (call.Unlinks j ∧ q = request.dest) → tells q := by
  intro t
  have inCall := live.call
  rw [stack] at inCall
  cases inCall with
  | @link k e sends half mine once sent =>
    have stackT : t.stack = [.link k e (sends.eraseIdx index)] := rfl
    have wholeT : t.whole = s.whole := by
      rw [HardProcess.whole_link stackT, HardProcess.whole_link stack]
    have fewer : (sends.eraseIdx index).map (·.dest) = (sends.map (·.dest)).erase request.dest := by
      have reached : (sends.map (·.dest))[index]? = some request.dest := by
        rw [List.getElem?_map]
        exact congrArg (Option.map _) at_
      rw [← List.eraseIdx_map]
      obtain ⟨bound, value⟩ := List.getElem?_eq_some_iff.mp reached
      rw [← value, once.erase_getElem]
    refine ⟨⟨?_, ?_, .link half mine ?_ fun r member => sent r (List.mem_of_mem_eraseIdx member), fun j => ?_,
      live.stays, live.once, live.ghosts, fun synchronizing => ?_⟩, wholeT, fun j => ⟨fun _ => False, ?_, ?_, ?_⟩⟩
    · rw [wholeT]
      exact live.graph
    · rw [wholeT]
      exact live.edges
    · rw [fewer]
      exact once.erase _
    · rw [live.locked, HardProcess.role_link stack, HardProcess.role_link stackT]
    · cases stack.symm.trans (live.settled synchronizing).1
    · rw [HardProcess.role_link stack, HardProcess.role_link stackT, wholeT, fewer]
      ext <;> simp [LinkFrame.Links, once.mem_erase_iff, t]
      tauto
    · exact fun q told => told.elim
    · intro q told
      rw [HardProcess.role_link stack] at told
      exact told.elim
  | @unlink k sends inside sent =>
    have stackT : t.stack = [.unlink k (sends.eraseIdx index)] := rfl
    have wholeT : t.whole = s.whole := by
      rw [HardProcess.whole_unlink stackT, HardProcess.whole_unlink stack]
    refine ⟨⟨?_, ?_, .unlink inside fun r member => sent r (List.mem_of_mem_eraseIdx member), fun j => ?_,
      live.stays, live.once, live.ghosts, fun synchronizing => ?_⟩, wholeT,
      fun j => ⟨fun q => k = j ∧ q ∈ (sends.eraseIdx index).map (·.dest), ?_, ?_, ?_⟩⟩
    · rw [wholeT]
      exact live.graph
    · rw [wholeT]
      exact live.edges
    · rw [live.locked, HardProcess.role_unlink stack, HardProcess.role_unlink stackT]
    · cases stack.symm.trans (live.settled synchronizing).1
    · rw [HardProcess.role_unlink stack, HardProcess.role_unlink stackT, wholeT]
      ext <;> simp [LinkFrame.Links, t]
    · rintro q ⟨same, member⟩
      rw [HardProcess.role_unlink stack]
      obtain ⟨r, member, dest⟩ := List.mem_map.mp member
      exact ⟨same, List.mem_map.mpr ⟨r, List.mem_of_mem_eraseIdx member, dest⟩⟩
    · intro q told other
      rw [HardProcess.role_unlink stack] at told
      obtain ⟨rfl, member⟩ := told
      refine ⟨rfl, ?_⟩
      obtain ⟨r, pending, rfl⟩ := List.mem_map.mp member
      refine List.mem_map.mpr ⟨r, ?_, rfl⟩
      obtain ⟨i, bound, rfl⟩ := List.mem_iff_getElem.mp pending
      rw [List.mem_eraseIdx_iff_getElem]
      refine ⟨i, bound, ?_, rfl⟩
      rintro rfl
      have same : sends[i]? = some request := at_
      rw [List.getElem?_eq_getElem bound, Option.some.injEq] at same
      exact other ⟨rfl, by rw [same]⟩

end

end LiveProcess

end Fpmas.Synchro.Hard
