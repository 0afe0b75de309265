import Fpmas.Graph.LocationAgreement
import Fpmas.Graph.Redistribution
import Fpmas.Synchro.Hard.LinkRuns

set_option autoImplicit false

namespace Fpmas.Graph

variable {n : Nat} {T W : Type} {G : GlobalGraph n T W}

theorem Represents.cleared {v v' : Fin n → GraphView n T W} (represents : Represents G v)
    (cleared : ∀ p, GraphView.Cleared (v p) (v' p) (v p).IsDistant) : Represents G v' := by
  have same : ∀ {α : Type} (f : GraphView n T W → α),
      (∀ v core edge, f { v with core, edge } = f v) → ∀ p, f (v' p) = f (v p) := by
    intro α f unchanged p
    rw [(cleared p).rest, unchanged]
  have rank := same GraphView.rank fun _ _ _ => rfl
  have managed := same GraphView.managed fun _ _ _ => rfl
  have newLocal := same GraphView.newLocal fun _ _ _ => rfl
  have nodeId := same GraphView.nodeId fun _ _ _ => rfl
  have edgeId := same GraphView.edgeId fun _ _ _ => rfl
  refine ⟨⟨fun p => (rank p).trans (represents.rank p), fun id node inside => ?_, fun p id core found => ?_,
    represents.closed, fun id node inside => ?_, fun p id fresh => ?_, fun p => ?_, fun p => ?_,
    fun id node inside => ?_, fun k edge inside => ?_⟩, fun p k => ?_⟩
  · have home := represents.home id node inside
    rcases (cleared node.owner).core id with kept | ⟨⟨core, found, distant⟩, _⟩
    · exact kept.trans home
    · rw [home] at found
      cases found
      cases distant
  · rcases (cleared p).core id with kept | ⟨_, gone⟩
    · exact represents.ghost p id core (kept.symm.trans found)
    · cases gone.symm.trans found
  · rw [managed]
    exact represents.managed id node inside
  · rw [newLocal] at fresh
    exact represents.newLocal p id fresh
  · rw [nodeId]
    exact represents.nodeId p
  · rw [edgeId]
    exact represents.edgeId p
  · rw [nodeId]
    exact represents.nodesIssued id node inside
  · rw [edgeId]
    exact represents.edgesIssued k edge inside
  · ext e
    rw [(cleared p).edge, represents.edges]
    refine and_iff_left_of_imp fun stored => ?_
    rintro ⟨_, source, target⟩
    rw [represents.isLocal] at source target
    obtain ⟨edge, _, near, rfl⟩ := GlobalGraph.edgeAt_eq_some.mp stored
    exact near.elim source target

end Fpmas.Graph

namespace Fpmas.Synchro.Hard

open Fpmas.Graph

variable {n : Nat} {T W : Type}

/-- What a synchronization leaves: nobody is in any call, and the processes store `G`. -/
structure Rested (G : GlobalGraph n T W) (s : HardSystem n T W) : Prop where
  process : ∀ p, s.process p = { HardProcess.empty p with graph := (s.process p).graph }
  graph : ∀ p, GraphInv (s.process p).graph
  represents : Represents G fun p => (s.process p).graph.view
  linked : ∀ k edge, G.edge k = some edge ↔ s.linked k = some edge ∧ k ∉ s.unlinked
  issued : ∀ k edge, s.linked k = some edge → k.id < (s.process k.rank).graph.edgeId.id
  unlinked : ∀ k ∈ s.unlinked, ∃ edge, s.linked k = some edge

section

variable {G : GlobalGraph n T W} {s : HardSystem n T W}

open GlobalGraph HardSystem

theorem rested_empty : Rested .empty (.empty : HardSystem n T W) where
  process _ := rfl
  graph := graphInv_empty
  represents := by
    refine ⟨⟨fun _ => rfl, ?_, ?_, ?_, ?_, ?_, fun _ => rfl, fun _ => rfl, ?_, ?_⟩, fun _ _ => rfl⟩
    · intro id node inside
      cases inside
    · intro p id core found
      cases found
    · intro k edge inside
      cases inside
    · intro id node inside
      cases inside
    · rintro p id fresh
      cases fresh
    · intro id node inside
      cases inside
    · intro k edge inside
      cases inside
  linked k edge := ⟨fun inside => (nomatch inside), fun both => (nomatch both.1)⟩
  issued k edge at_ := by cases at_
  unlinked k member := by cases member

theorem Rested.live (rested : Rested G s) : Live G s := by
  have idle : ∀ p, (s.process p).stack = [] := fun p => by rw [rested.process p]; rfl
  have ghosts : ∀ p, (s.process p).ghostEdges = [] := fun p => by rw [rested.process p]; rfl
  have server : ∀ p, (s.process p).server = .empty := fun p => by rw [rested.process p]; rfl
  have whole : ∀ p, (s.process p).whole = (s.process p).graph := fun p => HardProcess.whole_idle (idle p)
  have roles : ∀ p k, (s.process p).role k =
      { present := ∃ edge, G.edge k = some edge ∧ G.Near p edge, linking := False, unlinking := False,
        ghost := False, asks := fun _ => False, tells := fun _ => False } := by
    intro p k
    have present : (∃ e, (s.process p).graph.getEdge k = some e) ↔
        ∃ edge, G.edge k = some edge ∧ G.Near p edge := by
      simp only [← DistributedGraph.view_edge, rested.represents.edges p, edgeAt_eq_some]
      constructor
      · rintro ⟨e, edge, inside, near, _⟩
        exact ⟨edge, inside, near⟩
      · rintro ⟨edge, inside, near⟩
        exact ⟨_, edge, inside, near, rfl⟩
    rw [HardProcess.role_idle (idle p), whole, ghosts]
    simp [present]
  refine ⟨fun p => ⟨?_, fun k e found => ?_, ?_, fun k => ?_, ⟨?_, ?_⟩, ?_, ?_, fun _ => ⟨idle p, ghosts p⟩⟩,
    ?_, fun k edge inside => ((rested.linked k edge).mp inside).1,
    fun k edge at_ stays => (rested.linked k edge).mpr ⟨at_, stays⟩, fun k edge at_ => ?_, rested.unlinked,
    fun k edge inside => ?_⟩
  · rw [whole]
    exact rested.graph p
  · rw [whole, ← DistributedGraph.view_edge, rested.represents.edges p, edgeAt_eq_some] at found
    obtain ⟨edge, inside, _, stored⟩ := found
    exact ⟨edge, inside, stored⟩
  · rw [idle]
    exact .idle
  · rw [roles, server]
    exact iff_of_false List.not_mem_nil not_false
  · rw [server]
    rfl
  · rw [rested.process]
    rfl
  · rw [ghosts]
    exact List.nodup_nil
  · rw [ghosts]
    intro k member
    cases member
  · simp only [whole]
    exact rested.represents.toHosts
  · rw [whole]
    exact rested.issued k edge at_
  · have new : s.life G k edge =
        { near := fun q => G.Near q edge, removed := False, present := fun q => G.Near q edge,
          linking := fun _ => False, unlinking := fun _ => False, ghost := fun _ => False,
          asks := fun _ _ => False, tells := fun _ _ => False } := by
      ext q
      · rfl
      · exact iff_of_false ((rested.linked k edge).mp inside).2 not_false
      all_goals simp [HardSystem.life, roles, inside]
    rw [new]
    constructor <;> grind

theorem Live.ended (live : Live G s) (order : Fin n → HashOrder) (ended : s.ended = true) :
    ∃ s', s.leave order = some s' ∧ s'.graphs = s.graphs ∧
      Rested { G with edge := fun k => if k ∈ s.unlinked then none else G.edge k } s' := by
  have still : ∀ p, (s.process p).synchronizing = true := by
    intro p
    have all := List.all_eq_true.mp ended p (List.mem_finRange p)
    rw [Bool.and_eq_true] at all
    exact all.1
  have idle := fun p => ((live.process p).settled (still p)).1
  have ghosts := fun p => ((live.process p).settled (still p)).2
  have whole : ∀ p, (s.process p).whole = (s.process p).graph := fun p => HardProcess.whole_idle (idle p)
  let t (p : Fin n) : HardProcess n T W := { HardProcess.empty p with graph := (s.process p).graph }
  have left : ∀ p, (s.process p).terminated (order p) = some (t p) := by
    intro p
    have server : (s.process p).server = .empty := by
      have locked : (s.process p).server.lockedUnlinkEdges = [] := by
        rw [List.eq_nil_iff_forall_not_mem]
        intro k
        rw [(live.process p).locked, HardProcess.role_idle (idle p)]
        exact not_false
      have stays := (live.process p).stays.1
      generalize (s.process p).server = server at locked stays ⊢
      cases server
      cases locked
      cases stays
      rfl
    unfold HardProcess.terminated
    rw [(live.process p).stays.2]
    dsimp only [List.foldlM_nil]
    rw [idle, ghosts, server]
    rfl
  refine ⟨{ s with process := t }, ?_, rfl, fun p => rfl, fun p => ?_, ?_, fun k edge => ?_,
    fun k edge at_ => ?_, live.unlinked⟩
  · unfold HardSystem.leave
    rw [if_pos ended, collect_eq_some.mpr left]
    rfl
  · show GraphInv (s.process p).graph
    rw [← whole]
    exact (live.process p).graph
  · have hosts := live.hosts
    simp only [whole] at hosts
    have only : ∀ k edge, (if k ∈ s.unlinked then none else G.edge k) = some edge ↔
        k ∉ s.unlinked ∧ G.edge k = some edge := fun k edge => Option.ite_none_left_eq_some
    refine ⟨hosts.withEdges (fun _ => rfl) (fun _ => rfl) (fun _ => rfl) (fun _ => rfl) (fun _ => rfl)
      hosts.edgeId (fun k edge inside => hosts.closed k edge ((only k edge).mp inside).2)
      fun k edge inside => hosts.edgesIssued k edge ((only k edge).mp inside).2, fun p k => ?_⟩
    ext e
    show (s.process p).graph.getEdge k = some e ↔ _
    rw [edgeAt_eq_some]
    have settled : ∀ edge, G.edge k = some edge →
        ((∃ e, (s.process p).graph.getEdge k = some e) ↔ G.Near p edge ∧ k ∉ s.unlinked) := by
      intro edge inside
      have rest := (live.ok k edge inside).settled (fun q => ?_) (fun q => ?_) (fun q => ?_) p
      · rw [← whole]
        exact rest
      all_goals
        simp only [HardSystem.life, HardProcess.role_idle (idle q), ghosts]
        simp
    constructor
    · intro found
      obtain ⟨edge, inside, stored⟩ := (live.process p).edges k e (by rw [whole]; exact found)
      obtain ⟨near, stays⟩ := (settled edge inside).mp ⟨e, found⟩
      exact ⟨edge, (only k edge).mpr ⟨stays, inside⟩, near, stored⟩
    · rintro ⟨edge, inside, near, stored⟩
      obtain ⟨stays, inside⟩ := (only k edge).mp inside
      obtain ⟨e', found⟩ := (settled edge inside).mpr ⟨near, stays⟩
      obtain ⟨edge', inside', stored'⟩ := (live.process p).edges k e' (by rw [whole]; exact found)
      cases inside.symm.trans inside'
      rw [stored, found, stored']
      rfl
  · show (if k ∈ s.unlinked then none else G.edge k) = some edge ↔ _
    rw [Option.ite_none_left_eq_some]
    constructor
    · rintro ⟨stays, inside⟩
      exact ⟨live.linked k edge inside, stays⟩
    · rintro ⟨at_, stays⟩
      exact ⟨stays, live.kept k edge at_ stays⟩
  · have issued := live.issued k edge at_
    rw [whole] at issued
    exact issued

theorem Rested.withGraphs {G' : GlobalGraph n T W} (rested : Rested G s)
    {graphs : Fin n → DistributedGraph n T W} (inv : ∀ p, GraphInv (graphs p))
    (represents : Represents G' fun p => (graphs p).view) (edge : G'.edge = G.edge)
    (edgeId : ∀ p, (graphs p).edgeId = (s.process p).graph.edgeId) : Rested G' (s.withGraphs graphs) where
  process p := by
    show { s.process p with graph := graphs p } = _
    rw [rested.process p]
    rfl
  graph := inv
  represents := represents
  linked k e := by
    rw [edge]
    exact rested.linked k e
  issued k e at_ := by
    show k.id < (graphs k.rank).edgeId.id
    rw [edgeId]
    exact rested.issued k e at_
  unlinked := rested.unlinked

theorem Live.synchronize (live : Live G s) (order : Fin n → HashOrder) (ended : s.ended = true) :
    ∃ s', s.synchronize order = some s' ∧
      Rested { G with edge := fun k => if k ∈ s.unlinked then none else G.edge k } s' ∧
      s'.linked = s.linked ∧ s'.unlinked = s.unlinked := by
  obtain ⟨u, left, _, rested⟩ := live.ended order ended
  have history : u.linked = s.linked ∧ u.unlinked = s.unlinked := by
    obtain ⟨_, left⟩ := Option.ite_none_right_eq_some.mp left
    obtain ⟨_, _, rfl⟩ := Option.map_eq_some_iff.mp left
    exact ⟨rfl, rfl⟩
  obtain ⟨graphs, cleared, good⟩ := collect_some fun p => (rested.graph p).clearDistantNodes (order p)
  refine ⟨u.withGraphs graphs, ?_, ?_, history.1, history.2⟩
  · unfold HardSystem.synchronize
    rw [left, Option.bind_some, cleared, Option.map_some]
  · refine rested.withGraphs (fun p => (good p).1) (rested.represents.cleared fun p => (good p).2) rfl fun p => ?_
    exact congrArg GraphView.edgeId (good p).2.rest

theorem Live.distribute [One W] (live : Live G s) (light : T → T) (order : Fin n → HashOrder)
    {partition : Fin n → PartitionMap n}
    (mapped : ∀ p, ∀ entry ∈ (partition p).entries, entry.2 ≠ p →
      ¬ (s.process p).graph.view.IsDistant entry.1) (ended : s.ended = true) :
    ∃ s', s.distribute light order partition = some s' ∧
      Rested ({ G with edge := fun k => if k ∈ s.unlinked then none else G.edge k }.distributed partition) s' ∧
      s'.linked = s.linked ∧ s'.unlinked = s.unlinked := by
  obtain ⟨u, left, graphs, rested⟩ := live.ended order ended
  have history : u.linked = s.linked ∧ u.unlinked = s.unlinked := by
    obtain ⟨_, left⟩ := Option.ite_none_right_eq_some.mp left
    obtain ⟨_, _, rfl⟩ := Option.map_eq_some_iff.mp left
    exact ⟨rfl, rfl⟩
  have same : ∀ p, (u.process p).graph = (s.process p).graph := fun p => congrFun graphs p
  obtain ⟨graphs, moved, inv, represents, relocated⟩ := rested.represents.relocate light order
    rested.graph fun p id q (entry : (partition p).lookup id = some q) away => by
      rw [same]
      exact mapped p ⟨id, q⟩ (AList.mem_lookup_iff.mp entry) away
  refine ⟨u.withGraphs graphs, ?_, rested.withGraphs inv represents rfl fun p => ?_, history.1, history.2⟩
  · unfold HardSystem.distribute
    rw [left, Option.bind_some]
    show (Fpmas.Graph._distribute light order partition fun p => (u.process p).graph).map _ = _
    rw [moved, Option.map_some]
  · exact congrArg GraphView.edgeId (relocated.rest p)

theorem Live.next [One W] (live : Live G s) {light : T → T} {action : HardAction n T} {s' : HardSystem n T W}
    (links : action.Links s) (prompt : action.Prompt s) (taken : (hard n T W light).next s action = some s') :
    ∃ G', Live G' s' := by
  have end_ : ∀ {order : Fin n → HashOrder} {β : Type} {f : HardSystem n T W → Option β} {b : β},
      (s.leave order).bind f = some b → s.ended = true := by
    intro order β f b left
    obtain ⟨_, left, _⟩ := Option.bind_eq_some_iff.mp left
    exact (Option.ite_none_right_eq_some.mp left).1
  cases action with
  | buildNode p data => exact ⟨_, live.buildNode taken⟩
  | link p source target layer => exact ⟨_, live.link light taken⟩
  | unlink p edge => exact ⟨G, live.unlink prompt taken⟩
  | removeNode p node => exact links.elim
  | resume p order => exact ⟨G, live.resume taken⟩
  | handle p frame index order => exact ⟨G, live.handle prompt taken⟩
  | enter p => exact ⟨G, live.enter taken⟩
  | synchronize order =>
    obtain ⟨_, result, rested, _⟩ := live.synchronize order (end_ taken)
    cases result.symm.trans taken
    exact ⟨_, rested.live⟩
  | distribute order partition =>
    obtain ⟨_, result, rested, _⟩ := live.distribute light order links (end_ taken)
    cases result.symm.trans taken
    exact ⟨_, rested.live⟩

end

/-- The states of the runs in which nobody removes nodes and whose steps are all prompt. -/
def PromptRun [One W] (light : T → T) (s : HardSystem n T W) : Prop :=
  (hard n T W light).ReachableBy (fun s action => action.Links s ∧ action.Prompt s) s

theorem PromptRun.live [One W] {light : T → T} {s : HardSystem n T W} (run : PromptRun light s) :
    ∃ G, Live G s := by
  refine TransitionSystem.ReachableBy.invariant (I := fun s => ∃ G, Live G s) (fun s start => ?_)
    (fun s action s' _ live guard taken => ?_) run
  · rw [show s = .empty from start]
    exact ⟨_, rested_empty.live⟩
  · obtain ⟨_, live⟩ := live
    exact live.next guard.1 guard.2 taken

end Fpmas.Synchro.Hard
