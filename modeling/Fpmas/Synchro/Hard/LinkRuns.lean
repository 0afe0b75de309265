import Fpmas.Synchro.Hard.LinkCalls

set_option autoImplicit false

namespace Fpmas.Synchro.Hard

open Fpmas.Graph

variable {n : Nat} {T W : Type}

namespace HardSystem

variable (s : HardSystem n T W) (p : Fin n) (t : HardProcess n T W)

def views : Fin n → GraphView n T W := fun q => (s.process q).whole.view

-- Nobody is linking the edge on `q`, and no LINK request for it is on its way to `q`.
def Arrived (q : Fin n) (k : Id n) : Prop :=
  (∀ call ∈ (s.process q).stack, ¬ call.Links k) ∧
    ∀ p, ∀ call ∈ (s.process p).stack, call.Links k → ∀ request ∈ call.sends, request.dest ≠ q

variable {s p t}

theorem process_setProcess (q : Fin n) :
    (s.setProcess p t).process q = if q = p then t else s.process q :=
  Function.update_apply _ _ _ _

theorem role_setProcess (q : Fin n) (k : Id n) :
    ((s.setProcess p t).process q).role k = if q = p then t.role k else (s.process q).role k := by
  rw [process_setProcess]
  split <;> rfl

theorem views_setProcess : (s.setProcess p t).views = Function.update s.views p t.whole.view := by
  funext q
  unfold views
  rw [process_setProcess, Function.update_apply]
  split <;> rfl

theorem edgeId_setProcess (same : t.whole.edgeId = (s.process p).whole.edgeId) (q : Fin n) :
    ((s.setProcess p t).process q).whole.edgeId = (s.process q).whole.edgeId := by
  rw [process_setProcess]
  split
  next here => rw [here, same]
  next => rfl

theorem life_congr {s' : HardSystem n T W} {G : GlobalGraph n T W} {k : Id n} {edge : GlobalEdge n W}
    (unlinked : k ∈ s'.unlinked ↔ k ∈ s.unlinked)
    (roles : ∀ q, (s'.process q).role k = (s.process q).role k) : s'.life G k edge = s.life G k edge := by
  unfold life
  simp only [unlinked, roles]

end HardSystem

/-- The steps of users who remove no node, and give away only their own nodes. -/
def HardAction.Links (s : HardSystem n T W) : HardAction n T → Prop
  | removeNode _ _ => False
  | distribute _ partition => ∀ p, ∀ entry ∈ (partition p).entries, entry.2 ≠ p →
      ¬ (s.process p).graph.view.IsDistant entry.1
  | _ => True

/-- An UNLINK request reaches a process once the process has the edge, and nobody unlinks an edge that the
next synchronization erases from its graph. -/
def HardAction.Prompt (s : HardSystem n T W) : HardAction n T → Prop
  | unlink p edge => edge ∉ (s.process p).ghostEdges
  | handle p frame index _ =>
    match ((s.process p).stack[frame]?).bind (·.sends[index]?) with
    | some { dest, message := .unlink k } => s.Arrived dest k
    | _ => True
  | _ => True

theorem LiveProcess.alone {G : GlobalGraph n T W} {p : Fin n} {s : HardProcess n T W} (live : LiveProcess G p s) {frame : Nat}
    {call : LinkFrame n T W} (at_ : s.stack[frame]? = some call) : s.stack = [call] ∧ frame = 0 := by
  have inCall := live.call
  cases stack : s.stack with
  | nil =>
    rw [stack] at at_
    cases at_
  | cons first rest =>
    rw [stack] at inCall at_
    have alone : rest = [] := by
      cases inCall <;> rfl
    subst alone
    cases frame with
    | zero =>
      cases at_
      exact ⟨rfl, rfl⟩
    | succ i => cases at_

namespace Live

variable {G : GlobalGraph n T W} {s : HardSystem n T W} {p : Fin n} {t : HardProcess n T W}

open GlobalGraph HardSystem

theorem setProcess (live : Live G s) (process : LiveProcess G p t)
    (hosts : Hosts G (Function.update s.views p t.whole.view))
    (edgeId : t.whole.edgeId = (s.process p).whole.edgeId)
    (ok : ∀ k edge, G.edge k = some edge → ((s.setProcess p t).life G k edge).Ok) :
    Live G (s.setProcess p t) where
  process q := by
    rw [process_setProcess]
    split
    next here => rw [here]; exact process
    next => exact live.process q
  hosts := by
    have views := views_setProcess (s := s) (p := p) (t := t)
    unfold HardSystem.views at views
    rw [views]
    exact hosts
  linked := live.linked
  kept := live.kept
  issued k edge at_ := by
    rw [edgeId_setProcess edgeId]
    exact live.issued k edge at_
  unlinked := live.unlinked
  ok := ok

theorem life_setProcess {k : Id n} {edge : GlobalEdge n W} (same : t.role k = (s.process p).role k) :
    (s.setProcess p t).life G k edge = s.life G k edge := by
  refine life_congr .rfl fun q => ?_
  rw [role_setProcess]
  split
  next here => rw [here, same]
  next => rfl

theorem absent (live : Live G s) {k : Id n} (fresh : G.edge k = none) (q : Fin n) :
    (s.process q).role k =
      { present := False, linking := False, unlinking := False, ghost := False,
        asks := fun _ => False, tells := fun _ => False } := by
  have process := live.process q
  have present : ∀ e, (s.process q).whole.getEdge k ≠ some e := by
    intro e found
    obtain ⟨_, inside, _⟩ := process.edges k e found
    cases fresh.symm.trans inside
  have ghost : k ∉ (s.process q).ghostEdges := by
    intro member
    obtain ⟨_, inside⟩ := process.ghosts k member
    cases fresh.symm.trans inside
  have call := process.call
  cases stack : (s.process q).stack with
  | nil =>
    rw [HardProcess.role_idle stack]
    simp [present, ghost]
  | cons first rest =>
    rw [stack] at call
    cases call with
    | @link j e sends half mine once sent =>
      have other : j ≠ k := by
        rintro rfl
        refine present e ?_
        rw [HardProcess.whole_link stack, DistributedGraph.getEdge_insertEdge half, if_pos rfl]
      rw [HardProcess.role_link stack]
      simp [present, ghost, other]
    | @unlink j sends inside sent =>
      have other : j ≠ k := by
        rintro rfl
        obtain ⟨_, inside⟩ := inside
        cases fresh.symm.trans inside
      rw [HardProcess.role_unlink stack]
      simp [present, ghost, other]

theorem call_eq {step : HardProcess n T W → Option (HardProcess n T W)} {s' : HardSystem n T W}
    (taken : s.call p step = some s') :
    (s.process p).running = true ∧ ∃ t, step (s.process p) = some t ∧ s' = s.setProcess p t := by
  unfold HardSystem.call at taken
  obtain ⟨runs, taken⟩ := Option.ite_none_right_eq_some.mp taken
  obtain ⟨t, result, rfl⟩ := Option.map_eq_some_iff.mp taken
  exact ⟨runs, t, result, rfl⟩

theorem buildNode [One W] (live : Live G s) {data : T} {s' : HardSystem n T W}
    (taken : s.call p (fun process => process.buildNode data) = some s') :
    Live (G.buildNode p (s.views p).nodeId data) s' := by
  obtain ⟨runs, t, result, rfl⟩ := call_eq taken
  have process := live.process p
  obtain ⟨idle, _⟩ := HardProcess.running_idle runs
  have whole := HardProcess.whole_idle idle
  have inv := process.graph
  rw [whole] at inv
  have fresh : (s.process p).graph.getNode (s.process p).graph.nodeId = none := by
    have absent := (live.hosts.node_fresh p p).2
    rw [whole] at absent
    exact Option.map_eq_none_iff.mp absent
  obtain ⟨g, built, invG, viewG⟩ := inv.buildNode data fresh
  obtain ⟨_, built', rfl⟩ := Option.map_eq_some_iff.mp result
  cases built.symm.trans built'
  let t : HardProcess n T W := { s.process p with graph := g }
  have wholeT : t.whole = g := HardProcess.whole_idle idle
  have view : t.whole.view = (s.views p).buildNode data := by
    rw [wholeT, viewG]
    unfold HardSystem.views
    rw [whole]
  let G' := G.buildNode p (s.views p).nodeId data
  have hosts : Hosts G' (Function.update s.views p t.whole.view) := by
    rw [view]
    exact live.hosts.buildNode p data
  have grows : Grows G G' := by
    refine ⟨fun x node inside => ?_, fun _ _ inside => inside⟩
    rw [buildNode_node, if_neg, inside]
    rintro rfl
    cases (live.hosts.node_fresh p p).1.symm.trans inside
  have roles : ∀ k, t.role k = (s.process p).role k := by
    intro k
    have same : t.whole.getEdge k = (s.process p).whole.getEdge k := by
      rw [← DistributedGraph.view_edge, view]
      rfl
    rw [HardProcess.role_idle idle, HardProcess.role_idle (show t.stack = [] from idle), same]
  have closed := live.hosts.closed
  have process' : LiveProcess G' p t := by
    have grown := process.grow grows closed
    refine ⟨?_, fun k e found => ?_, ?_, fun k => ?_, grown.stays, grown.once, grown.ghosts, grown.settled⟩
    · rw [wholeT]
      exact invG
    · refine grown.edges k e ?_
      rw [← DistributedGraph.view_edge, view] at found
      exact found
    · rw [show t.stack = [] from idle]
      exact .idle
    · rw [roles]
      exact grown.locked k
  have edgeId : t.whole.edgeId = (s.process p).whole.edgeId := congrArg GraphView.edgeId view
  refine ⟨fun q => ?_, ?_, live.linked, live.kept, fun k edge at_ => ?_, live.unlinked,
    fun k edge inside => ?_⟩
  · rw [process_setProcess]
    split
    next here => rw [here]; exact process'
    next => exact (live.process q).grow grows closed
  · have views := views_setProcess (s := s) (p := p) (t := t)
    unfold HardSystem.views at views
    rw [views]
    exact hosts
  · rw [edgeId_setProcess edgeId]
    exact live.issued k edge at_
  · obtain ⟨source, target⟩ := closed k edge inside
    have near : ∀ q, G'.Near q edge ↔ G.Near q edge := grows.near source target
    have same : (s.setProcess p t).life G' k edge = s.life G k edge := by
      unfold HardSystem.life
      simp only [near, role_setProcess, roles]
      congr 1 <;> funext q <;> split <;> simp [*]
    rw [same]
    exact live.ok k edge inside

theorem unissued (live : Live G s) (p : Fin n) : s.linked (s.views p).edgeId = none := by
  cases old : s.linked (s.views p).edgeId with
  | none => rfl
  | some e =>
    have issued := live.issued _ e old
    rw [show (s.views p).edgeId.rank = p from live.hosts.edgeId p] at issued
    exact absurd issued (Nat.lt_irrefl _)

theorem issued_link (live : Live G s) (view : t.whole.edgeId = (s.views p).edgeId.next) {j : Id n}
    {edge e : GlobalEdge n W}
    (at_ : Function.update s.linked (s.views p).edgeId (some edge) j = some e) :
    j.id < ((s.setProcess p t).process j.rank).whole.edgeId.id := by
  have counted : ∀ q, ((s.setProcess p t).process q).whole.edgeId =
      if q = p then (s.views p).edgeId.next else (s.process q).whole.edgeId := by
    intro q
    rw [process_setProcess]
    split
    next => exact view
    next => rfl
  rw [counted]
  rw [Function.update_apply] at at_
  split at at_
  next here =>
    rw [here, show (s.views p).edgeId.rank = p from live.hosts.edgeId p, if_pos rfl]
    exact Nat.lt_succ_self _
  next =>
    have issued := live.issued j e at_
    split
    next there =>
      rw [there] at issued
      exact Nat.lt_succ_of_lt issued
    next => exact issued

-- Only `p` knows the edge that it has just built, and asks for it when it owns neither of its nodes.
theorem ok_link {u : HardSystem n T W} {k : Id n} {edge : GlobalEdge n W} (kept : k ∉ u.unlinked)
    (here : (u.process p).role k =
      { present := True
        linking := G.stateAt p edge = .DISTANT
        unlinking := False
        ghost := False
        asks := fun q => G.stateAt p edge = .DISTANT ∧ G.Near q edge ∧ q ≠ p
        tells := fun _ => False })
    (elsewhere : ∀ q, q ≠ p → (u.process q).role k =
      { present := False, linking := False, unlinking := False, ghost := False,
        asks := fun _ => False, tells := fun _ => False }) : (u.life G k edge).Ok := by
  have new : u.life G k edge =
      { near := fun q => G.Near q edge
        removed := False
        present := fun q => q = p
        linking := fun q => q = p ∧ G.stateAt p edge = .DISTANT
        unlinking := fun _ => False
        ghost := fun _ => False
        asks := fun r q => r = p ∧ G.stateAt p edge = .DISTANT ∧ G.Near q edge ∧ q ≠ p
        tells := fun _ _ => False } := by
    have roles : ∀ q, (u.process q).role k =
        { present := q = p
          linking := q = p ∧ G.stateAt p edge = .DISTANT
          unlinking := False
          ghost := False
          asks := fun r => q = p ∧ G.stateAt p edge = .DISTANT ∧ G.Near r edge ∧ r ≠ p
          tells := fun _ => False } := by
      intro q
      by_cases same : q = p
      · rw [same, here]
        simp
      · rw [elsewhere q same]
        simp [same]
    ext q
    · rfl
    · exact iff_of_false kept not_false
    all_goals
      show _ ↔ _
      simp only [HardSystem.life, roles]
  rw [new]
  by_cases distant : G.stateAt p edge = .DISTANT
  · constructor <;> grind
  · have alone := near_of_local distant
    constructor <;> grind

theorem link [One W] (live : Live G s) (light : T → T) {source target : Id n} {layer : LayerId}
    {s' : HardSystem n T W} (taken : s.link light p source target layer = some s') :
    Live (G.link (s.views p).edgeId { layer, weight := 1, source, target }) s' := by
  obtain ⟨_, called, rfl⟩ := Option.map_eq_some_iff.mp taken
  obtain ⟨runs, t, result, rfl⟩ := call_eq called
  have process := live.process p
  obtain ⟨⟨atSource, atTarget⟩, process', view, others, mine⟩ := process.link (v := s.views) live.hosts rfl
    runs light source target layer result
  have edgeId : (s.process p).graph.edgeId = (s.views p).edgeId := by
    show _ = (s.process p).whole.edgeId
    rw [HardProcess.whole_idle (HardProcess.running_idle runs).1]
  rw [edgeId]
  generalize named : (s.views p).edgeId = k at *
  let edge : GlobalEdge n W := { layer, weight := 1, source, target }
  have hosts := live.hosts
  have fresh : G.edge k = none := named ▸ hosts.edge_fresh p
  have inside : ∀ j, (G.link k edge).edge j = if j = k then some edge else G.edge j :=
    fun j => link_edge k j edge
  have grows : Grows G (G.link k edge) := named ▸ hosts.grows_link p edge
  have unissued : s.linked k = none := named ▸ live.unissued p
  have kept : k ∉ s.unlinked := by
    intro member
    obtain ⟨e, old⟩ := live.unlinked k member
    cases unissued.symm.trans old
  constructor
  case process =>
    intro q
    show LiveProcess _ q ((s.setProcess p t).process q)
    rw [process_setProcess]
    split
    next here => rw [here]; exact process'
    next => exact (live.process q).grow grows hosts.closed
  case hosts =>
    have views := views_setProcess (s := s) (p := p) (t := t)
    unfold HardSystem.views at views
    show Hosts _ fun q => ((s.setProcess p t).process q).whole.view
    rw [views, ← named]
    exact hosts.link atSource atTarget (by rw [view, ← named]; rfl)
  case linked =>
    intro j e at_
    show Function.update s.linked k (some edge) j = some e
    rw [inside] at at_
    rw [Function.update_apply]
    split
    next here => rwa [if_pos here] at at_
    next other =>
      rw [if_neg other] at at_
      exact live.linked j e at_
  case kept =>
    intro j e at_ stays
    change Function.update s.linked k (some edge) j = some e at at_
    rw [Function.update_apply] at at_
    rw [inside]
    split
    next here => rwa [if_pos here] at at_
    next other =>
      rw [if_neg other] at at_
      exact live.kept j e at_ stays
  case issued =>
    intro j e at_
    refine live.issued_link ?_ (named.symm ▸ at_)
    rw [named]
    exact congrArg GraphView.edgeId view
  case unlinked =>
    intro j member
    obtain ⟨e, old⟩ := live.unlinked j member
    refine ⟨e, ?_⟩
    show Function.update s.linked k (some edge) j = some e
    rw [Function.update_of_ne, old]
    rintro rfl
    exact kept member
  case ok =>
    intro j e at_
    rw [inside] at at_
    split at at_
    next here =>
      subst here
      cases at_
      refine ok_link (p := p) kept ?_ fun q other => ?_
      · show ((s.setProcess p t).process p).role _ = _
        rw [role_setProcess, if_pos rfl]
        exact mine
      · show ((s.setProcess p t).process q).role _ = _
        rw [role_setProcess, if_neg other]
        exact live.absent fresh q
    next other =>
      have same : HardSystem.life { s.setProcess p t with
          linked := Function.update s.linked k (some edge) } (G.link k edge) j e = s.life G j e := by
        refine life_congr .rfl fun q => ?_
        show ((s.setProcess p t).process q).role j = _
        rw [role_setProcess]
        split
        next here => rw [here, others j other]
        next => rfl
      show (HardSystem.life _ _ _ _).Ok
      rw [same]
      exact live.ok j e at_

theorem unlink (live : Live G s) {k : Id n} (ours : k ∉ (s.process p).ghostEdges) {s' : HardSystem n T W}
    (taken : s.unlink p k = some s') : Live G s' := by
  obtain ⟨_, called, rfl⟩ := Option.map_eq_some_iff.mp taken
  obtain ⟨runs, t, result, rfl⟩ := call_eq called
  have process := live.process p
  have idle := (HardProcess.running_idle runs).1
  obtain ⟨present, process', others, edge, inside, cases_⟩ := process.unlink (v := s.views) live.hosts rfl
    runs result
  have before := HardProcess.role_idle (s := s.process p) idle k
  have free : ¬ ((s.process p).role k).linking ∧ ¬ ((s.process p).role k).unlinking := by
    rw [before]
    exact ⟨not_false, not_false⟩
  have ok := live.ok k edge inside
  have life : ∀ j e, G.edge j = some e → j ≠ k →
      (HardSystem.life { s.setProcess p t with unlinked := k :: s.unlinked } G j e).Ok := by
    intro j e at_ other
    have same : HardSystem.life { s.setProcess p t with unlinked := k :: s.unlinked } G j e =
        s.life G j e := by
      refine life_congr (by simp [other]) fun q => ?_
      show ((s.setProcess p t).process q).role j = _
      rw [role_setProcess]
      split
      next here => rw [here, others j other]
      next => rfl
    rw [same]
    exact live.ok j e at_
  have roles : ∀ q, ((s.setProcess p t).process q).role k =
      if q = p then t.role k else (s.process q).role k := fun q => role_setProcess q k
  have hosts : Hosts G (Function.update s.views p t.whole.view) ∧
      (HardSystem.life { s.setProcess p t with unlinked := k :: s.unlinked } G k edge).Ok := by
    rcases cases_ with ⟨_, view, mine⟩ | ⟨near, view, mine⟩
    · refine ⟨?_, ?_⟩
      · rw [view, Function.update_eq_self]
        exact live.hosts
      · have new : HardSystem.life { s.setProcess p t with unlinked := k :: s.unlinked } G k edge =
            { s.life G k edge with
              removed := True
              unlinking := fun r => (s.life G k edge).unlinking r ∨ r = p
              tells := fun r r' => (s.life G k edge).tells r r' ∨ r = p ∧ G.Near r' edge ∧ r' ≠ p } := by
          ext q
          · rfl
          · exact iff_of_true List.mem_cons_self trivial
          all_goals
            show _ ↔ _
            simp only [HardSystem.life, roles, mine]
            by_cases here : q = p <;> simp [here, before]
        rw [new]
        exact ok.step (.unlink p present ours free)
    · refine ⟨?_, ?_⟩
      · rw [view]
        exact live.hosts.gain (fun _ _ found => found) (fun _ _ found => .inl found) rfl
      · have new : HardSystem.life { s.setProcess p t with unlinked := k :: s.unlinked } G k edge =
            { s.life G k edge with
              removed := True
              present := fun r => (s.life G k edge).present r ∧ r ≠ p } := by
          ext q
          · rfl
          · exact iff_of_true List.mem_cons_self trivial
          all_goals
            show _ ↔ _
            simp only [HardSystem.life, roles, mine]
            by_cases here : q = p <;> simp [here]
        have alone : ¬ G.stateAt p edge = .DISTANT := by
          rw [near]
          exact LocationState.noConfusion
        rw [new]
        exact ok.step (.unlinkLocal p present (near_of_local alone) free)
  have edgeId : t.whole.edgeId = (s.process p).whole.edgeId := by
    rcases cases_ with ⟨_, view, _⟩ | ⟨_, view, _⟩
    · exact congrArg GraphView.edgeId view
    · exact congrArg GraphView.edgeId view
  refine ⟨fun q => ?_, ?_, live.linked, fun j e at_ stays => ?_, fun j e at_ => ?_, fun j member => ?_,
    fun j e at_ => ?_⟩
  · show LiveProcess G q ((s.setProcess p t).process q)
    rw [process_setProcess]
    split
    next here => rw [here]; exact process'
    next => exact live.process q
  · have views := views_setProcess (s := s) (p := p) (t := t)
    unfold HardSystem.views at views
    show Hosts G fun q => ((s.setProcess p t).process q).whole.view
    rw [views]
    exact hosts.1
  · exact live.kept j e at_ fun member => stays (List.mem_cons_of_mem k member)
  · show j.id < ((s.setProcess p t).process j.rank).whole.edgeId.id
    rw [edgeId_setProcess edgeId]
    exact live.issued j e at_
  · rcases List.mem_cons.mp member with rfl | old
    · exact ⟨edge, live.linked j edge inside⟩
    · exact live.unlinked j old
  · by_cases here : j = k
    · subst here
      cases inside.symm.trans at_
      exact hosts.2
    · exact life j e at_ here

theorem resume (live : Live G s) {order : HashOrder} {s' : HardSystem n T W}
    (taken : s.resume p order = some s') : Live G s' := by
  obtain ⟨t, result, rfl⟩ := Option.map_eq_some_iff.mp taken
  have process := live.process p
  have call := process.call
  unfold HardProcess.resume at result
  cases stack : (s.process p).stack with
  | nil =>
    rw [stack] at result
    cases result
  | cons first rest =>
    rw [stack] at call result
    cases call with
    | @link k e sends half mine once sent =>
      cases sends with
      | cons => cases result
      | nil =>
        have before := HardProcess.role_link (s := s.process p) stack k
        have found : (s.process p).whole.getEdge k = some e := by
          rw [HardProcess.whole_link stack, DistributedGraph.getEdge_insertEdge half, if_pos rfl]
        obtain ⟨edge, inside, _⟩ := process.edges k e found
        have ok := live.ok k edge inside
        have waits : (s.life G k edge).linking p := by
          show ((s.process p).role k).linking
          rw [before]
        have free : k ∉ (s.process p).ghostEdges := fun member => (ok.ghost p member).2.2 waits
        obtain ⟨t, result', process', view, others, edge', inside', _, mine⟩ := process.linked (v := s.views)
          live.hosts rfl stack free
        cases inside.symm.trans inside'
        cases result.symm.trans result'
        have last : ∀ q, ¬ (s.life G k edge).asks p q := by
          intro q
          show ¬ ((s.process p).role k).asks q
          rw [before]
          simp
        refine live.setProcess process' ?_ (congrArg GraphView.edgeId view) fun j e at_ => ?_
        · rw [view, Function.update_eq_self]
          exact live.hosts
        · by_cases here : j = k
          · subst here
            cases inside.symm.trans at_
            have new : (s.setProcess p t).life G j edge =
                { s.life G j edge with
                  linking := fun r => (s.life G j edge).linking r ∧ r ≠ p
                  ghost := fun r => (s.life G j edge).ghost r ∨ r = p ∧ ¬ G.Near p edge } := by
              ext q
              · rfl
              · rfl
              all_goals
                simp only [HardSystem.life, role_setProcess, mine]
                by_cases here : q = p <;> simp [here, before, free]
            rw [new]
            exact ok.step (.linked p waits last)
          · rw [life_setProcess (others j here)]
            exact live.ok j e at_
    | @unlink k sends inside sent =>
      cases sends with
      | cons => cases result
      | nil =>
        have before := HardProcess.role_unlink (s := s.process p) stack k
        obtain ⟨edge, inside⟩ := inside
        have ok := live.ok k edge inside
        have waits : (s.life G k edge).unlinking p := by
          show ((s.process p).role k).unlinking
          rw [before]
        obtain ⟨t, result', process', view, others, mine⟩ := process.unlinked (v := s.views)
          rfl stack (ok.unlinking p waits).2.1
        cases result.symm.trans result'
        have last : ∀ q, ¬ (s.life G k edge).tells p q := by
          intro q
          show ¬ ((s.process p).role k).tells q
          rw [before]
          simp
        refine live.setProcess process' ?_ (congrArg GraphView.edgeId view) fun j e at_ => ?_
        · rw [view]
          exact live.hosts.gain (fun _ _ found => found) (fun _ _ found => .inl found) rfl
        · by_cases here : j = k
          · subst here
            cases inside.symm.trans at_
            have new : (s.setProcess p t).life G j edge =
                { s.life G j edge with
                  present := fun r => (s.life G j edge).present r ∧ r ≠ p
                  unlinking := fun r => (s.life G j edge).unlinking r ∧ r ≠ p } := by
              ext q
              · rfl
              · rfl
              all_goals
                simp only [HardSystem.life, role_setProcess, mine]
                by_cases here : q = p <;> simp [here]
            rw [new]
            exact ok.step (.unlinked p waits last)
          · rw [life_setProcess (others j here)]
            exact live.ok j e at_

theorem enter (live : Live G s) {s' : HardSystem n T W}
    (taken : s.call p (fun process => process.synchronize) = some s') : Live G s' := by
  obtain ⟨runs, t, result, rfl⟩ := call_eq taken
  have process := live.process p
  have idle := (HardProcess.running_idle runs).1
  obtain ⟨t', result', process', view, roles⟩ := process.entered (v := s.views) rfl runs fun k member => by
    obtain ⟨edge, inside⟩ := process.ghosts k member
    exact ((live.ok k edge inside).ghost p member).1
  cases result.symm.trans result'
  refine live.setProcess process' ?_ (congrArg GraphView.edgeId view) fun k edge inside => ?_
  · rw [view]
    exact live.hosts.gain (fun _ _ found => found) (fun _ _ found => .inl found) rfl
  · have before := HardProcess.role_idle (s := s.process p) idle k
    have free : ¬ (s.life G k edge).linking p ∧ ¬ (s.life G k edge).unlinking p := by
      show ¬ ((s.process p).role k).linking ∧ ¬ ((s.process p).role k).unlinking
      rw [before]
      exact ⟨not_false, not_false⟩
    have new : (s.setProcess p t).life G k edge =
        { s.life G k edge with
          present := fun r => (s.life G k edge).present r ∧ ¬ (r = p ∧ (s.life G k edge).ghost p)
          ghost := fun r => (s.life G k edge).ghost r ∧ r ≠ p } := by
      ext q
      · rfl
      · rfl
      all_goals
        simp only [HardSystem.life, role_setProcess, roles]
        by_cases here : q = p <;> simp [here]
    rw [new]
    exact (live.ok k edge inside).step (.swept p free)

theorem delivered (live : Live G s) {q : Fin n} {u : HardProcess n T W}
    (sender : LiveProcess G p t) (whole : t.whole = (s.process p).whole) (receiver : LiveProcess G q u)
    (hosts : Hosts G (Function.update s.views q u.whole.view))
    (edgeId : u.whole.edgeId = (s.process q).whole.edgeId) {k : Id n}
    (others : ∀ j, j ≠ k → t.role j = (s.process p).role j ∧ u.role j = (s.process q).role j)
    {edge : GlobalEdge n W} (inside : G.edge k = some edge)
    (ok : (((s.setProcess p t).setProcess q u).life G k edge).Ok) :
    Live G ((s.setProcess p t).setProcess q u) := by
  have roles : ∀ j r, (((s.setProcess p t).setProcess q u).process r).role j =
      if r = q then u.role j else if r = p then t.role j else (s.process r).role j := by
    intro j r
    rw [role_setProcess, role_setProcess]
  refine ⟨fun r => ?_, ?_, live.linked, live.kept, fun j e at_ => ?_, live.unlinked, fun j e at_ => ?_⟩
  · rw [process_setProcess]
    split
    next here => rw [here]; exact receiver
    next =>
      rw [process_setProcess]
      split
      next here => rw [here]; exact sender
      next => exact live.process r
  · have views : (fun r => (((s.setProcess p t).setProcess q u).process r).whole.view) =
        Function.update s.views q u.whole.view := by
      have same : Function.update s.views p t.whole.view = s.views := by
        rw [whole]
        exact Function.update_eq_self p s.views
      have first := views_setProcess (s := s) (p := p) (t := t)
      have second := views_setProcess (s := s.setProcess p t) (p := q) (t := u)
      rw [first, same] at second
      exact second
    rw [views]
    exact hosts
  · have first := edgeId_setProcess (s := s) (congrArg (·.edgeId) whole)
    have second := edgeId_setProcess (s := s.setProcess p t) (p := q) (t := u) (by rw [first, edgeId])
    rw [second, first]
    exact live.issued j e at_
  · by_cases here : j = k
    · subst here
      cases inside.symm.trans at_
      exact ok
    · have same : ((s.setProcess p t).setProcess q u).life G j e = s.life G j e := by
        refine life_congr .rfl fun r => ?_
        rw [roles]
        split
        next there => rw [there, (others j here).2]
        next =>
          split
          next there => rw [there, (others j here).1]
          next => rfl
      rw [same]
      exact live.ok j e at_

-- `p` has sent `request` from its call, and goes on as `t`.
section

variable {call : LinkFrame n T W} {request : LinkRequest n T W} {index : Nat}
  (stack : (s.process p).stack = [call]) (pending : call.sends[index]? = some request)
  (received : t = { s.process p with stack := [call.received index] })
include stack pending received

theorem received_other (live : Live G s) {j : Id n} (links : ¬ call.Links j) (unlinks : ¬ call.Unlinks j) :
    t.role j = (s.process p).role j := by
  obtain ⟨_, _, roles⟩ := (live.process p).received stack pending
  obtain ⟨tells, same, fewer, more⟩ := roles j
  rw [received, same]
  ext q
  case tells => exact ⟨fewer q, fun told => more q told fun both => unlinks both.1⟩
  case asks => exact and_iff_left fun both => links both.1
  all_goals rfl

theorem handle_link [One W] (live : Live G s) {order : HashOrder} {k : Id n} (links : call.Links k)
    (apart : request.dest ≠ p) (carries : request.Carries G k) {u : HardProcess n T W}
    (acted : (s.process request.dest).handle order request.message = some u) :
    Live G ((s.setProcess p t).setProcess request.dest u) := by
  obtain ⟨message, edge, content, rfl, inside, carries, source, target⟩ := carries
  cases call with
  | link k e sends =>
    have same : k = message.id := links
    subst same
    have ok := live.ok message.id edge inside
    have asks : (s.life G message.id edge).asks p request.dest := by
      show ((s.process p).role message.id).asks request.dest
      rw [HardProcess.role_link stack]
      exact ⟨rfl, List.mem_map_of_mem (List.mem_of_getElem? pending)⟩
    have fresh := (ok.asked p request.dest asks).2.1
    have absent : (s.views request.dest).edge message.id = none := by
      cases found : (s.views request.dest).edge message.id with
      | none => rfl
      | some e' => exact absurd ⟨e', found⟩ fresh
    have counted : ((s.views request.dest).importEdge message).edgeId = (s.views request.dest).edgeId :=
      (live.hosts.importEdge carries absent source target).2.1
    obtain ⟨sender, whole, roles⟩ := (live.process p).received stack pending
    rw [← received] at sender whole roles
    obtain ⟨g, result, receiver, view, others, mine⟩ := (live.process request.dest).imported (v := s.views)
      live.hosts rfl order inside carries source target fresh
    rw [content] at acted
    obtain ⟨_, result', rfl⟩ := Option.map_eq_some_iff.mp acted
    cases result.symm.trans result'
    refine live.delivered sender whole receiver ?_ ((congrArg GraphView.edgeId view).trans counted)
      (fun j other => ⟨live.received_other stack pending received (Ne.symm other) not_false, others j other⟩)
      inside ?_
    · rw [view]
      exact (live.hosts.importEdge carries absent source target).1
    · obtain ⟨tells, same, fewer, _⟩ := roles message.id
      have untold : tells = ((s.process p).role message.id).tells := by
        funext q
        refine propext ⟨fewer q, fun told => ?_⟩
        rw [HardProcess.role_link stack] at told
        exact told.elim
      rw [untold] at same
      have new : ((s.setProcess p t).setProcess request.dest { s.process request.dest with graph := g }).life
          G message.id edge =
          { s.life G message.id edge with
            asks := fun r r' => (s.life G message.id edge).asks r r' ∧ ¬ (r = p ∧ r' = request.dest)
            present := fun r => (s.life G message.id edge).present r ∨ r = request.dest } := by
        ext q
        · rfl
        · rfl
        all_goals
          simp only [HardSystem.life, role_setProcess, mine, same]
          by_cases here : q = request.dest
          · simp [here, apart]
          · by_cases there : q = p <;> simp [here, there, Ne.symm apart, LinkFrame.Links]
      rw [new]
      exact ok.step (.imported p request.dest asks)
  | unlink => cases links
  | removeNode => cases links
  | lockShared => cases links
  | unlinkEdges => cases links

end

theorem erases [One W] (live : Live G s) {q : Fin n} {order : HashOrder} {k : Id n} {u : HardProcess n T W}
    (acted : (s.process q).handle order (.unlink k) = some u) (unlinked : ¬ ((s.process q).role k).linking)
    (locked : k ∉ (s.process q).server.lockedUnlinkEdges) :
    LiveProcess G q u ∧ Hosts G (Function.update s.views q u.whole.view) ∧
      u.whole.edgeId = (s.process q).whole.edgeId ∧
      (∀ j, j ≠ k → u.role j = (s.process q).role j) ∧
      u.role k = { (s.process q).role k with present := False } := by
  have receiver := live.process q
  unfold HardProcess.handle at acted
  dsimp only at acted
  rw [if_neg (mt LinkServer.isLockedUnlink_iff.mp locked)] at acted
  cases found : (s.process q).graph.getEdge k with
  | none =>
    rw [found] at acted
    cases acted
    have gone : ((s.process q).role k).present ↔ False := by
      refine iff_false_intro ?_
      rintro ⟨e, there⟩
      cases found.symm.trans (receiver.graph_of_whole there unlinked)
    refine ⟨receiver, ?_, rfl, fun _ _ => rfl, ?_⟩
    · rw [show (s.process q).whole.view = s.views q from rfl, Function.update_eq_self]
      exact live.hosts
    · ext r
      case present => exact gone
      all_goals rfl
  | some e =>
    have stays : ∀ id, (s.process q).server.isLockedRemoveNode id = false := by
      intro id
      unfold LinkServer.isLockedRemoveNode
      rw [receiver.stays.1]
      rfl
    simp only [found, Option.elim_some, stays, Bool.or_self, Bool.false_eq_true, if_false] at acted
    obtain ⟨g, result, receiver', view, others, mine⟩ := receiver.erased (v := s.views) rfl
      ⟨e, receiver.whole_of_graph found⟩ unlinked
    obtain ⟨_, result', rfl⟩ := Option.map_eq_some_iff.mp acted
    cases result.symm.trans result'
    refine ⟨receiver', ?_, congrArg GraphView.edgeId view, others, mine⟩
    rw [view]
    exact live.hosts.gain (fun _ _ found => found) (fun _ _ found => .inl found) rfl

theorem tells_received (edge : GlobalEdge n W) {q : Fin n} {k : Id n} {left : Fin n → Prop}
    (fewer : ∀ r, left r → ((s.process p).role k).tells r)
    (more : ∀ r, ((s.process p).role k).tells r → r ≠ q → left r) :
    let tells (r r' : Fin n) : Prop := if r = p then left r' else (s.life G k edge).tells r r'
    (∀ r r', tells r r' → (s.life G k edge).tells r r') ∧
      ∀ r r', (s.life G k edge).tells r r' → r' ≠ q → tells r r' := by
  intro tells
  constructor
  · intro r r' told
    dsimp only [tells] at told
    split at told
    next here => rw [here]; exact fewer r' told
    next => exact told
  · intro r r' told other
    dsimp only [tells]
    split
    next here =>
      rw [here] at told
      exact more r' told other
    next => exact told

theorem handle_unlink [One W] (live : Live G s) {k : Id n} {sends : List (LinkRequest n T W)}
    {request : LinkRequest n T W} {index : Nat} (stack : (s.process p).stack = [.unlink k sends])
    (pending : sends[index]? = some request)
    (received : t = { s.process p with stack := [(LinkFrame.unlink k sends).received index] })
    {order : HashOrder} {edge : GlobalEdge n W} (inside : G.edge k = some edge) (apart : request.dest ≠ p)
    (ready : s.Arrived request.dest k) {u : HardProcess n T W}
    (acted : (s.process request.dest).handle order (.unlink k) = some u) :
    Live G ((s.setProcess p t).setProcess request.dest u) := by
  have ok := live.ok k edge inside
  have tells : (s.life G k edge).tells p request.dest := by
    show ((s.process p).role k).tells request.dest
    rw [HardProcess.role_unlink stack]
    exact ⟨rfl, List.mem_map_of_mem (List.mem_of_getElem? pending)⟩
  have unlinked : ¬ ((s.process request.dest).role k).linking := by
    rintro ⟨call, inStack, links⟩
    exact ready.1 call inStack links
  have arrived : ∀ r, ¬ ((s.process r).role k).asks request.dest := by
    rintro r ⟨call, inStack, links, pending, inSends, same⟩
    exact ready.2 r call inStack links pending inSends same
  have receiver := live.process request.dest
  obtain ⟨sender, whole, roles⟩ := (live.process p).received stack pending
  rw [← received] at sender whole roles
  have untold : ∀ j, j ≠ k → t.role j = (s.process p).role j := fun j other =>
    live.received_other stack pending received not_false (Ne.symm other)
  obtain ⟨left, same, fewer, more⟩ := roles k
  obtain ⟨fewer', more'⟩ := tells_received (G := G) edge fewer fun r told other =>
    more r told fun both => other both.2
  have outside : ∀ j, ¬ (LinkFrame.unlink k sends : LinkFrame n T W).Links j := fun _ => not_false
  by_cases locked : k ∈ (s.process request.dest).server.lockedUnlinkEdges
  · -- The process is unlinking the edge too.
    have same' : u = s.process request.dest := by
      unfold HardProcess.handle at acted
      dsimp only at acted
      rw [if_pos (LinkServer.isLockedUnlink_iff.mpr locked), Option.some.injEq] at acted
      exact acted.symm
    subst same'
    refine live.delivered sender whole receiver ?_ rfl (fun j other => ⟨untold j other, rfl⟩)
      inside ?_
    · rw [show (s.process request.dest).whole.view = s.views request.dest from rfl, Function.update_eq_self]
      exact live.hosts
    · have new : ((s.setProcess p t).setProcess request.dest (s.process request.dest)).life G k edge =
          { s.life G k edge with
            tells := fun r r' => if r = p then left r' else (s.life G k edge).tells r r' } := by
        ext q
        · rfl
        · rfl
        all_goals
          simp only [HardSystem.life, role_setProcess, same]
          by_cases here : q = request.dest
          · simp [here, apart]
          · by_cases there : q = p <;> simp [here, there, Ne.symm apart, outside]
      rw [new]
      exact ok.step (.ignored request.dest _ fewer' more' ((receiver.locked k).mp locked))
  · have free : ¬ (s.life G k edge).linking request.dest ∧ ¬ (s.life G k edge).unlinking request.dest :=
      ⟨unlinked, mt (receiver.locked k).mpr locked⟩
    obtain ⟨receiver', hosts, edgeId, others, mine⟩ := live.erases acted unlinked locked
    refine live.delivered sender whole receiver' hosts edgeId
      (fun j other => ⟨untold j other, others j other⟩) inside ?_
    have new : ((s.setProcess p t).setProcess request.dest u).life G k edge =
        { s.life G k edge with
          tells := fun r r' => if r = p then left r' else (s.life G k edge).tells r r'
          present := fun r => (s.life G k edge).present r ∧ r ≠ request.dest } := by
      ext q
      · rfl
      · rfl
      all_goals
        simp only [HardSystem.life, role_setProcess, same, mine]
        by_cases here : q = request.dest
        · simp [here, apart]
        · by_cases there : q = p <;> simp [here, there, Ne.symm apart, outside]
    rw [new]
    exact ok.step (.erased request.dest _ fewer' more' ⟨p, tells⟩ arrived free)

theorem handle [One W] (live : Live G s) {frame index : Nat} {order : HashOrder} {s' : HardSystem n T W}
    (prompt : (HardAction.handle p frame index order : HardAction n T).Prompt s)
    (taken : s.handle p frame index order = some s') : Live G s' := by
  obtain ⟨call, at_, taken⟩ := Option.bind_eq_some_iff.mp taken
  obtain ⟨request, pending, taken⟩ := Option.bind_eq_some_iff.mp taken
  obtain ⟨_, taken⟩ := Option.ite_none_right_eq_some.mp taken
  obtain ⟨u, acted, rfl⟩ := Option.map_eq_some_iff.mp taken
  have ready : ∀ k, request.message = .unlink k → s.Arrived request.dest k := by
    intro k content
    unfold HardAction.Prompt at prompt
    obtain ⟨dest, message⟩ := request
    cases content
    dsimp only at prompt
    rw [at_, Option.bind_some, pending] at prompt
    exact prompt
  have process := live.process p
  obtain ⟨stack, rfl⟩ := process.alone at_
  have modified : ({ s.process p with
      stack := (s.process p).stack.modify 0 (·.received index) } : HardProcess n T W) =
        { s.process p with stack := [call.received index] } := by
    rw [stack]
    rfl
  rw [modified] at acted ⊢
  have inCall := process.call
  rw [stack] at inCall
  have member := List.mem_of_getElem? pending
  cases inCall with
  | @link k e sends half mine once sent =>
    obtain ⟨apart, carries⟩ := sent request member
    rw [process_setProcess, if_neg apart] at acted
    exact live.handle_link stack pending rfl rfl apart carries acted
  | @unlink k sends inside sent =>
    obtain ⟨apart, content⟩ := sent request member
    obtain ⟨edge, inside⟩ := inside
    rw [process_setProcess, if_neg apart, content] at acted
    exact live.handle_unlink stack pending rfl inside apart (ready k content) acted

end Live

end Fpmas.Synchro.Hard
