import Fpmas.Model.GroupScheduling

set_option autoImplicit false

namespace Fpmas.Model

open Fpmas.Graph (LocationState Id)
open View

variable {n : Nat}

namespace Agent

theorem addGroups (agent : Agent) (gids : List GroupId) :
    gids.foldl addGroup agent = { agent with groups := agent.groups ++ gids } := by
  induction gids generalizing agent with
  | nil => simp
  | cons gid rest ih => simp [ih, addGroup]

theorem addGroupIds (agent : Agent) (gids : List GroupId) :
    gids.foldl addGroupId agent = { agent with groupIds := agent.groupIds ++ gids } := by
  induction gids generalizing agent with
  | nil => simp
  | cons gid rest ih => simp [ih, addGroupId]

theorem removeGroupIds {agent : Agent} {gids : List GroupId} (all : agent.groupIds = gids)
    (once : gids.Nodup) :
    gids.foldlM removeGroupId agent = some { agent with groupIds := [] } := by
  induction gids generalizing agent with
  | nil =>
    cases agent
    cases all
    rfl
  | cons gid rest ih =>
    have removed : agent.removeGroupId gid = some { agent with groupIds := rest } := by
      simp [removeGroupId, all, once.eraseRemoved]
    rw [List.foldlM_cons, removed]
    exact ih rfl once.of_cons

theorem assign_ofGroupIds (host : Agent) {gids : List GroupId} (once : gids.Nodup) :
    host.assign (ofGroupIds gids) = some host := by
  unfold assign
  rw [addGroups]
  simp [ofGroupIds, removeGroupIds, once, addGroupIds]

end Agent

/-- The invariant of a process: its lists represent a settled view. -/
def Settled (m : Model n) (state : Id n → Option LocationState)
    (declared : Set (Id n × GroupId)) : Prop :=
  Represents m (settled state declared)

namespace Settled

variable {m m' : Model n} {id : Id n} {gid : GroupId} {gids : List GroupId}
  {state : Id n → Option LocationState} {declared scheduled : Set (Id n × GroupId)}

theorem of_represents (rep : Represents m { state, declared, member := declared, scheduled })
    (running : ∀ id gid, (id, gid) ∈ scheduled ↔ (id, gid) ∈ declared ∧ state id = some .LOCAL) :
    Settled m state declared := by
  have same : scheduled = {pair | pair ∈ declared ∧ state pair.1 = some .LOCAL} := by
    ext ⟨id, gid⟩
    exact running id gid
  rw [same] at rep
  exact rep

theorem absent (all : Settled m state declared) (absent : m.nodes id = none) (gid : GroupId) :
    (id, gid) ∉ declared :=
  all.absent_groupIds absent

theorem state_found {node : AgentNode} (all : Settled m state declared)
    (found : m.nodes id = some node) : state id = some node.state := by
  rw [Model.stateOf_found found]
  exact (all.state id).symm

theorem buildNode (all : Settled m state declared) (absent : m.nodes id = none) (once : gids.Nodup)
    (ran : m.buildNode id (.ofGroupIds gids) = some m') :
    Settled m' (Function.update state id (some .LOCAL)) (declared ∪ pairs id gids) := by
  obtain ⟨middle, inserted, ran⟩ := Option.bind_eq_some_iff.mp ran
  have idle (gid : GroupId) : (id, gid) ∉ (settled state declared).scheduled :=
    fun running => all.absent absent gid running.1
  have rep := (all.insertNode absent once idle inserted).setLocal idle ran
  rw [Function.update_idem] at rep
  refine of_represents rep fun other g => ?_
  by_cases same : other = id
  next =>
    subst same
    simp [all.absent absent]
  next => simp [same]

theorem insertDistant (all : Settled m state declared) (once : gids.Nodup)
    (ran : m.insertDistant id (.ofGroupIds gids) = some m') :
    ∃ declared', Settled m'
      (if (state id).isSome then state else Function.update state id (some .DISTANT)) declared' := by
  have present : (state id).isSome = (m.nodes id).isSome := by
    rw [show state id = m.stateOf id from (all.state id).symm, Model.stateOf, Option.isSome_map]
  rw [present]
  unfold Model.insertDistant at ran
  split at ran
  next known =>
    cases ran
    rw [if_pos known]
    exact ⟨declared, all⟩
  next absent =>
    rw [if_neg absent]
    rw [Option.not_isSome_iff_eq_none] at absent
    obtain ⟨middle, inserted, ran⟩ := Option.bind_eq_some_iff.mp ran
    have idle (gid : GroupId) : (id, gid) ∉ (settled state declared).scheduled :=
      fun running => all.absent absent gid running.1
    have rep := (all.insertNode absent once idle inserted).setDistant
      (fun pair running => .inl running.1) ran
    rw [Function.update_idem] at rep
    refine ⟨_, of_represents rep fun other g => ?_⟩
    by_cases same : other = id <;> simp [same]

theorem setLocal (all : Settled m state declared) (distant : state id ≠ some .LOCAL)
    (ran : m.setLocal id = some m') :
    Settled m' (Function.update state id (some .LOCAL)) declared := by
  have idle (gid : GroupId) : (id, gid) ∉ (settled state declared).scheduled :=
    fun running => distant running.2
  refine of_represents (Represents.setLocal all idle ran) fun other g => ?_
  by_cases same : other = id
  next =>
    subst same
    simpa [settled] using fun declares _ => declares
  next => simp [same]

theorem setDistant (all : Settled m state declared) (ran : m.setDistant id = some m') :
    Settled m' (Function.update state id (some .DISTANT)) declared := by
  refine of_represents (Represents.setDistant all (fun pair running => running.1) ran)
    fun other g => ?_
  by_cases same : other = id <;> simp [same]

theorem groups_found {node : AgentNode} (all : Settled m state declared)
    (found : m.nodes id = some node) (gid : GroupId) :
    gid ∈ node.agent.groups ↔ (id, gid) ∈ declared := by
  rw [Model.groupsOf_found found]
  exact all.groups id gid

theorem groupIds_found {node : AgentNode} (all : Settled m state declared)
    (found : m.nodes id = some node) (gid : GroupId) :
    gid ∈ node.agent.groupIds ↔ (id, gid) ∈ declared := by
  rw [Model.groupIdsOf_found found]
  exact all.declared id gid

-- The agent of a node that is not LOCAL runs in no group.
theorem idle {node : AgentNode} (all : Settled m state declared) (found : m.nodes id = some node)
    (distant : node.state ≠ .LOCAL) (gid : GroupId) :
    (id, gid) ∉ (settled state declared).scheduled := by
  rintro ⟨-, here⟩
  rw [all.state_found found] at here
  exact distant (Option.some.inj here)

theorem eraseNode (all : Settled m state declared) (ran : m.eraseNode id = some m') :
    Settled m' (Function.update state id none) {pair | pair ∈ declared ∧ pair.1 ≠ id} := by
  obtain ⟨middle, left, ran⟩ := Option.bind_eq_some_iff.mp ran
  obtain ⟨node, found, left⟩ := Option.bind_eq_some_iff.mp left
  cases ran
  have rep := all.leaveAll (fun distant gid _ => all.idle found distant gid) left
  have same : declared \ pairs id node.agent.groups = {pair | pair ∈ declared ∧ pair.1 ≠ id} := by
    ext ⟨other, g⟩
    simp only [Set.mem_sdiff, mem_pairs, all.groups_found found, Set.mem_ofPred_eq, not_and]
    refine and_congr_right fun declares => ⟨fun absent here => ?_, fun apart here => absurd here apart⟩
    exact absent here (here ▸ declares)
  simp only [settled, same] at rep
  refine of_represents (rep.removeNode (by simp) (by simp)) fun other g => ?_
  by_cases here : other = id
  next => simpa [here, all.groups_found found] using fun declares _ => declares
  next => simp [here]

theorem add (all : Settled m state declared) (fresh : (id, gid) ∉ declared)
    (ran : m.add gid (.inGraph id) = some m') :
    Settled m' state (Insert.insert (id, gid) declared) := by
  obtain ⟨node, found, ran⟩ := Option.bind_eq_some_iff.mp ran
  dsimp only at ran
  split at ran
  next => cases ran
  next =>
    have idle : (id, gid) ∉ (settled state declared).scheduled := fun running => fresh running.1
    obtain ⟨middle, inserted, ran⟩ := Option.bind_eq_some_iff.mp ran
    have rep := (all.declare found fresh).insert fresh idle inserted
    have here := all.state_found found
    split at ran
    next is_local =>
      refine of_represents (rep.schedule idle ran) fun other g => ?_
      by_cases same : other = id <;> simp [settled, same, here, is_local]
    next distant =>
      cases ran
      refine of_represents rep fun other g => ?_
      by_cases same : other = id <;> simp [settled, same, here, distant]

theorem remove (all : Settled m state declared) (ran : m.remove gid id = some m') :
    Settled m' state (declared \ {(id, gid)}) := by
  obtain ⟨node, found, ran⟩ := Option.bind_eq_some_iff.mp ran
  obtain ⟨middle, left, ran⟩ := Option.bind_eq_some_iff.mp ran
  have rep := all.leave (fun distant => all.idle found distant gid) left
  have settled_middle : Settled middle state (declared \ {(id, gid)}) := by
    refine of_represents rep fun other g => ?_
    simp [settled, and_right_comm]
  obtain ⟨node', -, ran⟩ := Option.bind_eq_some_iff.mp ran
  split at ran
  next =>
    cases ran
    exact { settled_middle with }
  next =>
    cases ran
    exact settled_middle

theorem clear (all : Settled m state declared) (ran : m.clear gid = some m') :
    Settled m' state {pair | pair ∈ declared ∧ pair.2 ≠ gid} := by
  obtain ⟨group, found, ran⟩ := Option.bind_eq_some_iff.mp ran
  have removed := List.foldlM_done
    (motive := fun done m =>
      Settled m state {pair | pair ∈ declared ∧ ¬(pair.2 = gid ∧ pair.1 ∈ done)})
    (by simpa using all) (fun done id rest m m' _ all ran => ?_) ran
  · have same : {pair | pair ∈ declared ∧ ¬(pair.2 = gid ∧ pair.1 ∈ group.agents)} =
        {pair | pair ∈ declared ∧ pair.2 ≠ gid} := by
      ext ⟨id, g⟩
      simp only [Set.mem_ofPred_eq, not_and]
      refine and_congr_right fun declares => ⟨fun unlisted here => ?_, fun apart here => absurd here apart⟩
      subst here
      exact unlisted rfl (Model.agentsOf_found found ▸ (all.agents id g).mpr declares)
    rwa [same] at removed
  · have same : {pair | pair ∈ declared ∧ ¬(pair.2 = gid ∧ pair.1 ∈ done ++ [id])} =
        {pair | pair ∈ declared ∧ ¬(pair.2 = gid ∧ pair.1 ∈ done)} \ {(id, gid)} := by
      ext ⟨other, g⟩
      simp only [Set.mem_ofPred_eq, List.mem_append, List.mem_singleton, Set.mem_sdiff,
        Set.mem_singleton_iff, Prod.mk.injEq]
      tauto
    rw [same]
    exact all.remove ran

theorem addAll {gids : List GroupId} (all : Settled m state declared) (once : gids.Nodup)
    (fresh : ∀ gid ∈ gids, (id, gid) ∉ declared)
    (ran : gids.foldlM (fun m gid => m.add gid (.inGraph id)) m = some m') :
    Settled m' state (declared ∪ pairs id gids) := by
  refine List.foldlM_done
    (motive := fun done m => Settled m state (declared ∪ pairs id done))
    ?_ (fun done gid rest m m' split all ran => ?_) ran
  · simpa [pairs] using all
  · obtain ⟨unmet, listed⟩ := Represents.not_done once split
    have added := all.add (by simp [fresh gid listed, unmet]) ran
    rwa [← Set.union_insert, ← Represents.pairs_concat] at added

theorem removeAll {gids : List GroupId} (all : Settled m state declared)
    (ran : gids.foldlM (fun m gid => m.remove gid id) m = some m') :
    Settled m' state (declared \ pairs id gids) := by
  refine List.foldlM_done
    (motive := fun done m => Settled m state (declared \ pairs id done))
    ?_ (fun done gid rest m m' _ all ran => ?_) ran
  · simpa [pairs] using all
  · rw [Represents.sdiff_pairs_concat]
    exact all.remove ran

theorem moveAssign (all : Settled m state declared) (once : gids.Nodup)
    (ran : m.moveAssign id (.ofGroupIds gids) = some m') :
    Settled m' state ({pair | pair ∈ declared ∧ pair.1 ≠ id} ∪ pairs id gids) := by
  obtain ⟨node, found, ran⟩ := Option.bind_eq_some_iff.mp ran
  dsimp only at ran
  have same : m.setNode id node = m := by
    simp [Model.setNode, ← found]
  rw [node.agent.assign_ofGroupIds once, Option.bind_eq_bind, Option.bind_some, same] at ran
  obtain ⟨middle, added, removed⟩ := Option.bind_eq_some_iff.mp ran
  have declares := all.groupIds_found found
  have after := (all.addAll (Finset.sort_nodup _ _)
    (fun gid new => by simp_all [Agent.ofGroupIds]) added).removeAll removed
  have result : (declared ∪ pairs id ((gids.toFinset \ node.agent.groupIds.toFinset).sort (· ≤ ·))) \
      pairs id ((node.agent.groupIds.toFinset \ gids.toFinset).sort (· ≤ ·)) =
      {pair | pair ∈ declared ∧ pair.1 ≠ id} ∪ pairs id gids := by
    ext ⟨other, gid⟩
    by_cases here : other = id
    next =>
      subst here
      simp only [Set.mem_sdiff, Set.mem_union, mem_pairs, true_and, Finset.mem_sort,
        Finset.mem_sdiff, List.mem_toFinset, declares, Set.mem_ofPred_eq, ne_eq, not_true,
        and_false, false_or]
      tauto
    next => simp [here]
  rw [← result]
  exact after

end Settled

end Fpmas.Model
