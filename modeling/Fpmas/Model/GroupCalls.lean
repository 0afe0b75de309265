import Fpmas.Model.SettledGroups

set_option autoImplicit false

namespace Fpmas.Model

open Fpmas.Graph (LocationState Id)
open View

variable {n : Nat}

-- A call of `add` or `remove` on a group.
inductive GroupCall where
  | add (gid : GroupId)
  | remove (gid : GroupId)
deriving DecidableEq

def GroupCall.run (m : Model n) (id : Id n) : GroupCall → Option (Model n)
  | .add gid => m.add gid (.inGraph id)
  | .remove gid => m.remove gid id

/-- What calls on the groups `touched` change for the agent of a node: nothing else. -/
structure Regrouped (id : Id n) (node : AgentNode) (touched : List GroupId) (m m' : Model n) : Prop
    where
  host : ∃ agent : Agent, m'.nodes = Function.update m.nodes id (some { node with agent }) ∧
    ∀ gid, gid ∉ touched → agent.tasks gid = node.agent.tasks gid
  groups : ∀ gid, gid ∉ touched → m'.groups gid = m.groups gid
  known : ∀ gid, (m'.groups gid).isSome = (m.groups gid).isSome
  removedNodes : m'.removedNodes = m.removedNodes

namespace Regrouped

variable {m m' m'' : Model n} {id : Id n} {node : AgentNode} {touched touched' : List GroupId}

theorem refl (found : m.nodes id = some node) : Regrouped id node [] m m where
  host := by
    refine ⟨node.agent, ?_, fun _ _ => rfl⟩
    rw [← found, Function.update_eq_self]
  groups _ _ := rfl
  known _ := rfl
  removedNodes := rfl

theorem found (calls : Regrouped id node touched m m') :
    ∃ agent : Agent, m'.nodes id = some { node with agent } := by
  obtain ⟨agent, nodes, -⟩ := calls.host
  exact ⟨agent, by rw [nodes, Function.update_self]⟩

theorem trans {agent : Agent} (first : Regrouped id node touched m m')
    (found : m'.nodes id = some { node with agent })
    (second : Regrouped id { node with agent } touched' m' m'') :
    Regrouped id node (touched ++ touched') m m'' where
  host := by
    obtain ⟨middle, nodes, tasks⟩ := first.host
    obtain ⟨last, nodes', tasks'⟩ := second.host
    rw [nodes, Function.update_self] at found
    cases found
    refine ⟨last, ?_, fun gid untouched => ?_⟩
    · rw [nodes', nodes, Function.update_idem]
    · rw [List.mem_append, not_or] at untouched
      exact (tasks' gid untouched.2).trans (tasks gid untouched.1)
  groups gid untouched := by
    rw [List.mem_append, not_or] at untouched
    exact (second.groups gid untouched.2).trans (first.groups gid untouched.1)
  known gid := (second.known gid).trans (first.known gid)
  removedNodes := second.removedNodes.trans first.removedNodes

-- A call whose only writes are in one group and in the agent.
theorem of_updates {agent : Agent} {gid : GroupId} {group : AgentGroup n}
    (known : (m.groups gid).isSome)
    (nodes : m'.nodes = Function.update m.nodes id (some { node with agent }))
    (tasks : ∀ other, other ≠ gid → agent.tasks other = node.agent.tasks other)
    (groups : m'.groups = Function.update m.groups gid (some group))
    (removedNodes : m'.removedNodes = m.removedNodes) : Regrouped id node [gid] m m' where
  host := by
    refine ⟨agent, nodes, fun other untouched => tasks other ?_⟩
    rwa [List.mem_singleton] at untouched
  groups other untouched := by
    rw [List.mem_singleton] at untouched
    rw [groups, Function.update_of_ne untouched]
  known other := by
    by_cases same : other = gid
    next => simp [groups, same, known]
    next => rw [groups, Function.update_of_ne same]
  removedNodes := removedNodes

end Regrouped

namespace Settled

variable {m m' : Model n} {id : Id n} {gid : GroupId} {node : AgentNode}
  {state : Id n → Option LocationState} {declared : Set (Id n × GroupId)}

theorem add_returns (all : Settled m state declared) (found : m.nodes id = some node)
    (grouped : node.agent.groups ≠ []) (known : (m.groups gid).isSome)
    (fresh : (id, gid) ∉ declared) :
    ∃ m', m.add gid (.inGraph id) = some m' ∧
      Settled m' state (Insert.insert (id, gid) declared) ∧ Regrouped id node [gid] m m' := by
  obtain ⟨group, group_found⟩ := Option.isSome_iff_exists.mp known
  have tasks (other : GroupId) (apart : other ≠ gid) :
      (((node.agent.addGroupId gid).addGroup gid).setTask gid m.nextTask).tasks other =
        node.agent.tasks other := by
    simp [Agent.setTask, Agent.addGroup, Agent.addGroupId, apart]
  by_cases here : node.state = .LOCAL
  next =>
    have ran : ∃ m', m.add gid (.inGraph id) = some m' ∧
        m'.nodes = Function.update m.nodes id (some { node with
          agent := ((node.agent.addGroupId gid).addGroup gid).setTask gid m.nextTask }) ∧
        m'.groups = Function.update m.groups gid (some
          { agents := group.agents ++ [id]
            agentExecutionJob := group.agentExecutionJob ++ [m.nextTask] }) ∧
        m'.removedNodes = m.removedNodes := by
      simp [Model.add, Model.insert, Model.schedule, Model.setNode, Model.setGroup, Model.takeTask,
        Agent.setTask, found, grouped, group_found, here]
    obtain ⟨m', ran, nodes, groups, removedNodes⟩ := ran
    exact ⟨m', ran, all.add fresh ran, .of_updates known nodes tasks groups removedNodes⟩
  next =>
    have ran : ∃ m', m.add gid (.inGraph id) = some m' ∧
        m'.nodes = Function.update m.nodes id (some { node with
          agent := ((node.agent.addGroupId gid).addGroup gid).setTask gid m.nextTask }) ∧
        m'.groups = Function.update m.groups gid
          (some { group with agents := group.agents ++ [id] }) ∧
        m'.removedNodes = m.removedNodes := by
      simp [Model.add, Model.insert, Model.setNode, Model.setGroup, Model.takeTask, found, grouped,
        group_found, here]
    obtain ⟨m', ran, nodes, groups, removedNodes⟩ := ran
    exact ⟨m', ran, all.add fresh ran, .of_updates known nodes tasks groups removedNodes⟩

-- An agent is removed from any of its groups, and its node stays where it is in another one.
theorem remove_returns {other : GroupId} (all : Settled m state declared)
    (found : m.nodes id = some node) (declares : (id, gid) ∈ declared) (apart : other ≠ gid)
    (remains : (id, other) ∈ declared) :
    ∃ m', m.remove gid id = some m' ∧ Settled m' state (declared \ {(id, gid)}) ∧
      Regrouped id node [gid] m m' := by
  have listed : id ∈ m.agentsOf gid := (all.agents id gid).mpr declares
  have in_group : gid ∈ node.agent.groups := (all.groups_found found gid).mpr declares
  have in_ids : gid ∈ node.agent.groupIds := (all.groupIds_found found gid).mpr declares
  obtain ⟨task, runs⟩ := Option.isSome_iff_exists.mp ((all.tasks id gid).mpr declares)
  rw [← Model.taskOf_found found] at runs
  obtain ⟨group, group_found⟩ : ∃ group, m.groups gid = some group := by
    cases absent : m.groups gid with
    | none => simp [Model.agentsOf, absent] at listed
    | some group => exact ⟨group, rfl⟩
  rw [← Model.agentsOf_found group_found] at listed
  have left : node.agent.groups.eraseRemoved gid ≠ [] := by
    intro none_left
    have once : node.agent.groups.Nodup := Model.groupsOf_found found ▸ all.groups_once id
    have here : other ∈ node.agent.groups.eraseRemoved gid :=
      (once.mem_eraseRemoved gid other).mpr ⟨(all.groups_found found other).mpr remains, apart⟩
    rw [none_left] at here
    exact List.not_mem_nil here
  let agent : Agent :=
    { groupIds := node.agent.groupIds.eraseRemoved gid
      groups := node.agent.groups.eraseRemoved gid
      tasks := Function.update node.agent.tasks gid none }
  have tasks (other : GroupId) (apart : other ≠ gid) :
      agent.tasks other = node.agent.tasks other := Function.update_of_ne apart _ _
  by_cases here : node.state = .LOCAL
  next =>
    have ran : ∃ m', m.remove gid id = some m' ∧
        m'.nodes = Function.update m.nodes id (some { node with agent }) ∧
        m'.groups = Function.update m.groups gid (some
          { agents := group.agents.eraseRemoved id
            agentExecutionJob := group.agentExecutionJob.eraseRemoved task }) ∧
        m'.removedNodes = m.removedNodes := by
      simp [Model.remove, Model.leave, Model.unschedule, Model.erase, Model.setNode, Model.setGroup,
        Agent.removeGroup, Agent.removeGroupId, found, group_found, runs, listed, in_group, in_ids,
        here, left, agent]
    obtain ⟨m', ran, nodes, groups, removedNodes⟩ := ran
    exact ⟨m', ran, all.remove ran, .of_updates (by simp [group_found]) nodes tasks groups removedNodes⟩
  next =>
    have ran : ∃ m', m.remove gid id = some m' ∧
        m'.nodes = Function.update m.nodes id (some { node with agent }) ∧
        m'.groups = Function.update m.groups gid
          (some { group with agents := group.agents.eraseRemoved id }) ∧
        m'.removedNodes = m.removedNodes := by
      simp [Model.remove, Model.leave, Model.erase, Model.setNode, Model.setGroup,
        Agent.removeGroup, Agent.removeGroupId, found, group_found, runs, listed, in_group, in_ids,
        here, agent]
    obtain ⟨m', ran, nodes, groups, removedNodes⟩ := ran
    exact ⟨m', ran, all.remove ran, .of_updates (by simp [group_found]) nodes tasks groups removedNodes⟩

theorem addAll_returns {gids : List GroupId} (all : Settled m state declared)
    (found : m.nodes id = some node) (grouped : node.agent.groups ≠ []) (once : gids.Nodup)
    (known : ∀ gid ∈ gids, (m.groups gid).isSome) (fresh : ∀ gid ∈ gids, (id, gid) ∉ declared) :
    ∃ m', gids.foldlM (fun m gid => m.add gid (.inGraph id)) m = some m' ∧
      Settled m' state (declared ∪ pairs id gids) ∧ Regrouped id node gids m m' := by
  obtain ⟨old, was_in⟩ := List.exists_mem_of_ne_nil _ grouped
  have declares : (id, old) ∈ declared := (all.groups_found found old).mp was_in
  refine List.foldlM_returns
    (motive := fun done m' => Settled m' state (declared ∪ pairs id done) ∧
      Regrouped id node done m m')
    ⟨by simpa [pairs] using all, .refl found⟩ ?_
  intro done gid rest m' split before
  obtain ⟨unmet, listed⟩ := Represents.not_done once split
  obtain ⟨agent, here⟩ := before.2.found
  -- The agent is still in the group it was in before the loop.
  have in_group : agent.groups ≠ [] :=
    List.ne_nil_of_mem ((before.1.groups_found here old).mpr (.inl declares))
  obtain ⟨next, added, after, changed⟩ := before.1.add_returns here in_group
    ((before.2.known gid).trans (known gid listed)) (by simp [fresh gid listed, unmet])
  refine ⟨next, added, ?_, before.2.trans here changed⟩
  rwa [Represents.pairs_concat, Set.union_insert]

theorem removeAll_returns {gids : List GroupId} {kept : GroupId} (all : Settled m state declared)
    (found : m.nodes id = some node) (once : gids.Nodup)
    (declares : ∀ gid ∈ gids, (id, gid) ∈ declared) (remains : (id, kept) ∈ declared)
    (apart : kept ∉ gids) :
    ∃ m', gids.foldlM (fun m gid => m.remove gid id) m = some m' ∧
      Settled m' state (declared \ pairs id gids) ∧ Regrouped id node gids m m' := by
  refine List.foldlM_returns
    (motive := fun done m' => Settled m' state (declared \ pairs id done) ∧
      Regrouped id node done m m')
    ⟨by simpa [pairs] using all, .refl found⟩ ?_
  intro done gid rest m' split before
  obtain ⟨unmet, listed⟩ := Represents.not_done once split
  obtain ⟨agent, here⟩ := before.2.found
  have not_done : kept ∉ done := fun met => apart (by simp [split, met])
  have still : (id, gid) ∈ declared \ pairs id done := ⟨declares gid listed, by simp [unmet]⟩
  have kept_still : (id, kept) ∈ declared \ pairs id done := ⟨remains, by simp [not_done]⟩
  have other_group : kept ≠ gid := ne_of_mem_of_not_mem listed apart |>.symm
  obtain ⟨next, removed, after, changed⟩ := before.1.remove_returns here still other_group kept_still
  refine ⟨next, removed, ?_, before.2.trans here changed⟩
  rwa [Represents.sdiff_pairs_concat]

end Settled

theorem newGroups_once (gids gids' : List GroupId) : (newGroups gids gids').Nodup :=
  Finset.sort_nodup _ _

@[simp] theorem mem_newGroups {gids gids' : List GroupId} {gid : GroupId} :
    gid ∈ newGroups gids gids' ↔ gid ∈ gids' ∧ gid ∉ gids := by
  simp [newGroups]

theorem Settled.moveAssign_returns {m : Model n} {id : Id n} {node : AgentNode}
    {gids : List GroupId} {state : Id n → Option LocationState} {declared : Set (Id n × GroupId)}
    (all : Settled m state declared) (found : m.nodes id = some node)
    (grouped : node.agent.groups ≠ []) (some_group : gids ≠ []) (once : gids.Nodup)
    (known : ∀ gid ∈ gids, (m.groups gid).isSome) :
    ∃ m', m.moveAssign id (.ofGroupIds gids) = some m' ∧
      Settled m' state ({pair | pair ∈ declared ∧ pair.1 ≠ id} ∪ pairs id gids) ∧
      Regrouped id node
        (newGroups node.agent.groupIds gids ++ newGroups gids node.agent.groupIds) m m' := by
  have declares := all.groupIds_found found
  obtain ⟨kept, in_update⟩ := List.exists_mem_of_ne_nil _ some_group
  obtain ⟨middle, added, after, changed⟩ := all.addAll_returns found grouped
    (newGroups_once node.agent.groupIds gids) (fun gid new => known gid (mem_newGroups.mp new).1)
    (fun gid new => mt (declares gid).mpr (mem_newGroups.mp new).2)
  obtain ⟨agent, here⟩ := changed.found
  -- No obsolete group is the last one of the agent: all the new ones are there already.
  have remains : (id, kept) ∈ declared ∪ pairs id (newGroups node.agent.groupIds gids) := by
    by_cases old : kept ∈ node.agent.groupIds
    next => exact .inl ((declares kept).mp old)
    next => exact .inr ⟨rfl, mem_newGroups.mpr ⟨in_update, old⟩⟩
  obtain ⟨m', removed, -, changed'⟩ := after.removeAll_returns here
    (newGroups_once gids node.agent.groupIds)
    (fun gid old => .inl ((declares gid).mp (mem_newGroups.mp old).1)) remains
    (fun old => (mem_newGroups.mp old).2 in_update)
  have ran : m.moveAssign id (.ofGroupIds gids) = some m' := by
    have same : m.setNode id node = m := by simp [Model.setNode, ← found]
    unfold Model.moveAssign
    rw [found]
    dsimp only [Option.bind_eq_bind, Option.bind_some]
    rw [node.agent.assign_ofGroupIds once, Option.bind_some, same]
    exact Option.bind_eq_some_iff.mpr ⟨middle, added, removed⟩
  exact ⟨m', ran, all.moveAssign once ran, changed.trans here changed'⟩

end Fpmas.Model
