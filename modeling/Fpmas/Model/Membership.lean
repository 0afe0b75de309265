import Mathlib.Data.Set.Insert
import Fpmas.Model.AgentGroup

set_option autoImplicit false
set_option linter.dupNamespace false

namespace Fpmas.Model

open Fpmas.Graph (LocationState Id)

variable {n : Nat}

namespace Model

def stateOf (m : Model n) (id : Id n) : Option LocationState := (m.nodes id).map (·.state)

def groupIdsOf (m : Model n) (id : Id n) : List GroupId :=
  ((m.nodes id).map (·.agent.groupIds)).getD []

def groupsOf (m : Model n) (id : Id n) : List GroupId :=
  ((m.nodes id).map (·.agent.groups)).getD []

def taskOf (m : Model n) (id : Id n) (gid : GroupId) : Option Task :=
  (m.nodes id).bind (·.agent.tasks gid)

def agentsOf (m : Model n) (gid : GroupId) : List (Id n) :=
  ((m.groups gid).map (·.agents)).getD []

def jobOf (m : Model n) (gid : GroupId) : List Task :=
  ((m.groups gid).map (·.agentExecutionJob)).getD []

section Accessors

variable {m : Model n} {id : Id n} {node : AgentNode} {gid : GroupId} {group : AgentGroup n}

@[simp] theorem stateOf_setNode :
    (m.setNode id node).stateOf = Function.update m.stateOf id (some node.state) := by
  funext other
  by_cases same : other = id <;> simp [stateOf, setNode, same]

@[simp] theorem groupIdsOf_setNode :
    (m.setNode id node).groupIdsOf = Function.update m.groupIdsOf id node.agent.groupIds := by
  funext other
  by_cases same : other = id <;> simp [groupIdsOf, setNode, same]

@[simp] theorem groupsOf_setNode :
    (m.setNode id node).groupsOf = Function.update m.groupsOf id node.agent.groups := by
  funext other
  by_cases same : other = id <;> simp [groupsOf, setNode, same]

@[simp] theorem taskOf_setNode :
    (m.setNode id node).taskOf = Function.update m.taskOf id node.agent.tasks := by
  funext other
  by_cases same : other = id
  next =>
    subst same
    funext gid
    simp [taskOf, setNode]
  next => funext gid; simp [taskOf, setNode, same]

@[simp] theorem agentsOf_setGroup :
    (m.setGroup gid group).agentsOf = Function.update m.agentsOf gid group.agents := by
  funext other
  by_cases same : other = gid <;> simp [agentsOf, setGroup, same]

@[simp] theorem jobOf_setGroup :
    (m.setGroup gid group).jobOf = Function.update m.jobOf gid group.agentExecutionJob := by
  funext other
  by_cases same : other = gid <;> simp [jobOf, setGroup, same]

@[simp] theorem stateOf_setGroup : (m.setGroup gid group).stateOf = m.stateOf := rfl
@[simp] theorem groupIdsOf_setGroup : (m.setGroup gid group).groupIdsOf = m.groupIdsOf := rfl
@[simp] theorem groupsOf_setGroup : (m.setGroup gid group).groupsOf = m.groupsOf := rfl
@[simp] theorem taskOf_setGroup : (m.setGroup gid group).taskOf = m.taskOf := rfl
@[simp] theorem agentsOf_setNode : (m.setNode id node).agentsOf = m.agentsOf := rfl
@[simp] theorem jobOf_setNode : (m.setNode id node).jobOf = m.jobOf := rfl
@[simp] theorem stateOf_takeTask : m.takeTask.stateOf = m.stateOf := rfl
@[simp] theorem groupIdsOf_takeTask : m.takeTask.groupIdsOf = m.groupIdsOf := rfl
@[simp] theorem groupsOf_takeTask : m.takeTask.groupsOf = m.groupsOf := rfl
@[simp] theorem taskOf_takeTask : m.takeTask.taskOf = m.taskOf := rfl
@[simp] theorem agentsOf_takeTask : m.takeTask.agentsOf = m.agentsOf := rfl
@[simp] theorem jobOf_takeTask : m.takeTask.jobOf = m.jobOf := rfl

theorem stateOf_found (found : m.nodes id = some node) : some node.state = m.stateOf id := by
  simp [stateOf, found]

theorem groupIdsOf_found (found : m.nodes id = some node) :
    node.agent.groupIds = m.groupIdsOf id := by simp [groupIdsOf, found]

theorem groupsOf_found (found : m.nodes id = some node) :
    node.agent.groups = m.groupsOf id := by simp [groupsOf, found]

theorem taskOf_found (found : m.nodes id = some node) : node.agent.tasks = m.taskOf id := by
  funext gid
  simp [taskOf, found]

theorem agentsOf_found (found : m.groups gid = some group) :
    group.agents = m.agentsOf gid := by simp [agentsOf, found]

theorem jobOf_found (found : m.groups gid = some group) :
    group.agentExecutionJob = m.jobOf gid := by simp [jobOf, found]

end Accessors

-- What one call of each function of a group does, when it returns.
section Calls

variable {m m' : Model n} {id : Id n} {gid : GroupId}

theorem insert_cases (ran : m.insert gid id = some m') :
    m'.stateOf = m.stateOf ∧ m'.groupIdsOf = m.groupIdsOf ∧
      m'.groupsOf = Function.update m.groupsOf id (m.groupsOf id ++ [gid]) ∧
      m'.taskOf = Function.update m.taskOf id
        (Function.update (m.taskOf id) gid (some m.nextTask)) ∧
      m'.agentsOf = Function.update m.agentsOf gid (m.agentsOf gid ++ [id]) ∧
      m'.jobOf = m.jobOf ∧ m'.nextTask = m.nextTask + 1 := by
  obtain ⟨group, group_found, ran⟩ := Option.bind_eq_some_iff.mp ran
  obtain ⟨node, node_found, ran⟩ := Option.bind_eq_some_iff.mp ran
  cases ran
  refine ⟨?_, ?_, ?_, ?_, ?_, ?_, rfl⟩ <;>
    simp [Agent.setTask, Agent.addGroup, stateOf_found node_found, groupIdsOf_found node_found,
      groupsOf_found node_found, taskOf_found node_found, agentsOf_found group_found,
      jobOf_found group_found]

theorem erase_cases (ran : m.erase gid id = some m') :
    (id ∈ m.agentsOf gid ∧ gid ∈ m.groupsOf id ∧ gid ∈ m.groupIdsOf id) ∧
      m'.stateOf = m.stateOf ∧
      m'.groupIdsOf = Function.update m.groupIdsOf id ((m.groupIdsOf id).eraseRemoved gid) ∧
      m'.groupsOf = Function.update m.groupsOf id ((m.groupsOf id).eraseRemoved gid) ∧
      m'.taskOf = Function.update m.taskOf id (Function.update (m.taskOf id) gid none) ∧
      m'.agentsOf = Function.update m.agentsOf gid ((m.agentsOf gid).eraseRemoved id) ∧
      m'.jobOf = m.jobOf ∧ m'.nextTask = m.nextTask := by
  obtain ⟨group, group_found, ran⟩ := Option.bind_eq_some_iff.mp ran
  obtain ⟨node, node_found, ran⟩ := Option.bind_eq_some_iff.mp ran
  split at ran
  next => cases ran
  next listed =>
    obtain ⟨task, task_found, ran⟩ := Option.bind_eq_some_iff.mp ran
    obtain ⟨left, left_group, ran⟩ := Option.bind_eq_some_iff.mp ran
    obtain ⟨agent, left_id, ran⟩ := Option.bind_eq_some_iff.mp ran
    cases ran
    obtain ⟨in_group, same⟩ := Option.ite_none_right_eq_some.mp left_group
    cases same
    obtain ⟨in_ids, same⟩ := Option.ite_none_right_eq_some.mp left_id
    cases same
    rw [Classical.not_not, agentsOf_found group_found] at listed
    rw [groupsOf_found node_found] at in_group
    refine ⟨⟨listed, in_group, groupIdsOf_found node_found ▸ in_ids⟩, ?_, ?_, ?_, ?_, ?_, ?_, rfl⟩ <;>
      simp [stateOf_found node_found, groupIdsOf_found node_found, groupsOf_found node_found,
        taskOf_found node_found, agentsOf_found group_found, jobOf_found group_found]

theorem schedule_cases (ran : m.schedule gid id = some m') :
    ∃ task, m.taskOf id gid = some task ∧
      m' = { m with groups := m'.groups } ∧ m'.agentsOf = m.agentsOf ∧
      m'.jobOf = Function.update m.jobOf gid (m.jobOf gid ++ [task]) := by
  obtain ⟨group, group_found, ran⟩ := Option.bind_eq_some_iff.mp ran
  obtain ⟨node, node_found, ran⟩ := Option.bind_eq_some_iff.mp ran
  obtain ⟨task, task_found, ran⟩ := Option.bind_eq_some_iff.mp ran
  cases ran
  refine ⟨task, taskOf_found node_found ▸ task_found, rfl, ?_, ?_⟩ <;>
    simp [agentsOf_found group_found, jobOf_found group_found]

theorem unschedule_cases (ran : m.unschedule gid id = some m') :
    ∃ task, m.taskOf id gid = some task ∧
      m' = { m with groups := m'.groups } ∧ m'.agentsOf = m.agentsOf ∧
      m'.jobOf = Function.update m.jobOf gid ((m.jobOf gid).eraseRemoved task) := by
  obtain ⟨group, group_found, ran⟩ := Option.bind_eq_some_iff.mp ran
  obtain ⟨node, node_found, ran⟩ := Option.bind_eq_some_iff.mp ran
  obtain ⟨task, task_found, ran⟩ := Option.bind_eq_some_iff.mp ran
  cases ran
  refine ⟨task, taskOf_found node_found ▸ task_found, rfl, ?_, ?_⟩ <;>
    simp [agentsOf_found group_found, jobOf_found group_found]

end Calls

end Model

/-- What the lists and maps of a process say: the state of each node, the groups its agent declares,
those it is in, and those that run it. -/
structure View (n : Nat) where
  state : Id n → Option LocationState
  declared : Set (Id n × GroupId)
  member : Set (Id n × GroupId)
  scheduled : Set (Id n × GroupId)

/-- Every list agrees with the view, and no two agents share a task. -/
structure Represents (m : Model n) (v : View n) : Prop where
  state : ∀ id, m.stateOf id = v.state id
  declared_once : ∀ id, (m.groupIdsOf id).Nodup
  declared : ∀ id gid, gid ∈ m.groupIdsOf id ↔ (id, gid) ∈ v.declared
  groups_once : ∀ id, (m.groupsOf id).Nodup
  groups : ∀ id gid, gid ∈ m.groupsOf id ↔ (id, gid) ∈ v.member
  tasks : ∀ id gid, (m.taskOf id gid).isSome ↔ (id, gid) ∈ v.member
  agents_once : ∀ gid, (m.agentsOf gid).Nodup
  agents : ∀ id gid, id ∈ m.agentsOf gid ↔ (id, gid) ∈ v.member
  older : ∀ id gid task, m.taskOf id gid = some task → task < m.nextTask
  own : ∀ id gid id' gid' task, m.taskOf id gid = some task → m.taskOf id' gid' = some task →
    id = id' ∧ gid = gid'
  job_once : ∀ gid, (m.jobOf gid).Nodup
  job : ∀ gid task, task ∈ m.jobOf gid ↔ ∃ id, (id, gid) ∈ v.scheduled ∧
    m.taskOf id gid = some task

namespace Represents

variable {m m' : Model n} {v : View n} {id : Id n} {gid : GroupId}

theorem insert (rep : Represents m v) (fresh : (id, gid) ∉ v.member)
    (idle : (id, gid) ∉ v.scheduled) (ran : m.insert gid id = some m') :
    Represents m' { v with member := Insert.insert (id, gid) v.member } := by
  obtain ⟨state, groupIds, groups, tasks, agents, jobs, next⟩ := Model.insert_cases ran
  have no_task : m.taskOf id gid = none := by
    rw [← Option.not_isSome_iff_eq_none, rep.tasks]
    exact fresh
  have taskOf (other : Id n) (g : GroupId) : m'.taskOf other g =
      if other = id ∧ g = gid then some m.nextTask else m.taskOf other g := by
    rw [tasks]
    by_cases same : other = id
    next =>
      subst same
      by_cases here : g = gid <;> simp [here]
    next => simp [same]
  have groupsOf (other : Id n) (g : GroupId) :
      g ∈ m'.groupsOf other ↔ g ∈ m.groupsOf other ∨ other = id ∧ g = gid := by
    rw [groups]
    by_cases same : other = id
    next =>
      subst same
      simp
    next => simp [same]
  have agentsOf (other : Id n) (g : GroupId) :
      other ∈ m'.agentsOf g ↔ other ∈ m.agentsOf g ∨ other = id ∧ g = gid := by
    rw [agents]
    by_cases same : g = gid
    next =>
      subst same
      simp
    next => simp [same]
  constructor
  case state => simpa [state] using rep.state
  case declared_once => simpa [groupIds] using rep.declared_once
  case declared => simpa [groupIds] using rep.declared
  case groups_once =>
    intro other
    rw [groups]
    by_cases same : other = id
    next =>
      subst same
      have absent := mt (rep.groups other gid).mp fresh
      simpa using (rep.groups_once other).concat absent
    next => simpa [same] using rep.groups_once other
  case groups =>
    intro other g
    rw [groupsOf, rep.groups]
    simp [or_comm]
  case tasks =>
    intro other g
    rw [taskOf]
    split
    next here => simp [here]
    next elsewhere => simp [rep.tasks, elsewhere]
  case agents_once =>
    intro g
    rw [agents]
    by_cases same : g = gid
    next =>
      subst same
      have absent := mt (rep.agents id g).mp fresh
      simpa using (rep.agents_once g).concat absent
    next => simpa [same] using rep.agents_once g
  case agents =>
    intro other g
    rw [agentsOf, rep.agents]
    simp [or_comm]
  case older =>
    intro other g task found
    rw [taskOf] at found
    split at found
    next =>
      cases found
      rw [next]
      exact Nat.lt_succ_self _
    next =>
      rw [next]
      exact Nat.lt_succ_of_lt (rep.older _ _ _ found)
  case own =>
    intro first g second g' task found found'
    rw [taskOf] at found found'
    split at found <;> split at found'
    next here there => exact ⟨here.1.trans there.1.symm, here.2.trans there.2.symm⟩
    next =>
      cases found
      exact absurd (rep.older _ _ _ found') (lt_irrefl _)
    next =>
      cases found'
      exact absurd (rep.older _ _ _ found) (lt_irrefl _)
    next => exact rep.own _ _ _ _ _ found found'
  case job_once => simpa [jobs] using rep.job_once
  case job =>
    intro g task
    rw [jobs, rep.job]
    refine exists_congr fun other => and_congr_right fun running => ?_
    rw [taskOf, if_neg]
    rintro ⟨rfl, rfl⟩
    exact idle running

theorem erase (rep : Represents m v) (idle : (id, gid) ∉ v.scheduled)
    (ran : m.erase gid id = some m') :
    Represents m' { v with
      declared := v.declared \ {(id, gid)}
      member := v.member \ {(id, gid)} } := by
  obtain ⟨_, state, groupIds, groups, tasks, agents, jobs, next⟩ := Model.erase_cases ran
  have taskOf (other : Id n) (g : GroupId) : m'.taskOf other g =
      if other = id ∧ g = gid then none else m.taskOf other g := by
    rw [tasks]
    by_cases same : other = id
    next =>
      subst same
      by_cases here : g = gid <;> simp [here]
    next => simp [same]
  have taskOf_some (other : Id n) (g : GroupId) (task : Task) : m'.taskOf other g = some task →
      m.taskOf other g = some task := by
    rw [taskOf]
    split <;> simp
  constructor
  case state => simpa [state] using rep.state
  case declared_once =>
    intro other
    rw [groupIds]
    by_cases same : other = id
    next => simpa [same] using (rep.declared_once id).eraseRemoved_nodup gid
    next => simpa [same] using rep.declared_once other
  case declared =>
    intro other g
    rw [groupIds]
    by_cases same : other = id
    next =>
      subst same
      simp [(rep.declared_once other).mem_eraseRemoved, rep.declared]
    next => simp [same, rep.declared]
  case groups_once =>
    intro other
    rw [groups]
    by_cases same : other = id
    next => simpa [same] using (rep.groups_once id).eraseRemoved_nodup gid
    next => simpa [same] using rep.groups_once other
  case groups =>
    intro other g
    rw [groups]
    by_cases same : other = id
    next =>
      subst same
      simp [(rep.groups_once other).mem_eraseRemoved, rep.groups]
    next => simp [same, rep.groups]
  case tasks =>
    intro other g
    rw [taskOf]
    split
    next here => simp [here]
    next elsewhere => simp [rep.tasks, elsewhere]
  case agents_once =>
    intro g
    rw [agents]
    by_cases same : g = gid
    next => simpa [same] using (rep.agents_once gid).eraseRemoved_nodup id
    next => simpa [same] using rep.agents_once g
  case agents =>
    intro other g
    rw [agents]
    by_cases same : g = gid
    next =>
      subst same
      simp [(rep.agents_once g).mem_eraseRemoved, rep.agents]
    next => simp [same, rep.agents]
  case older =>
    intro other g task found
    rw [next]
    exact rep.older _ _ _ (taskOf_some _ _ _ found)
  case own =>
    intro first g second g' task found found'
    exact rep.own _ _ _ _ _ (taskOf_some _ _ _ found) (taskOf_some _ _ _ found')
  case job_once => simpa [jobs] using rep.job_once
  case job =>
    intro g task
    rw [jobs, rep.job]
    refine exists_congr fun other => and_congr_right fun running => ?_
    rw [taskOf, if_neg]
    rintro ⟨rfl, rfl⟩
    exact idle running

theorem reschedule {scheduled : Set (Id n × GroupId)} (rep : Represents m v)
    (same : m' = { m with groups := m'.groups }) (agents : m'.agentsOf = m.agentsOf)
    (job_once : ∀ gid, (m'.jobOf gid).Nodup)
    (job : ∀ gid task, task ∈ m'.jobOf gid ↔
      ∃ id, (id, gid) ∈ scheduled ∧ m.taskOf id gid = some task) :
    Represents m' { v with scheduled } where
  state := by rw [same]; exact rep.state
  declared_once := by rw [same]; exact rep.declared_once
  declared := by rw [same]; exact rep.declared
  groups_once := by rw [same]; exact rep.groups_once
  groups := by rw [same]; exact rep.groups
  tasks := by rw [same]; exact rep.tasks
  agents_once := by rw [agents]; exact rep.agents_once
  agents := by rw [agents]; exact rep.agents
  older := by rw [same]; exact rep.older
  own := by rw [same]; exact rep.own
  job_once := job_once
  job := by
    intro gid task
    rw [job, same]
    rfl

theorem schedule (rep : Represents m v) (idle : (id, gid) ∉ v.scheduled)
    (ran : m.schedule gid id = some m') :
    Represents m' { v with scheduled := Insert.insert (id, gid) v.scheduled } := by
  obtain ⟨task, found, same, agents, jobs⟩ := Model.schedule_cases ran
  have absent : task ∉ m.jobOf gid := by
    rw [rep.job]
    rintro ⟨other, running, found'⟩
    obtain ⟨rfl, -⟩ := rep.own _ _ _ _ _ found found'
    exact idle running
  refine rep.reschedule same agents (fun g => ?_) fun g t => ?_
  · rw [jobs]
    by_cases here : g = gid
    next =>
      subst here
      simpa using (rep.job_once g).concat absent
    next => simpa [here] using rep.job_once g
  · rw [jobs]
    by_cases here : g = gid
    next =>
      subst here
      simp only [Function.update_self, List.mem_append, List.mem_singleton, rep.job,
        Set.mem_insert_iff, Prod.mk.injEq, and_true]
      constructor
      next =>
        rintro (⟨other, running, found'⟩ | rfl)
        · exact ⟨other, .inr running, found'⟩
        · exact ⟨id, .inl rfl, found⟩
      next =>
        rintro ⟨other, rfl | running, found'⟩
        · exact .inr (Option.some.inj (found'.symm.trans found))
        · exact .inl ⟨other, running, found'⟩
    next => simp [here, rep.job]

theorem unschedule (rep : Represents m v) (ran : m.unschedule gid id = some m') :
    Represents m' { v with scheduled := v.scheduled \ {(id, gid)} } := by
  obtain ⟨task, found, same, agents, jobs⟩ := Model.unschedule_cases ran
  refine rep.reschedule same agents (fun g => ?_) fun g t => ?_
  · rw [jobs]
    by_cases here : g = gid
    next => simpa [here] using (rep.job_once gid).eraseRemoved_nodup task
    next => simpa [here] using rep.job_once g
  · rw [jobs]
    by_cases here : g = gid
    next =>
      subst here
      simp only [Function.update_self, (rep.job_once g).mem_eraseRemoved, rep.job,
        Set.mem_sdiff, Set.mem_singleton_iff, Prod.mk.injEq, and_true]
      constructor
      next =>
        rintro ⟨⟨other, running, found'⟩, different⟩
        refine ⟨other, ⟨running, ?_⟩, found'⟩
        rintro rfl
        exact different (Option.some.inj (found'.symm.trans found))
      next =>
        rintro ⟨other, ⟨running, different⟩, found'⟩
        refine ⟨⟨other, running, found'⟩, ?_⟩
        rintro rfl
        exact different (rep.own _ _ _ _ _ found' found).1
    next => simp [here, rep.job]

end Represents

end Fpmas.Model
