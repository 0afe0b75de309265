import Mathlib.Data.Set.Lattice
import Fpmas.Library.TransitionSystem
import Fpmas.Model.Membership

set_option autoImplicit false

namespace Fpmas.Model

open Fpmas.Graph (LocationState Id)

variable {n : Nat}

namespace View

def pairs (id : Id n) (gids : List GroupId) : Set (Id n × GroupId) :=
  {pair | pair.1 = id ∧ pair.2 ∈ gids}

@[simp] theorem mem_pairs {id other : Id n} {gids : List GroupId} {gid : GroupId} :
    (other, gid) ∈ pairs id gids ↔ other = id ∧ gid ∈ gids := Iff.rfl

-- Between two calls the agents are in the groups they declare, and the LOCAL ones are scheduled.
def settled (state : Id n → Option LocationState) (declared : Set (Id n × GroupId)) : View n where
  state
  declared
  member := declared
  scheduled := {pair | pair ∈ declared ∧ state pair.1 = some .LOCAL}

end View

open View

namespace Represents

variable {m m' : Model n} {v : View n} {id : Id n} {gid : GroupId} {gids : List GroupId}

theorem absent_groupIds (rep : Represents m v) (absent : m.nodes id = none) :
    (id, gid) ∉ v.declared := by
  rw [← rep.declared]
  simp [Model.groupIdsOf, absent]

theorem absent_groups (rep : Represents m v) (absent : m.nodes id = none) :
    (id, gid) ∉ v.member := by
  rw [← rep.groups]
  simp [Model.groupsOf, absent]

-- The group of a turn of a loop has not been met before.
theorem not_done {done rest : List GroupId} (once : gids.Nodup) (split : gids = done ++ gid :: rest) :
    gid ∉ done ∧ gid ∈ gids := by
  subst split
  refine ⟨fun met => ?_, by simp⟩
  exact (List.nodup_append.mp once).2.2 gid met gid List.mem_cons_self rfl

theorem pairs_concat (done : List GroupId) :
    pairs id (done ++ [gid]) = Insert.insert (id, gid) (pairs id done) := by
  ext ⟨other, g⟩
  simp only [mem_pairs, List.mem_append, List.mem_singleton, Set.mem_insert_iff, Prod.mk.injEq]
  tauto

theorem sdiff_pairs_concat (s : Set (Id n × GroupId)) (done : List GroupId) :
    s \ pairs id (done ++ [gid]) = (s \ pairs id done) \ {(id, gid)} := by
  rw [pairs_concat, Set.insert_eq, Set.union_comm, sdiff_sdiff]
  rfl

theorem insertAll (rep : Represents m v) (once : gids.Nodup)
    (fresh : ∀ gid ∈ gids, (id, gid) ∉ v.member) (idle : ∀ gid ∈ gids, (id, gid) ∉ v.scheduled)
    (ran : gids.foldlM (fun m gid => m.insert gid id) m = some m') :
    Represents m' { v with member := v.member ∪ pairs id gids } := by
  refine List.foldlM_done
    (motive := fun done m => Represents m { v with member := v.member ∪ pairs id done })
    ?_ (fun done gid rest m m' split rep ran => ?_) ran
  · simpa [pairs] using rep
  · obtain ⟨unmet, listed⟩ := not_done once split
    have inserted := rep.insert (by simp [fresh gid listed, unmet])
      (idle gid listed) ran
    simpa [pairs_concat, Set.union_insert] using inserted

theorem scheduleAll (rep : Represents m v) (once : gids.Nodup)
    (idle : ∀ gid ∈ gids, (id, gid) ∉ v.scheduled)
    (ran : gids.foldlM (fun m gid => m.schedule gid id) m = some m') :
    Represents m' { v with scheduled := v.scheduled ∪ pairs id gids } := by
  refine List.foldlM_done
    (motive := fun done m => Represents m { v with scheduled := v.scheduled ∪ pairs id done })
    ?_ (fun done gid rest m m' split rep ran => ?_) ran
  · simpa [pairs] using rep
  · obtain ⟨unmet, listed⟩ := not_done once split
    have scheduled := rep.schedule (by simp [idle gid listed, unmet]) ran
    simpa [pairs_concat, Set.union_insert] using scheduled

theorem unscheduleAll (rep : Represents m v)
    (ran : gids.foldlM (fun m gid => m.unschedule gid id) m = some m') :
    Represents m' { v with scheduled := v.scheduled \ pairs id gids } := by
  refine List.foldlM_done
    (motive := fun done m => Represents m { v with scheduled := v.scheduled \ pairs id done })
    ?_ (fun done gid rest m m' _ rep ran => ?_) ran
  · simpa [pairs] using rep
  · have unscheduled := rep.unschedule ran
    rwa [sdiff_pairs_concat]

theorem leave {state : LocationState} (rep : Represents m v)
    (idle : state ≠ .LOCAL → (id, gid) ∉ v.scheduled)
    (ran : m.leave state gid id = some m') :
    Represents m' { v with
      declared := v.declared \ {(id, gid)}
      member := v.member \ {(id, gid)}
      scheduled := v.scheduled \ {(id, gid)} } := by
  unfold Model.leave at ran
  split at ran
  next =>
    obtain ⟨middle, unscheduled, erased⟩ := Option.bind_eq_some_iff.mp ran
    exact (rep.unschedule unscheduled).erase (by simp) erased
  next distant =>
    have same : v.scheduled \ {(id, gid)} = v.scheduled :=
      Set.sdiff_singleton_eq_self (idle distant)
    rw [same]
    exact rep.erase (idle distant) ran

theorem leaveAll {state : LocationState} (rep : Represents m v)
    (idle : state ≠ .LOCAL → ∀ gid ∈ gids, (id, gid) ∉ v.scheduled)
    (ran : gids.foldlM (fun m gid => m.leave state gid id) m = some m') :
    Represents m' { v with
      declared := v.declared \ pairs id gids
      member := v.member \ pairs id gids
      scheduled := v.scheduled \ pairs id gids } := by
  refine List.foldlM_done
    (motive := fun done m => Represents m { v with
      declared := v.declared \ pairs id done
      member := v.member \ pairs id done
      scheduled := v.scheduled \ pairs id done })
    ?_ (fun done gid rest m m' split rep ran => ?_) ran
  · simpa [pairs] using rep
  · have left := rep.leave
      (fun distant running => idle distant gid (by simp [split]) running.1) ran
    simpa only [sdiff_pairs_concat] using left

-- A node may change its state and what its agent declares, or come and go, outside of the groups and of
-- their jobs.
theorem renode {state : Id n → Option LocationState} {declared : Set (Id n × GroupId)}
    (rep : Represents m v) (kept : m'.groups = m.groups) (next : m'.nextTask = m.nextTask)
    (groups : m'.groupsOf = m.groupsOf) (tasks : m'.taskOf = m.taskOf)
    (states : ∀ id, m'.stateOf id = state id) (declared_once : ∀ id, (m'.groupIdsOf id).Nodup)
    (declares : ∀ id gid, gid ∈ m'.groupIdsOf id ↔ (id, gid) ∈ declared) :
    Represents m' { v with state, declared } := by
  have agents : m'.agentsOf = m.agentsOf := by
    funext gid
    simp [Model.agentsOf, kept]
  have jobs : m'.jobOf = m.jobOf := by
    funext gid
    simp [Model.jobOf, kept]
  exact {
    state := states
    declared_once
    declared := declares
    groups_once := by rw [groups]; exact rep.groups_once
    groups := by rw [groups]; exact rep.groups
    tasks := by rw [tasks]; exact rep.tasks
    agents_once := by rw [agents]; exact rep.agents_once
    agents := by rw [agents]; exact rep.agents
    older := by rw [tasks, next]; exact rep.older
    own := by rw [tasks]; exact rep.own
    job_once := by rw [jobs]; exact rep.job_once
    job := by rw [jobs, tasks]; exact rep.job }

theorem setState {node : AgentNode} (rep : Represents m v) (found : m.nodes id = some node)
    (state : LocationState) :
    Represents (m.setNode id { node with state })
      { v with state := Function.update v.state id (some state) } := by
  refine rep.renode rfl rfl ?_ ?_ (fun other => ?_) (fun other => ?_) (fun other gid => ?_)
  · simp [Model.groupsOf_found found]
  · simp [Model.taskOf_found found]
  · by_cases same : other = id <;> simp [same, rep.state]
  · simpa [Model.groupIdsOf_found found] using rep.declared_once other
  · simpa [Model.groupIdsOf_found found] using rep.declared other gid

theorem newNode (rep : Represents m v) (absent : m.nodes id = none) (once : gids.Nodup) :
    Represents (m.setNode id { state := .LOCAL, agent := .ofGroupIds gids })
      { v with
        state := Function.update v.state id (some .LOCAL)
        declared := v.declared ∪ pairs id gids } := by
  have no_groups : [] = m.groupsOf id := by simp [Model.groupsOf, absent]
  have no_task : (fun _ => none) = m.taskOf id := by
    funext gid
    simp [Model.taskOf, absent]
  refine rep.renode rfl rfl ?_ ?_ (fun other => ?_) (fun other => ?_) (fun other gid => ?_)
  · simp [Agent.ofGroupIds, no_groups]
  · simp [Agent.ofGroupIds, no_task]
  · by_cases same : other = id <;> simp [same, rep.state]
  · by_cases same : other = id
    next => simpa [same, Agent.ofGroupIds] using once
    next => simpa [same] using rep.declared_once other
  · by_cases same : other = id
    next =>
      subst same
      simp [Agent.ofGroupIds, rep.absent_groupIds absent]
    next => simp [same, rep.declared]

theorem declare {node : AgentNode} (rep : Represents m v) (found : m.nodes id = some node)
    (fresh : (id, gid) ∉ v.declared) :
    Represents (m.setNode id { node with agent := node.agent.addGroupId gid })
      { v with declared := Insert.insert (id, gid) v.declared } := by
  have undeclared := mt (rep.declared id gid).mp fresh
  refine rep.renode rfl rfl ?_ ?_ (fun other => ?_) (fun other => ?_) (fun other g => ?_)
  · simp [Agent.addGroupId, Model.groupsOf_found found]
  · simp [Agent.addGroupId, Model.taskOf_found found]
  · by_cases same : other = id <;> simp [same, rep.state, Model.stateOf_found found]
  · by_cases same : other = id
    next =>
      subst same
      have once := (rep.declared_once other).concat undeclared
      simpa [Agent.addGroupId, Model.groupIdsOf_found found] using once
    next => simpa [same] using rep.declared_once other
  · by_cases same : other = id
    next =>
      subst same
      simp [Agent.addGroupId, Model.groupIdsOf_found found, rep.declared, or_comm]
    next => simp [same, rep.declared]

theorem removeNode (rep : Represents m v) (no_ids : ∀ gid, (id, gid) ∉ v.declared)
    (no_groups : ∀ gid, (id, gid) ∉ v.member) :
    Represents { m with nodes := Function.update m.nodes id none }
      { v with state := Function.update v.state id none } := by
  have groupIds : m.groupIdsOf id = [] :=
    List.eq_nil_iff_forall_not_mem.mpr fun gid declared =>
      no_ids gid ((rep.declared id gid).mp declared)
  have groups : m.groupsOf id = [] :=
    List.eq_nil_iff_forall_not_mem.mpr fun gid member => no_groups gid ((rep.groups id gid).mp member)
  have tasks (gid : GroupId) : m.taskOf id gid = none :=
    Option.not_isSome_iff_eq_none.mp (mt (rep.tasks id gid).mp (no_groups gid))
  have same_ids : Model.groupIdsOf { m with nodes := Function.update m.nodes id none } =
      m.groupIdsOf := by
    funext other
    by_cases same : other = id
    next =>
      rw [same, groupIds]
      simp [Model.groupIdsOf]
    next => simp [same, Model.groupIdsOf]
  refine rep.renode rfl rfl ?_ ?_ (fun other => ?_) ?_ ?_
  · funext other
    by_cases same : other = id
    next =>
      rw [same, groups]
      simp [Model.groupsOf]
    next => simp [same, Model.groupsOf]
  · funext other gid
    by_cases same : other = id
    next =>
      rw [same, tasks]
      simp [Model.taskOf]
    next => simp [same, Model.taskOf]
  · by_cases same : other = id
    next => simp [same, Model.stateOf]
    next => simpa [same, Model.stateOf] using rep.state other
  · rw [same_ids]
    exact rep.declared_once
  · rw [same_ids]
    exact rep.declared

section Callbacks

variable {state : Id n → Option LocationState} {declared scheduled : Set (Id n × GroupId)}

theorem insertNode (rep : Represents m { state, declared, member := declared, scheduled })
    (absent : m.nodes id = none) (once : gids.Nodup) (idle : ∀ gid, (id, gid) ∉ scheduled)
    (ran : m.insertNode id (.ofGroupIds gids) = some m') :
    Represents m'
      { state := Function.update state id (some .LOCAL)
        declared := declared ∪ pairs id gids
        member := declared ∪ pairs id gids
        scheduled } := by
  obtain ⟨node, found, ran⟩ := Option.bind_eq_some_iff.mp ran
  simp only [Model.setNode, Function.update_self, Option.some.injEq] at found
  subst found
  exact (rep.newNode absent once).insertAll once (fun gid _ => rep.absent_groups absent)
    (fun gid _ => idle gid) ran

theorem setLocal (rep : Represents m { state, declared, member := declared, scheduled })
    (idle : ∀ gid, (id, gid) ∉ scheduled) (ran : m.setLocal id = some m') :
    Represents m'
      { state := Function.update state id (some .LOCAL)
        declared
        member := declared
        scheduled := scheduled ∪ {pair | pair ∈ declared ∧ pair.1 = id} } := by
  obtain ⟨node, found, ran⟩ := Option.bind_eq_some_iff.mp ran
  obtain ⟨node', found', ran⟩ := Option.bind_eq_some_iff.mp ran
  simp only [Model.setNode, Function.update_self, Option.some.injEq] at found'
  subst found'
  have groups (gid : GroupId) : gid ∈ node.agent.groups ↔ (id, gid) ∈ declared := by
    rw [Model.groupsOf_found found]
    exact rep.groups id gid
  have once : node.agent.groups.Nodup := by
    rw [Model.groupsOf_found found]
    exact rep.groups_once id
  have same : pairs id node.agent.groups = {pair | pair ∈ declared ∧ pair.1 = id} := by
    ext ⟨other, gid⟩
    simp only [mem_pairs, groups, Set.mem_ofPred_eq]
    constructor <;> rintro ⟨h, h'⟩ <;> simp_all
  rw [← same]
  exact (rep.setState found .LOCAL).scheduleAll once (fun gid _ => idle gid) ran

theorem setDistant (rep : Represents m { state, declared, member := declared, scheduled })
    (within : scheduled ⊆ declared) (ran : m.setDistant id = some m') :
    Represents m'
      { state := Function.update state id (some .DISTANT)
        declared
        member := declared
        scheduled := {pair | pair ∈ scheduled ∧ pair.1 ≠ id} } := by
  obtain ⟨node, found, ran⟩ := Option.bind_eq_some_iff.mp ran
  obtain ⟨node', found', ran⟩ := Option.bind_eq_some_iff.mp ran
  simp only [Model.setNode, Function.update_self, Option.some.injEq] at found'
  subst found'
  have groups (gid : GroupId) : gid ∈ node.agent.groups ↔ (id, gid) ∈ declared := by
    rw [Model.groupsOf_found found]
    exact rep.groups id gid
  have same : scheduled \ pairs id node.agent.groups = {pair | pair ∈ scheduled ∧ pair.1 ≠ id} := by
    ext ⟨other, gid⟩
    simp only [Set.mem_sdiff, mem_pairs, groups, Set.mem_ofPred_eq, not_and]
    refine and_congr_right fun running => ⟨fun absent here => ?_, fun apart here => absurd here apart⟩
    exact absent here (here ▸ within running)
  rw [← same]
  exact (rep.setState found .DISTANT).unscheduleAll ran

end Callbacks

end Represents

end Fpmas.Model
