import Fpmas.Model.SettledGroups

set_option autoImplicit false
set_option linter.dupNamespace false

namespace Fpmas.Model

open Fpmas.Graph (LocationState Id)
open View

variable {n : Nat}

namespace Model

def localAgents (m : Model n) (gid : GroupId) : List (Id n) :=
  (m.agentsOf gid).filter fun id => m.stateOf id = some .LOCAL

def buildGroup (m : Model n) (gid : GroupId) : Model n :=
  if (m.groups gid).isSome then m
  else m.setGroup gid { agents := [], agentExecutionJob := [] }

def removeGroup (m : Model n) (gid : GroupId) : Option (Model n) := do
  let m ← m.clear gid
  some { m with groups := Function.update m.groups gid none }

end Model

/-- What runs on a process; an agent read from a message is given by the ids of its groups. -/
inductive Action (n : Nat) where
  | buildGroup (gid : GroupId)
  | removeGroup (gid : GroupId)
  | add (gid : GroupId) (id : Id n)
  | addNew (gid : GroupId) (id : Id n) (gids : List GroupId)
  | remove (gid : GroupId) (id : Id n)
  | clear (gid : GroupId)
  | buildNode (id : Id n) (gids : List GroupId)
  | insertDistant (id : Id n) (gids : List GroupId)
  | importNode (id : Id n) (gids : List GroupId)
  | setLocal (id : Id n)
  | setDistant (id : Id n)
  | eraseNode (id : Id n)
  | moveAssign (id : Id n) (gids : List GroupId)

def Model.next (m : Model n) : Action n → Option (Model n)
  | .buildGroup gid => some (m.buildGroup gid)
  | .removeGroup gid => m.removeGroup gid
  | .add gid id => m.add gid (.inGraph id)
  | .addNew gid id gids => m.add gid (.outside id (.ofGroupIds gids))
  | .remove gid id => m.remove gid id
  | .clear gid => m.clear gid
  | .buildNode id gids => m.buildNode id (.ofGroupIds gids)
  | .insertDistant id gids => m.insertDistant id (.ofGroupIds gids)
  | .importNode id gids => m.importNode id (.ofGroupIds gids)
  | .setLocal id => m.setLocal id
  | .setDistant id => m.setDistant id
  | .eraseNode id => m.eraseNode id
  | .moveAssign id gids => m.moveAssign id (.ofGroupIds gids)

-- The states of the nodes after an action; only inserting and erasing change which nodes there are.
def Action.stateAfter (state : Id n → Option LocationState) :
    Action n → Id n → Option LocationState
  | .addNew _ id _ | .buildNode id _ | .importNode id _ | .setLocal id =>
    Function.update state id (some .LOCAL)
  | .insertDistant id _ =>
    if (state id).isSome then state else Function.update state id (some .DISTANT)
  | .setDistant id => Function.update state id (some .DISTANT)
  | .eraseNode id => Function.update state id none
  | _ => state

-- No agent is added to a group it declares. A new node gets a new id; a node is imported, or set
-- LOCAL, where it is not LOCAL yet, since a process imports the nodes another one exports.
def Allowed (m : Model n) : Action n → Prop
  | .add gid id => gid ∉ m.groupIdsOf id
  | .addNew gid id gids => m.nodes id = none ∧ (gids ++ [gid]).Nodup
  | .buildNode id gids => m.nodes id = none ∧ gids.Nodup
  | .insertDistant _ gids => gids.Nodup
  | .importNode id gids => m.stateOf id ≠ some .LOCAL ∧ gids.Nodup
  | .setLocal id => m.stateOf id ≠ some .LOCAL
  | .moveAssign _ gids => gids.Nodup
  | _ => True

def process (n : Nat) : TransitionSystem (Model n) (Action n) where
  init m := (∀ id, m.nodes id = none) ∧ ∀ gid, m.agentsOf gid = [] ∧ m.jobOf gid = []
  next := Model.next

/-- Each job runs the LOCAL agents of its group, one task each, and the four records of the groups
of an agent agree. -/
structure Scheduled (m : Model n) : Prop where
  jobs : ∀ gid group, m.groups gid = some group → group.agents.Nodup ∧
    (group.agentExecutionJob.map some).Perm ((m.localAgents gid).map fun id => m.taskOf id gid)
  distant : ∀ gid group id task, m.groups gid = some group → id ∈ group.agents →
    m.stateOf id ≠ some .LOCAL → m.taskOf id gid = some task → task ∉ group.agentExecutionJob
  agree : ∀ id node, m.nodes id = some node → ∀ gid,
    (gid ∈ node.agent.groups ↔ gid ∈ node.agent.groupIds) ∧
    ((node.agent.tasks gid).isSome ↔ gid ∈ node.agent.groupIds) ∧
    ((∃ group, m.groups gid = some group ∧ id ∈ group.agents) ↔ gid ∈ node.agent.groupIds)

namespace Settled

variable {m m' : Model n} {id : Id n} {gid : GroupId} {gids : List GroupId}
  {state : Id n → Option LocationState} {declared : Set (Id n × GroupId)}

theorem mem_localAgents (all : Settled m state declared) :
    id ∈ m.localAgents gid ↔ (id, gid) ∈ declared ∧ state id = some .LOCAL := by
  rw [Model.localAgents, List.mem_filter, all.agents, all.state, decide_eq_true_iff]
  exact Iff.rfl

theorem task_exists (all : Settled m state declared) (declares : (id, gid) ∈ declared) :
    ∃ task, m.taskOf id gid = some task :=
  Option.isSome_iff_exists.mp ((all.tasks id gid).mpr declares)

theorem job_iff {task : Task} (all : Settled m state declared) (declares : (id, gid) ∈ declared)
    (runs : m.taskOf id gid = some task) : task ∈ m.jobOf gid ↔ state id = some .LOCAL := by
  rw [all.job]
  constructor
  next =>
    rintro ⟨other, ⟨-, here⟩, runs'⟩
    obtain ⟨rfl, -⟩ := all.own _ _ _ _ _ runs runs'
    exact here
  next =>
    intro here
    exact ⟨id, ⟨declares, here⟩, runs⟩

theorem job_tasks (all : Settled m state declared) (gid : GroupId) :
    ((m.jobOf gid).map some).Perm ((m.localAgents gid).map fun id => m.taskOf id gid) := by
  have once : ((m.localAgents gid).map fun id => m.taskOf id gid).Nodup := by
    refine List.Nodup.map_on (fun id found id' found' same => ?_) ((all.agents_once gid).filter _)
    obtain ⟨task, runs⟩ := all.task_exists (all.mem_localAgents.mp found).1
    exact (all.own _ _ _ _ _ runs (same ▸ runs)).1
  refine (List.perm_ext_iff_of_nodup ((all.job_once gid).map (Option.some_injective _)) once).mpr ?_
  intro entry
  simp only [List.mem_map, all.job, all.mem_localAgents]
  constructor
  next =>
    rintro ⟨task, ⟨id, running, runs⟩, rfl⟩
    exact ⟨id, running, runs⟩
  next =>
    rintro ⟨id, running, rfl⟩
    obtain ⟨task, runs⟩ := all.task_exists running.1
    exact ⟨task, ⟨id, running, runs⟩, runs.symm⟩

theorem scheduled (all : Settled m state declared) : Scheduled m where
  jobs := by
    intro gid group found
    rw [Model.agentsOf_found found, Model.jobOf_found found]
    exact ⟨all.agents_once gid, all.job_tasks gid⟩
  distant := by
    intro gid group id task found _ distant runs running
    rw [Model.jobOf_found found] at running
    obtain ⟨other, ⟨-, here⟩, runs'⟩ := (all.job gid task).mp running
    obtain ⟨rfl, -⟩ := all.own _ _ _ _ _ runs runs'
    exact distant ((all.state id).trans here)
  agree := by
    intro id node found gid
    have listed : (∃ group, m.groups gid = some group ∧ id ∈ group.agents) ↔ (id, gid) ∈ declared := by
      refine Iff.trans ?_ (all.agents id gid)
      cases found : m.groups gid <;> simp [Model.agentsOf, found]
    rw [all.groups_found found, all.groupIds_found found, Model.taskOf_found found, all.tasks, listed]
    exact ⟨Iff.rfl, Iff.rfl, Iff.rfl⟩

theorem buildGroup (all : Settled m state declared) (gid : GroupId) :
    Settled (m.buildGroup gid) state declared := by
  unfold Model.buildGroup
  split
  next => exact all
  next absent =>
    rw [Option.not_isSome_iff_eq_none] at absent
    have agents : (m.setGroup gid { agents := [], agentExecutionJob := [] }).agentsOf =
        m.agentsOf := by
      have empty : [] = m.agentsOf gid := by simp [Model.agentsOf, absent]
      simp [empty]
    have jobs : (m.setGroup gid { agents := [], agentExecutionJob := [] }).jobOf = m.jobOf := by
      have empty : [] = m.jobOf gid := by simp [Model.jobOf, absent]
      simp [empty]
    exact { all with
      agents_once := by rw [agents]; exact all.agents_once
      agents := by rw [agents]; exact all.agents
      job_once := by rw [jobs]; exact all.job_once
      job := by rw [jobs]; exact all.job }

theorem removeGroup (all : Settled m state declared) (ran : m.removeGroup gid = some m') :
    Settled m' state {pair | pair ∈ declared ∧ pair.2 ≠ gid} := by
  obtain ⟨middle, cleared, ran⟩ := Option.bind_eq_some_iff.mp ran
  cases ran
  have empty := all.clear cleared
  have no_agent : middle.agentsOf gid = [] :=
    List.eq_nil_iff_forall_not_mem.mpr fun id listed => ((empty.agents id gid).mp listed).2 rfl
  have no_task : middle.jobOf gid = [] :=
    List.eq_nil_iff_forall_not_mem.mpr fun task running => by
      obtain ⟨id, ⟨listed, -⟩, -⟩ := (empty.job gid task).mp running
      exact listed.2 rfl
  have agents : Model.agentsOf { middle with groups := Function.update middle.groups gid none } =
      middle.agentsOf := by
    funext other
    by_cases same : other = gid
    next =>
      rw [same, no_agent]
      simp [Model.agentsOf]
    next => simp [Model.agentsOf, same]
  have jobs : Model.jobOf { middle with groups := Function.update middle.groups gid none } =
      middle.jobOf := by
    funext other
    by_cases same : other = gid
    next =>
      rw [same, no_task]
      simp [Model.jobOf]
    next => simp [Model.jobOf, same]
  exact { empty with
    agents_once := by rw [agents]; exact empty.agents_once
    agents := by rw [agents]; exact empty.agents
    job_once := by rw [jobs]; exact empty.job_once
    job := by rw [jobs]; exact empty.job }

theorem addNew (all : Settled m state declared) (absent : m.nodes id = none)
    (once : (gids ++ [gid]).Nodup) (ran : m.add gid (.outside id (.ofGroupIds gids)) = some m') :
    Settled m' (Function.update state id (some .LOCAL)) (declared ∪ pairs id (gids ++ [gid])) :=
  all.buildNode absent once ran

theorem importNode (all : Settled m state declared) (distant : state id ≠ some .LOCAL)
    (once : gids.Nodup) (ran : m.importNode id (.ofGroupIds gids) = some m') :
    ∃ declared', Settled m' (Function.update state id (some .LOCAL)) declared' := by
  unfold Model.importNode at ran
  split at ran
  next absent => exact ⟨_, all.buildNode (Option.isNone_iff_eq_none.mp absent) once ran⟩
  next =>
    obtain ⟨middle, moved, ran⟩ := Option.bind_eq_some_iff.mp ran
    exact ⟨_, (all.moveAssign once moved).setLocal distant ran⟩

theorem next {a : Action n} (all : Settled m state declared) (allowed : Allowed m a)
    (ran : m.next a = some m') : ∃ declared', Settled m' (a.stateAfter state) declared' := by
  cases a with
  | buildGroup gid =>
    cases ran
    exact ⟨_, all.buildGroup gid⟩
  | removeGroup gid => exact ⟨_, all.removeGroup ran⟩
  | add gid id => exact ⟨_, all.add (mt (all.declared id gid).mpr allowed) ran⟩
  | addNew gid id gids => exact ⟨_, all.addNew allowed.1 allowed.2 ran⟩
  | remove gid id => exact ⟨_, all.remove ran⟩
  | clear gid => exact ⟨_, all.clear ran⟩
  | buildNode id gids => exact ⟨_, all.buildNode allowed.1 allowed.2 ran⟩
  | insertDistant id gids => exact all.insertDistant allowed ran
  | importNode id gids =>
    have distant (here : state id = some .LOCAL) := allowed.1 ((all.state id).trans here)
    exact all.importNode distant allowed.2 ran
  | setLocal id =>
    have distant (here : state id = some .LOCAL) := allowed ((all.state id).trans here)
    exact ⟨_, all.setLocal distant ran⟩
  | setDistant id => exact ⟨_, all.setDistant ran⟩
  | eraseNode id => exact ⟨_, all.eraseNode ran⟩
  | moveAssign id gids => exact ⟨_, all.moveAssign allowed ran⟩

theorem of_empty (no_node : ∀ id, m.nodes id = none)
    (no_agent : ∀ gid, m.agentsOf gid = [] ∧ m.jobOf gid = []) :
    Settled m (fun _ => none) ∅ where
  state := by simp [Model.stateOf, no_node, settled]
  declared_once := by simp [Model.groupIdsOf, no_node]
  declared := by simp [Model.groupIdsOf, no_node, settled]
  groups_once := by simp [Model.groupsOf, no_node]
  groups := by simp [Model.groupsOf, no_node, settled]
  tasks := by simp [Model.taskOf, no_node, settled]
  agents_once := by simp [no_agent]
  agents := by simp [no_agent, settled]
  older := by simp [Model.taskOf, no_node]
  own := by simp [Model.taskOf, no_node]
  job_once := by simp [no_agent]
  job := by simp [no_agent, settled]

end Settled

theorem process_settled {m : Model n} (reached : (process n).ReachableBy Allowed m) :
    ∃ state declared, Settled m state declared := by
  induction reached with
  | start initial => exact ⟨_, _, .of_empty initial.1 initial.2⟩
  | step _ allowed ran ih =>
    obtain ⟨state, declared, all⟩ := ih
    exact ⟨_, all.next allowed ran⟩

theorem agents_scheduled {m : Model n} (reached : (process n).ReachableBy Allowed m) :
    Scheduled m := by
  obtain ⟨state, declared, all⟩ := process_settled reached
  exact all.scheduled

instance (m : Model n) (a : Action n) : Decidable (Allowed m a) := by
  cases a <;> unfold Allowed <;> infer_instance

namespace Example

-- An agent built in group 7, added to group 8, exported, updated with group 8 only, and imported.
def start : Model 1 where
  groups _ := none
  nodes _ := none
  nextTask := 0
  removedNodes := []

def actions : List (Action 1) :=
  [.buildGroup 7, .buildGroup 8, .addNew 7 ⟨0, 0⟩ [], .add 8 ⟨0, 0⟩, .setDistant ⟨0, 0⟩,
    .moveAssign ⟨0, 0⟩ [8], .importNode ⟨0, 0⟩ [8]]

end Example

theorem agents_scheduled_import :
    ∃ m, (process 1).execBy Allowed Example.start Example.actions = some m ∧ m.jobOf 8 = [1] ∧
      Scheduled m := by
  have runs : (((process 1).execBy Allowed Example.start Example.actions).map (·.jobOf 8)) =
      some [1] := by decide +kernel
  obtain ⟨m, ran, job⟩ := Option.map_eq_some_iff.mp runs
  have initial : (process 1).init Example.start := ⟨fun _ => rfl, fun _ => ⟨rfl, rfl⟩⟩
  exact ⟨m, ran, job, agents_scheduled (.execBy Example.actions (.start initial) ran)⟩

end Fpmas.Model
