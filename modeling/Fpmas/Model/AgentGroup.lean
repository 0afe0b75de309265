import Mathlib.Data.Finset.Sort
import Mathlib.Data.List.Perm.Basic
import Fpmas.Graph.Elements
import Fpmas.Library.Vector

set_option autoImplicit false
set_option linter.dupNamespace false

namespace Fpmas.Model

open Fpmas.Graph (LocationState)

abbrev GroupId := Int

-- A task stands for its address; `new` always returns another one.
abbrev Task := Nat

-- A group is allocated once for its id, so `groups` holds ids instead of pointers.
structure Agent where
  groupIds : List GroupId
  groups : List GroupId
  tasks : GroupId → Option Task

namespace Agent

-- An agent just built, or just read from a message.
def ofGroupIds (groupIds : List GroupId) : Agent where
  groupIds
  groups := []
  tasks _ := none

def addGroupId (agent : Agent) (id : GroupId) : Agent :=
  { agent with groupIds := agent.groupIds ++ [id] }

-- Erasing the end of the vector is undefined.
def removeGroupId (agent : Agent) (id : GroupId) : Option Agent :=
  if id ∈ agent.groupIds then
    some { agent with groupIds := agent.groupIds.eraseRemoved id }
  else none

def addGroup (agent : Agent) (group : GroupId) : Agent :=
  { agent with groups := agent.groups ++ [group] }

def removeGroup (agent : Agent) (group : GroupId) : Option Agent :=
  if group ∈ agent.groups then
    some { agent with
      groups := agent.groups.eraseRemoved group
      tasks := Function.update agent.tasks group none }
  else none

def setTask (agent : Agent) (id : GroupId) (task : Task) : Agent :=
  { agent with tasks := Function.update agent.tasks id (some task) }

-- The part of `moveAssign` that replaces the fields of the host by the ones of the update, where
-- the fields to preserve have been copied.
def assign (host update : Agent) : Option Agent := do
  let update := host.groups.foldl addGroup update
  let update ← update.groupIds.foldlM removeGroupId update
  let update := host.groupIds.foldl addGroupId update
  some { update with tasks := fun id => (host.tasks id).or (update.tasks id) }

end Agent

-- The ids of `gids'` that are not in `gids`, in the order of a `std::set`.
def newGroups (gids gids' : List GroupId) : List GroupId :=
  (gids'.toFinset \ gids.toFinset).sort (· ≤ ·)

variable {n : Nat}

open Fpmas.Graph (Id)

-- A pointer to the agent of a node is the id of the node.
structure AgentGroup (n : Nat) where
  agents : List (Id n)
  agentExecutionJob : List Task

structure AgentNode where
  state : LocationState
  agent : Agent

-- The model of one process; `removedNodes` are the calls of `removeNode` made on its graph.
structure Model (n : Nat) where
  groups : GroupId → Option (AgentGroup n)
  nodes : Id n → Option AgentNode
  nextTask : Task
  removedNodes : List (Id n)

-- What `add` is given: an agent outside of the graph, for which `buildNode` would build `node`, or
-- the agent of a node.
inductive AgentRef (n : Nat) where
  | outside (node : Id n) (agent : Agent)
  | inGraph (node : Id n)

namespace Model

def setGroup (m : Model n) (id : GroupId) (group : AgentGroup n) : Model n :=
  { m with groups := Function.update m.groups id (some group) }

def setNode (m : Model n) (id : Id n) (node : AgentNode) : Model n :=
  { m with nodes := Function.update m.nodes id (some node) }

def takeTask (m : Model n) : Model n := { m with nextTask := m.nextTask + 1 }

-- `agentExecutionJob().add(*agent->task(groupId()))`
def schedule (m : Model n) (gid : GroupId) (id : Id n) : Option (Model n) := do
  let group ← m.groups gid
  let node ← m.nodes id
  let task ← node.agent.tasks gid
  some (m.setGroup gid { group with agentExecutionJob := group.agentExecutionJob ++ [task] })

-- `agentExecutionJob().remove(*agent->task(groupId()))`
def unschedule (m : Model n) (gid : GroupId) (id : Id n) : Option (Model n) := do
  let group ← m.groups gid
  let node ← m.nodes id
  let task ← node.agent.tasks gid
  some (m.setGroup gid
    { group with agentExecutionJob := group.agentExecutionJob.eraseRemoved task })

-- `AgentGroupBase::insert`
def insert (m : Model n) (gid : GroupId) (id : Id n) : Option (Model n) := do
  -- `getGroup` throws when there is no such group.
  let group ← m.groups gid
  let node ← m.nodes id
  let agent := (node.agent.addGroup gid).setTask gid m.nextTask
  let m := m.takeTask.setGroup gid { group with agents := group.agents ++ [id] }
  some (m.setNode id { node with agent })

-- `AgentGroupBase::erase`
def erase (m : Model n) (gid : GroupId) (id : Id n) : Option (Model n) := do
  let group ← m.groups gid
  let node ← m.nodes id
  if id ∉ group.agents then none
  else
    let m := m.setGroup gid { group with agents := group.agents.eraseRemoved id }
    -- `task` throws when there is no such task.
    let _ ← node.agent.tasks gid
    let agent ← node.agent.removeGroup gid
    let agent ← agent.removeGroupId gid
    some (m.setNode id { node with agent })

-- The task of a LOCAL agent is unscheduled before `erase` deletes it.
def leave (m : Model n) (state : LocationState) (gid : GroupId) (id : Id n) : Option (Model n) :=
  if state = .LOCAL then do
    let m ← m.unschedule gid id
    m.erase gid id
  else m.erase gid id

def insertAgentNodeCallback (m : Model n) (id : Id n) : Option (Model n) := do
  let node ← m.nodes id
  node.agent.groupIds.foldlM (fun m gid => m.insert gid id) m

def eraseAgentNodeCallback (m : Model n) (id : Id n) : Option (Model n) := do
  let node ← m.nodes id
  node.agent.groups.foldlM (fun m gid => m.leave node.state gid id) m

def setAgentLocalCallback (m : Model n) (id : Id n) : Option (Model n) := do
  let node ← m.nodes id
  node.agent.groups.foldlM (fun m gid => m.schedule gid id) m

def setAgentDistantCallback (m : Model n) (id : Id n) : Option (Model n) := do
  let node ← m.nodes id
  node.agent.groups.foldlM (fun m gid => m.unschedule gid id) m

-- `Graph::insert`, on a node of an id that is not in the graph
def insertNode (m : Model n) (id : Id n) (agent : Agent) : Option (Model n) :=
  (m.setNode id { state := .LOCAL, agent }).insertAgentNodeCallback id

def setLocal (m : Model n) (id : Id n) : Option (Model n) := do
  let node ← m.nodes id
  (m.setNode id { node with state := .LOCAL }).setAgentLocalCallback id

def setDistant (m : Model n) (id : Id n) : Option (Model n) := do
  let node ← m.nodes id
  (m.setNode id { node with state := .DISTANT }).setAgentDistantCallback id

def buildNode (m : Model n) (id : Id n) (agent : Agent) : Option (Model n) := do
  let m ← m.insertNode id agent
  m.setLocal id

-- The temporary nodes of an imported edge are inserted in the same way.
def insertDistant (m : Model n) (id : Id n) (agent : Agent) : Option (Model n) :=
  if (m.nodes id).isSome then some m
  else do
    let m ← m.insertNode id agent
    m.setDistant id

-- `Graph::erase`
def eraseNode (m : Model n) (id : Id n) : Option (Model n) := do
  let m ← m.eraseAgentNodeCallback id
  some { m with nodes := Function.update m.nodes id none }

def add (m : Model n) (gid : GroupId) : AgentRef n → Option (Model n)
  | .outside id agent =>
    -- The agent in no group has no node: `agent->node()` is not set.
    if agent.groups ≠ [] then none
    else m.buildNode id (agent.addGroupId gid)
  | .inGraph id => do
    let node ← m.nodes id
    let m := m.setNode id { node with agent := node.agent.addGroupId gid }
    -- A second node would be built for an agent that has one.
    if node.agent.groups = [] then none
    else
      let m ← m.insert gid id
      if node.state = .LOCAL then m.schedule gid id else some m

def remove (m : Model n) (gid : GroupId) (id : Id n) : Option (Model n) := do
  let node ← m.nodes id
  let m ← m.leave node.state gid id
  let node ← m.nodes id
  if node.state = .LOCAL ∧ node.agent.groups = [] then
    some { m with removedNodes := m.removedNodes ++ [id] }
  else some m

def clear (m : Model n) (gid : GroupId) : Option (Model n) := do
  let group ← m.groups gid
  group.agents.foldlM (fun m id => m.remove gid id) m

def moveAssign (m : Model n) (id : Id n) (update : Agent) : Option (Model n) := do
  let node ← m.nodes id
  let localIds := node.agent.groupIds.toFinset
  let updatedIds := update.groupIds.toFinset
  let newGroups := (updatedIds \ localIds).sort (· ≤ ·)
  let obsoleteGroups := (localIds \ updatedIds).sort (· ≤ ·)
  let agent ← node.agent.assign update
  let m := m.setNode id { node with agent }
  let m ← newGroups.foldlM (fun m gid => m.add gid (.inGraph id)) m
  obsoleteGroups.foldlM (fun m gid => m.remove gid id) m

def importNode (m : Model n) (id : Id n) (agent : Agent) : Option (Model n) :=
  if (m.nodes id).isNone then do
    let m ← m.insertNode id agent
    m.setLocal id
  else do
    let m ← m.moveAssign id agent
    m.setLocal id

end Model

end Fpmas.Model
