import Fpmas.Model.AgentScheduling
import Fpmas.Model.GroupCalls

set_option autoImplicit false

namespace Fpmas.Model

open Fpmas.Graph (LocationState Id)
open View

variable {n : Nat} {D : Type}

-- The other fields of `AgentBase`, where a pointer may not be set, and those `AgentType` adds.
structure AgentFields (n : Nat) (D : Type) where
  node : Option (Id n)
  model : Option Nat
  data : D

structure AgentBase (n : Nat) (D : Type) where
  agent : Agent
  fields : AgentFields n D

/-- The model of a process at its address, and the fields of the agents of its nodes; `calls` are
those `moveAssign` has made on the groups. -/
structure Process (n : Nat) (D : Type) where
  model : Model n
  address : Nat
  fields : Id n → Option (AgentFields n D)
  calls : List GroupCall

namespace Process

variable (p : Process n D)

-- `model()->getGroup(gid).add(this)`, or `remove`: the group finds the node by `node()`.
def call (id : Id n) (c : GroupCall) : Option (Process n D) := do
  let fields ← p.fields id
  let node ← fields.node
  if fields.model ≠ some p.address then none
  else do
    let model ← c.run p.model node
    some { p with model, calls := p.calls ++ [c] }

def moveAssign (id : Id n) (update : AgentBase n D) : Option (Process n D) := do
  let node ← p.model.nodes id
  let host ← p.fields id
  let localIds := node.agent.groupIds
  let updatedIds := update.agent.groupIds
  -- The update gets the fields to preserve, and is then moved to the host.
  let agent ← node.agent.assign update.agent
  let fields := { update.fields with node := host.node, model := host.model }
  let p := { p with
    model := p.model.setNode id { node with agent }
    fields := Function.update p.fields id (some fields) }
  let p ← (newGroups localIds updatedIds).foldlM (fun p gid => p.call id (.add gid)) p
  (newGroups updatedIds localIds).foldlM (fun p gid => p.call id (.remove gid)) p

-- `setNode` and `setModel`, in `InsertAgentNodeCallback`
def place (id : Id n) (fields : AgentFields n D) : Process n D :=
  let fields := { fields with node := some id, model := some p.address }
  { p with fields := Function.update p.fields id (some fields) }

def run (a : Action n) : Option (Process n D) := do
  let model ← p.model.next a
  some { p with model }

-- A step, where `fields` are those of the agent given to the action, if any.
def next (a : Action n) (fields : AgentFields n D) : Option (Process n D) :=
  match a with
  | .addNew _ id _ | .buildNode id _ => (p.place id fields).run a
  | .insertDistant id _ => if (p.model.nodes id).isSome then p.run a else (p.place id fields).run a
  | .importNode id gids =>
    if (p.model.nodes id).isNone then (p.place id fields).run a
    else do
      let p ← p.moveAssign id { agent := .ofGroupIds gids, fields }
      p.run (.setLocal id)
  | .eraseNode id => do
    let p ← p.run a
    some { p with fields := Function.update p.fields id none }
  | .moveAssign id gids => p.moveAssign id { agent := .ofGroupIds gids, fields }
  | _ => p.run a

end Process

def processOf (n : Nat) (D : Type) : TransitionSystem (Process n D) (Action n × AgentFields n D) where
  init p := (process n).init p.model ∧ ∀ id, p.fields id = none
  next p step := p.next step.1 step.2

def AllowedOf (p : Process n D) (step : Action n × AgentFields n D) : Prop := Allowed p.model step.1

namespace Process

/-- The callbacks have set the pointers of the agents of the graph. -/
structure Wired (p : Process n D) : Prop where
  present : ∀ id, (p.fields id).isSome = (p.model.stateOf id).isSome
  placed : ∀ id fields, p.fields id = some fields →
    fields.node = some id ∧ fields.model = some p.address

variable {p p' : Process n D} {id : Id n} {host : AgentFields n D}

theorem call_wired (here : p.fields id = some host) (at_node : host.node = some id)
    (at_model : host.model = some p.address) (c : GroupCall) :
    p.call id c = (c.run p.model id).map fun model => { p with model, calls := p.calls ++ [c] } := by
  simp [call, here, at_node, at_model, Option.map_eq_bind]

theorem calls_wired (kind : GroupId → GroupCall) (gids : List GroupId)
    (here : p.fields id = some host) (at_node : host.node = some id)
    (at_model : host.model = some p.address) :
    gids.foldlM (fun p gid => p.call id (kind gid)) p =
      (gids.foldlM (fun m gid => (kind gid).run m id) p.model).map fun model =>
        { p with model, calls := p.calls ++ gids.map kind } := by
  induction gids generalizing p with
  | nil => simp
  | cons gid rest ih =>
    rw [List.foldlM_cons, List.foldlM_cons, call_wired here at_node at_model]
    cases first : (kind gid).run p.model id with
    | none => rfl
    | some model =>
      have others := ih (p := { p with model, calls := p.calls ++ [kind gid] }) here at_model
      simpa using others

end Process

-- The calls that turn the groups `gids` into the groups `gids'`.
def groupCalls (gids gids' : List GroupId) : List GroupCall :=
  (newGroups gids gids').map .add ++ (newGroups gids' gids).map .remove

def AgentFields.updated (host update : AgentFields n D) : AgentFields n D :=
  { update with node := host.node, model := host.model }

namespace Process

variable {p p' : Process n D} {id : Id n} {host : AgentFields n D}

theorem moveAssign_wired {node : AgentNode} (update : AgentBase n D)
    (found : p.model.nodes id = some node) (here : p.fields id = some host)
    (at_node : host.node = some id) (at_model : host.model = some p.address) :
    p.moveAssign id update = (p.model.moveAssign id update.agent).map fun model =>
      { p with
        model
        fields := Function.update p.fields id (some (host.updated update.fields))
        calls := p.calls ++ groupCalls node.agent.groupIds update.agent.groupIds } := by
  unfold moveAssign Model.moveAssign
  rw [found, here]
  dsimp only [Option.bind_eq_bind, Option.bind_some]
  cases node.agent.assign update.agent with
  | none => rfl
  | some agent =>
    let moved : Process n D := { p with
      model := p.model.setNode id { node with agent }
      fields := Function.update p.fields id (some (host.updated update.fields)) }
    have moved_here : moved.fields id = some (host.updated update.fields) :=
      Function.update_self id _ _
    dsimp only [Option.bind_some]
    have added := calls_wired .add (newGroups node.agent.groupIds update.agent.groupIds) moved_here
      at_node at_model
    refine (congrArg (Option.bind · _) added).trans ?_
    rw [Option.bind_map, Option.map_bind]
    refine congrArg _ (funext fun middle => ?_)
    have removed := calls_wired .remove (newGroups update.agent.groupIds node.agent.groupIds)
      (p := { moved with
        model := middle
        calls := moved.calls ++ (newGroups node.agent.groupIds update.agent.groupIds).map .add })
      moved_here at_node at_model
    refine removed.trans ?_
    rw [List.append_assoc]
    rfl

theorem run_model {a : Action n} (ran : p.run a = some p') :
    p.model.next a = some p'.model ∧ p' = { p with model := p'.model } := by
  obtain ⟨model, taken, same⟩ := Option.bind_eq_some_iff.mp ran
  cases same
  exact ⟨taken, rfl⟩

theorem Wired.kept (wired : p.Wired) (fields : p'.fields = p.fields)
    (address : p'.address = p.address)
    (states : ∀ id, (p'.model.stateOf id).isSome = (p.model.stateOf id).isSome) : p'.Wired where
  present id := by rw [fields, states, wired.present]
  placed id host here := by
    rw [fields] at here
    rw [address]
    exact wired.placed id host here

theorem Wired.place (wired : p.Wired) (carried : AgentFields n D) {state : LocationState}
    (placed : p' = { p.place id carried with model := p'.model })
    (states : p'.model.stateOf = Function.update p.model.stateOf id (some state)) : p'.Wired where
  present other := by
    rw [placed]
    by_cases same : other = id
    next => simp [Process.place, states, same]
    next => simp [Process.place, states, same, wired.present]
  placed other host here := by
    rw [placed] at here ⊢
    by_cases same : other = id
    next =>
      subst same
      simp only [Process.place, Function.update_self, Option.some.injEq] at here
      subst here
      exact ⟨rfl, rfl⟩
    next =>
      simp only [Process.place, Function.update_of_ne same] at here
      exact wired.placed other host here

theorem Wired.updated {update : AgentFields n D} (wired : p.Wired) (here : p.fields id = some host)
    (fields : p'.fields = Function.update p.fields id (some (host.updated update)))
    (address : p'.address = p.address) (states : p'.model.stateOf = p.model.stateOf) :
    p'.Wired where
  present other := by
    rw [fields, states, ← wired.present]
    by_cases same : other = id
    next => simp [same, here]
    next => simp [same]
  placed other after found := by
    rw [fields] at found
    rw [address]
    by_cases same : other = id
    next =>
      subst same
      simp only [Function.update_self, Option.some.injEq] at found
      subst found
      exact wired.placed other host here
    next =>
      simp only [Function.update_of_ne same] at found
      exact wired.placed other after found

section Step

variable {declared : Set (Id n × GroupId)} {a : Action n} {carried : AgentFields n D}

theorem stateOf_after {m m' : Model n} (all : Settled m m.stateOf declared) (allowed : Allowed m a)
    (ran : m.next a = some m') : m'.stateOf = a.stateAfter m.stateOf := by
  obtain ⟨_, after⟩ := all.next allowed ran
  exact funext after.state

theorem Wired.run (wired : p.Wired) (all : Settled p.model p.model.stateOf declared)
    (allowed : Allowed p.model a) (ran : p.run a = some p')
    (kept : ∀ id, (a.stateAfter p.model.stateOf id).isSome = (p.model.stateOf id).isSome) :
    p.model.next a = some p'.model ∧ p'.Wired := by
  obtain ⟨taken, same⟩ := run_model ran
  refine ⟨taken, wired.kept (by rw [same]) (by rw [same]) ?_⟩
  rw [stateOf_after all allowed taken]
  exact kept

theorem Wired.run_place (wired : p.Wired) (all : Settled p.model p.model.stateOf declared)
    (allowed : Allowed p.model a) (ran : (p.place id carried).run a = some p')
    {state : LocationState}
    (placed : a.stateAfter p.model.stateOf = Function.update p.model.stateOf id (some state)) :
    p.model.next a = some p'.model ∧ p'.Wired := by
  obtain ⟨taken, same⟩ := run_model ran
  exact ⟨taken, wired.place carried same ((stateOf_after all allowed taken).trans placed)⟩

theorem present_found {m : Model n} {node : AgentNode} (found : m.nodes id = some node)
    (state : LocationState) (other : Id n) :
    (Function.update m.stateOf id (some state) other).isSome = (m.stateOf other).isSome := by
  by_cases same : other = id
  next => simp [same, Model.stateOf, found]
  next => simp [same]

theorem Wired.moveAssign {gids : List GroupId} (wired : p.Wired)
    (all : Settled p.model p.model.stateOf declared) (once : gids.Nodup)
    (ran : p.moveAssign id { agent := .ofGroupIds gids, fields := carried } = some p') :
    p.model.moveAssign id (.ofGroupIds gids) = some p'.model ∧ p'.Wired := by
  have start := ran
  obtain ⟨node, found, start⟩ := Option.bind_eq_some_iff.mp start
  obtain ⟨host, here, -⟩ := Option.bind_eq_some_iff.mp start
  obtain ⟨at_node, at_model⟩ := wired.placed id host here
  rw [moveAssign_wired _ found here at_node at_model] at ran
  obtain ⟨model, moved, same⟩ := Option.map_eq_some_iff.mp ran
  cases same
  exact ⟨moved, wired.updated here rfl rfl (funext (all.moveAssign once moved).state)⟩

theorem Wired.next (wired : p.Wired) (all : Settled p.model p.model.stateOf declared)
    (allowed : Allowed p.model a) (ran : p.next a carried = some p') :
    p.model.next a = some p'.model ∧ p'.Wired := by
  cases a with
  | buildGroup gid => exact wired.run all allowed ran fun _ => rfl
  | removeGroup gid => exact wired.run all allowed ran fun _ => rfl
  | add gid id => exact wired.run all allowed ran fun _ => rfl
  | remove gid id => exact wired.run all allowed ran fun _ => rfl
  | clear gid => exact wired.run all allowed ran fun _ => rfl
  | addNew gid id gids => exact wired.run_place all allowed ran rfl
  | buildNode id gids => exact wired.run_place all allowed ran rfl
  | setLocal id =>
    obtain ⟨node, found, -⟩ := Option.bind_eq_some_iff.mp (run_model ran).1
    exact wired.run all allowed ran (present_found found .LOCAL)
  | setDistant id =>
    obtain ⟨node, found, -⟩ := Option.bind_eq_some_iff.mp (run_model ran).1
    exact wired.run all allowed ran (present_found found .DISTANT)
  | insertDistant id gids =>
    have known : (p.model.stateOf id).isSome = (p.model.nodes id).isSome := Option.isSome_map ..
    rw [Process.next] at ran
    split at ran
    next present =>
      refine wired.run all allowed ran fun other => ?_
      rw [Action.stateAfter, if_pos (known.trans present)]
    next absent =>
      have placed : (Action.insertDistant id gids).stateAfter p.model.stateOf =
          Function.update p.model.stateOf id (some .DISTANT) := if_neg (known ▸ absent)
      exact wired.run_place all allowed ran placed
  | eraseNode id =>
    obtain ⟨middle, ran, same⟩ := Option.bind_eq_some_iff.mp ran
    obtain ⟨taken, kept⟩ := run_model ran
    have states := stateOf_after all allowed taken
    cases same
    refine ⟨taken, fun other => ?_, fun other host here => ?_⟩
    · rw [states, kept]
      by_cases same : other = id
      next => simp [Action.stateAfter, same]
      next => simp [Action.stateAfter, same, wired.present]
    · rw [kept] at here ⊢
      by_cases same : other = id
      next => simp [same] at here
      next =>
        simp only [Function.update_of_ne same] at here
        exact wired.placed other host here
  | moveAssign id gids => exact wired.moveAssign all allowed ran
  | importNode id gids =>
    have next : p.model.next (.importNode id gids) = p.model.importNode id (.ofGroupIds gids) := rfl
    rw [Process.next] at ran
    split at ran
    next absent => exact wired.run_place all allowed ran rfl
    next present =>
      obtain ⟨middle, moved, ran⟩ := Option.bind_eq_some_iff.mp ran
      obtain ⟨moved, updated⟩ := wired.moveAssign all allowed.2 moved
      have states : middle.model.stateOf = p.model.stateOf :=
        funext (all.moveAssign allowed.2 moved).state
      have settled := all.moveAssign allowed.2 moved
      rw [← states] at settled
      obtain ⟨node, found, -⟩ := Option.bind_eq_some_iff.mp (run_model ran).1
      have distant : Allowed middle.model (.setLocal id) := by
        rw [Allowed, states]
        exact allowed.1
      obtain ⟨taken, done⟩ := updated.run settled distant ran (present_found found .LOCAL)
      refine ⟨?_, done⟩
      rw [next, Model.importNode, if_neg present]
      exact Option.bind_eq_some_iff.mpr ⟨_, moved, taken⟩

end Step

theorem reached_model (reached : (processOf n D).ReachableBy AllowedOf p) :
    (process n).ReachableBy Allowed p.model ∧ p.Wired := by
  induction reached with
  | start initial =>
    obtain ⟨empty, no_agent⟩ := initial
    refine ⟨.start empty, fun id => ?_, fun id host here => ?_⟩
    · simp [no_agent, Model.stateOf, empty.1]
    · rw [no_agent] at here
      cases here
  | step _ allowed ran ih =>
    obtain ⟨reached, wired⟩ := ih
    obtain ⟨state, declared, all⟩ := process_settled reached
    obtain rfl : state = _ := (funext all.state).symm
    obtain ⟨taken, wired⟩ := wired.next all allowed ran
    exact ⟨.step reached allowed taken, wired⟩

end Process

theorem count_groupCalls (gids gids' : List GroupId) (gid : GroupId) :
    (groupCalls gids gids').count (.add gid) = (if gid ∈ gids' ∧ gid ∉ gids then 1 else 0) ∧
      (groupCalls gids gids').count (.remove gid) =
        if gid ∈ gids ∧ gid ∉ gids' then 1 else 0 := by
  have once (gids gids' : List GroupId) : (newGroups gids gids').count gid =
      if gid ∈ gids' ∧ gid ∉ gids then 1 else 0 := by
    rw [(newGroups_once gids gids').count]
    simp only [mem_newGroups]
  have added (gids : List GroupId) : (gids.map GroupCall.add).count (.add gid) = gids.count gid :=
    List.count_map_of_injective gids _ (fun _ _ same => GroupCall.add.inj same) gid
  have removed (gids : List GroupId) :
      (gids.map GroupCall.remove).count (.remove gid) = gids.count gid :=
    List.count_map_of_injective gids _ (fun _ _ same => GroupCall.remove.inj same) gid
  have no_add (gids : List GroupId) : (gids.map GroupCall.remove).count (.add gid) = 0 := by
    simp [List.count_eq_zero]
  have no_remove (gids : List GroupId) : (gids.map GroupCall.add).count (.remove gid) = 0 := by
    simp [List.count_eq_zero]
  constructor
  next => rw [groupCalls, List.count_append, added, no_add, Nat.add_zero, once]
  next => rw [groupCalls, List.count_append, removed, no_remove, Nat.zero_add, once]

/-- `p'` is `p` where the host, `node` with the fields `host`, has been updated: it is in the groups
`gids` only, and nothing but those that changed has been touched. -/
structure Updated (p p' : Process n D) (id : Id n) (node : AgentNode) (host : AgentFields n D)
    (gids : List GroupId) (update : AgentFields n D) : Prop where
  nodes : ∃ agent : Agent,
    p'.model.nodes = Function.update p.model.nodes id (some { node with agent }) ∧
    agent.groupIds.Perm gids ∧ agent.groups.Perm gids ∧
    -- In the groups it stays in, the host keeps its task.
    (∀ gid ∈ gids, gid ∈ node.agent.groupIds → agent.tasks gid = node.agent.tasks gid) ∧
    ∀ gid ∈ gids, ∃ task, agent.tasks gid = some task ∧
      (task ∈ p'.model.jobOf gid ↔ node.state = .LOCAL)
  groups : ∀ gid, (gid ∈ gids ↔ gid ∈ node.agent.groupIds) → p'.model.groups gid = p.model.groups gid
  removedNodes : p'.model.removedNodes = p.model.removedNodes
  calls : ∃ calls, p'.calls = p.calls ++ calls ∧ ∀ gid,
    calls.count (.add gid) = (if gid ∈ gids ∧ gid ∉ node.agent.groupIds then 1 else 0) ∧
    calls.count (.remove gid) = if gid ∈ node.agent.groupIds ∧ gid ∉ gids then 1 else 0
  fields : p'.fields = Function.update p.fields id (some { host with data := update.data })

theorem moveAssign_makes_equal {p : Process n D} (reached : (processOf n D).ReachableBy AllowedOf p)
    {id : Id n} {node : AgentNode} {host : AgentFields n D} {gids : List GroupId}
    (found : p.model.nodes id = some node) (here : p.fields id = some host)
    (grouped : node.agent.groups ≠ []) (some_group : gids ≠ []) (once : gids.Nodup)
    (known : ∀ gid ∈ gids, (p.model.groups gid).isSome) (update : AgentFields n D) :
    ∃ p', p.moveAssign id { agent := .ofGroupIds gids, fields := update } = some p' ∧
      Updated p p' id node host gids update := by
  obtain ⟨reached, wired⟩ := Process.reached_model reached
  obtain ⟨state, declared, all⟩ := process_settled reached
  obtain ⟨at_node, at_model⟩ := wired.placed id host here
  obtain ⟨m', ran, after, changed⟩ :=
    all.moveAssign_returns found grouped some_group once known
  have taken : p.moveAssign id { agent := .ofGroupIds gids, fields := update } = _ :=
    Process.moveAssign_wired _ found here at_node at_model
  rw [ran] at taken
  refine ⟨_, taken, ?_⟩
  obtain ⟨agent, nodes, tasks⟩ := changed.host
  have moved : m'.nodes id = some { node with agent } := by rw [nodes, Function.update_self]
  have declares (gid : GroupId) :
      (id, gid) ∈ {pair | pair ∈ declared ∧ pair.1 ≠ id} ∪ pairs id gids ↔ gid ∈ gids := by simp
  constructor
  case nodes =>
    refine ⟨agent, nodes, ?_, ?_, ?_, ?_⟩
    · have ids_once : agent.groupIds.Nodup := Model.groupIdsOf_found moved ▸ after.declared_once id
      refine (List.perm_ext_iff_of_nodup ids_once once).mpr fun gid => ?_
      exact (after.groupIds_found moved gid).trans (declares gid)
    · have groups_once : agent.groups.Nodup := Model.groupsOf_found moved ▸ after.groups_once id
      refine (List.perm_ext_iff_of_nodup groups_once once).mpr fun gid => ?_
      exact (after.groups_found moved gid).trans (declares gid)
    · intro gid updated was_in
      exact tasks gid (by simp [updated, was_in])
    · intro gid updated
      obtain ⟨task, runs⟩ := after.task_exists ((declares gid).mpr updated)
      refine ⟨task, (congrFun (Model.taskOf_found moved) gid).trans runs, ?_⟩
      rw [after.job_iff ((declares gid).mpr updated) runs, all.state_found found, Option.some.injEq]
  case groups =>
    intro gid both
    exact changed.groups gid (by simp [both])
  case removedNodes => exact changed.removedNodes
  case calls => exact ⟨_, rfl, count_groupCalls _ _⟩
  case fields => rfl

instance (p : Process n D) (step : Action n × AgentFields n D) : Decidable (AllowedOf p step) :=
  inferInstanceAs (Decidable (Allowed p.model step.1))

namespace Example

def process : Process 1 Nat where
  model := start
  address := 100
  fields _ := none
  calls := []

def agentRead (data : Nat) : AgentFields 1 Nat where
  node := none
  model := none
  data

-- An agent built in group 7 and added to group 8, on a process with a group 9.
def steps : List (Action 1 × AgentFields 1 Nat) :=
  (.buildGroup 9 :: actions.take 4).map fun a => (a, agentRead 1)

end Example

open Example in
theorem moveAssign_makes_equal_two_groups :
    ∃ p node host p', (processOf 1 Nat).execBy AllowedOf Example.process steps = some p ∧
      node.agent.groups = [7, 8] ∧
      p.moveAssign ⟨0, 0⟩ { agent := .ofGroupIds [8, 9], fields := agentRead 2 } = some p' ∧
      Updated p p' ⟨0, 0⟩ node host [8, 9] (agentRead 2) := by
  have runs : (((processOf 1 Nat).execBy AllowedOf Example.process steps).bind fun p =>
      (p.model.nodes ⟨0, 0⟩).bind fun node => (p.fields ⟨0, 0⟩).map fun _ =>
        (node.agent.groups, (p.model.groups 8).isSome, (p.model.groups 9).isSome)) =
      some ([7, 8], true, true) := by decide +kernel
  obtain ⟨p, ran, runs⟩ := Option.bind_eq_some_iff.mp runs
  obtain ⟨node, found, runs⟩ := Option.bind_eq_some_iff.mp runs
  obtain ⟨host, here, runs⟩ := Option.map_eq_some_iff.mp runs
  simp only [Prod.mk.injEq] at runs
  obtain ⟨groups, eight, nine⟩ := runs
  have initial : (processOf 1 Nat).init Example.process :=
    ⟨⟨fun _ => rfl, fun _ => ⟨rfl, rfl⟩⟩, fun _ => rfl⟩
  have reached := TransitionSystem.ReachableBy.execBy steps (.start initial) ran
  obtain ⟨p', moved, updated⟩ := moveAssign_makes_equal reached found here
    (by rw [groups]; decide) (List.cons_ne_nil 8 [9]) (by decide)
    (by simp [eight, nine]) (agentRead 2)
  exact ⟨p, node, host, p', ran, groups, moved, updated⟩

end Fpmas.Model
