import Mathlib.Data.Finset.Insert
import Mathlib.Data.List.FinRange
import Fpmas.Library.Superstep

set_option autoImplicit false

namespace Fpmas.Model.Spatial

open Superstep

abbrev GroupId := Int

variable {n : Nat} {A C : Type}

-- The layers that link a spatial agent to cells.
inductive Field where
  | LOCATION
  | NEW_LOCATION
  | MOVE
  | NEW_MOVE
  | PERCEIVE
  | NEW_PERCEIVE
deriving DecidableEq

inductive Edge (A C : Type) where
  | field (layer : Field) (agent : A) (cell : C)
  -- The edges of the PERCEPTION layer.
  | perception (agent perceived : A)
deriving DecidableEq

structure Range (C : Type) where
  contains : C → C → Bool
  radius : Option C → Nat

/-- What does not change while the algorithm runs. Each agent and each cell is LOCAL on one process. -/
structure Environment (n : Nat) (A C : Type) where
  cells : List C
  agents : List A
  cells_once : cells.Nodup
  agents_once : agents.Nodup
  every_cell : ∀ cell, cell ∈ cells
  every_agent : ∀ agent, agent ∈ agents
  cellRank : C → Fin n
  agentRank : A → Fin n
  successors : C → List C
  groupIds : A → List GroupId
  mobilityRange : A → Range C
  perceptionRange : A → Range C

structure CellFlags (A : Type) where
  moveFlags : Finset A
  perceptionFlags : Finset A

-- The mobility and the perception fields grow in the same way, each on its own layers.
inductive Kind where
  | mobility
  | perception
deriving DecidableEq

namespace Kind

def layer : Kind → Field
  | mobility => .MOVE
  | perception => .PERCEIVE

-- The temporary layer.
def fresh : Kind → Field
  | mobility => .NEW_MOVE
  | perception => .NEW_PERCEIVE

def flags : Kind → CellFlags A → Finset A
  | mobility, flags => flags.moveFlags
  | perception, flags => flags.perceptionFlags

def setFlags : Kind → Finset A → CellFlags A → CellFlags A
  | mobility, agents, flags => { flags with moveFlags := agents }
  | perception, agents, flags => { flags with perceptionFlags := agents }

end Kind

structure World (A C : Type) where
  edges : List (Edge A C)
  flags : C → CellFlags A
  locationId : A → Option C

variable [DecidableEq A] [DecidableEq C]

def outNeighbors (edges : List (Edge A C)) (layer : Field) (agent : A) : List C :=
  edges.filterMap fun
    | .field l a cell => if l = layer ∧ a = agent then some cell else none
    | .perception _ _ => none

def inNeighbors (edges : List (Edge A C)) (layer : Field) (cell : C) : List A :=
  edges.filterMap fun
    | .field l agent c => if l = layer ∧ c = cell then some agent else none
    | .perception _ _ => none

def perceptions (edges : List (Edge A C)) (agent : A) : List A :=
  edges.filterMap fun
    | .field _ _ _ => none
    | .perception a perceived => if a = agent then some perceived else none

def perceivers (edges : List (Edge A C)) (agent : A) : List A :=
  edges.filterMap fun
    | .field _ _ _ => none
    | .perception perceiver a => if a = agent then some perceiver else none

namespace Environment

variable (env : Environment n A C)

def isAgentInGroup (agent : A) (group : GroupId) : Bool := group ∈ env.groupIds agent

def range : Kind → A → Range C
  | .mobility => env.mobilityRange
  | .perception => env.perceptionRange

-- The agents of a group: each process runs its LOCAL ones.
def groupAgents (group : GroupId) : List A :=
  env.agents.filter fun agent => env.isAgentInGroup agent group

section Cell

variable (cell : C)

def updateLocation (agent : A) : List (Call (Edge A C)) :=
  [.link (.field .LOCATION agent cell), .unlink (.field .NEW_LOCATION agent cell)]

def growField (kind : Kind) (agent : A) : List (Call (Edge A C)) :=
  (env.successors cell).map fun successor => .link (.field kind.fresh agent successor)

def growMobilityField : A → List (Call (Edge A C)) := env.growField cell .mobility

def growPerceptionField : A → List (Call (Edge A C)) := env.growField cell .perception

def handleNewLocation : Handler (CellFlags A) (Edge A C) := fun flags edges =>
  some ((inNeighbors edges .NEW_LOCATION cell).foldl
    (fun (flags, calls) agent =>
      ({ moveFlags := insert agent flags.moveFlags
         perceptionFlags := insert agent flags.perceptionFlags },
        calls ++ updateLocation cell agent ++ env.growMobilityField cell agent ++
          env.growPerceptionField cell agent))
    (flags, []))

def handleField (kind : Kind) : Handler (CellFlags A) (Edge A C) := fun flags edges =>
  some ((inNeighbors edges kind.layer cell).foldl
    (fun (flags, calls) agent =>
      if agent ∈ kind.flags flags then (flags, calls)
      else
        (kind.setFlags (insert agent (kind.flags flags)) flags,
          calls ++ env.growField cell kind agent))
    (flags, []))

def handleMove : Handler (CellFlags A) (Edge A C) := env.handleField cell .mobility

def handlePerceive : Handler (CellFlags A) (Edge A C) := env.handleField cell .perception

def cellBehaviors : Handler (CellFlags A) (Edge A C) :=
  ((env.handleNewLocation cell).andThen (env.handleMove cell)).andThen (env.handlePerceive cell)

def updatePerceptions (group : GroupId) : Handler (CellFlags A) (Edge A C) := fun _ edges =>
  some ({ moveFlags := ∅, perceptionFlags := ∅ },
    (inNeighbors edges .PERCEIVE cell).flatMap fun agent =>
      (inNeighbors edges .LOCATION cell).flatMap fun perceived =>
        if env.isAgentInGroup agent group || env.isAgentInGroup perceived group then
          if perceived ≠ agent then [.link (.perception agent perceived)] else []
        else [])

end Cell

section Agent

variable (agent : A)

-- `SpatialAgentBase::updateLocation`, on the agents that call `moveTo`
def moveTo (target : Option C) : Handler (Option C) (Edge A C) := fun locationId edges =>
  match target with
  | none => some (locationId, [])
  | some cell =>
    some (some cell,
      [.link (.field .NEW_LOCATION agent cell)] ++
      ((outNeighbors edges .LOCATION agent).head?.toList.map fun location =>
        .unlink (.field .LOCATION agent location)) ++
      ((outNeighbors edges .MOVE agent).map fun c => .unlink (.field .MOVE agent c)) ++
      ((outNeighbors edges .PERCEIVE agent).map fun c => .unlink (.field .PERCEIVE agent c)) ++
      (if (env.mobilityRange agent).contains cell cell then
        [.link (.field .MOVE agent cell)] else []) ++
      (if (env.perceptionRange agent).contains cell cell then
        [.link (.field .PERCEIVE agent cell)] else []))

-- `ids` are the cells of the layer, as the agent knows them.
def cropCell (kind : Kind) (location : C) :
    List C × List (Call (Edge A C)) → C → List C × List (Call (Edge A C))
  | (ids, calls), cell =>
    if cell ∉ ids ∧ (env.range kind agent).contains location cell then
      (ids ++ [cell],
        calls ++ [.link (.field kind.layer agent cell), .unlink (.field kind.fresh agent cell)])
    else (ids, calls ++ [.unlink (.field kind.fresh agent cell)])

def crop (kind : Kind) : Handler Unit (Edge A C) := fun _ edges =>
  -- A guard reads the node of the location: there must be one.
  (outNeighbors edges .LOCATION agent).head?.map fun location =>
    ((), ((outNeighbors edges kind.fresh agent).foldl (env.cropCell agent kind location)
      (outNeighbors edges kind.layer agent, [])).2)

def handleNewMove : Handler Unit (Edge A C) := env.crop agent .mobility

def handleNewPerceive : Handler Unit (Edge A C) := env.crop agent .perception

def spatialAgentBehaviors : Handler Unit (Edge A C) :=
  (env.handleNewMove agent).andThen (env.handleNewPerceive agent)

def unlinkPerceptions : Handler Unit (Edge A C) := fun _ edges =>
  some ((), (perceptions edges agent).map fun perceived => .unlink (.perception agent perceived))

def unlinkPerceivers : Handler Unit (Edge A C) := fun _ edges =>
  some ((), (perceivers edges agent).map fun perceiver => .unlink (.perception perceiver agent))

end Agent

def cellPhase (handler : C → Handler (CellFlags A) (Edge A C)) (w : World A C) :
    Option (World A C) := do
  let (edges, flags) ← phase env.cellRank handler env.cells w.edges w.flags
  some { w with edges, flags }

def agentPhase (handler : A → Handler Unit (Edge A C)) (group : GroupId) (w : World A C) :
    Option (World A C) := do
  let (edges, _) ← phase env.agentRank handler (env.groupAgents group) w.edges fun _ => ()
  some { w with edges }

-- The execution of the agents, some of which call `moveTo` once.
def movePhase (moves : A → Option C) (w : World A C) : Option (World A C) := do
  let (edges, locationId) ←
    phase env.agentRank (fun agent => env.moveTo agent (moves agent)) env.agents w.edges w.locationId
  some { w with edges, locationId }

end Environment

structure EndCondition (n : Nat) (A C : Type) where
  State : Type
  init : Environment n A C → GroupId → World A C → State
  step : State → State
  end_ : State → Bool

-- The radius that `init` computes for an agent: `locationCell()` is null for an agent that has just
-- called `moveTo`.
def Environment.radius (env : Environment n A C) (w : World A C) (agent : A) : Nat :=
  let location := (outNeighbors w.edges .LOCATION agent).head?
  max ((env.mobilityRange agent).radius location) ((env.perceptionRange agent).radius location)

-- `range` is `RangeType(MaxRangeSize)`.
def StaticEndCondition (range : Range C) : EndCondition n A C where
  State := Nat
  init _ _ _ := 0
  step state := state + 1
  end_ state := state ≥ range.radius none

def DynamicEndCondition : EndCondition n A C where
  -- The counter and its bound, which is the same on all the processes.
  State := Nat × Nat
  init env group w := (0, ((env.groupAgents group).map (env.radius w)).foldl max 0)
  step state := (state.1 + 1, state.2)
  end_ state := state.1 ≥ state.2

namespace Environment

variable (env : Environment n A C) (group : GroupId) (end_ : EndCondition n A C)

-- One turn of the loop of `AlgoTask::run`.
def round (w : World A C) : Option (World A C) := do
  let w ← env.cellPhase env.cellBehaviors w
  env.agentPhase env.spatialAgentBehaviors group w

def loop : Nat → end_.State → World A C → Option (World A C)
  | fuel, state, w =>
    if end_.end_ state then some w
    else match fuel with
      | 0 => none
      | fuel + 1 => do
        let w ← env.round group w
        loop fuel (end_.step state) w

def unlinkObsoletePerceptions (w : World A C) : Option (World A C) := do
  let w ← env.agentPhase unlinkPerceptions group w
  env.agentPhase unlinkPerceivers group w

-- `AlgoTask::run`; the loop makes `fuel` turns at most.
def run (fuel : Nat) (w : World A C) : Option (World A C) := do
  let w ← env.unlinkObsoletePerceptions group w
  let w ← env.loop group end_ fuel (end_.init env group w) w
  env.cellPhase (fun cell => env.updatePerceptions cell group) w

end Environment

def World.empty : World A C where
  edges := []
  flags _ := { moveFlags := ∅, perceptionFlags := ∅ }
  locationId _ := none

def disc (radius : Nat) : Range (Fin 3) where
  contains origin cell := origin.val ≤ cell.val + radius ∧ cell.val ≤ origin.val + radius
  radius _ := radius

-- Three cells in a row and two agents, on two processes.
def corridor (groupIds : Fin 2 → List GroupId) (radius : Fin 2 → Nat) :
    Environment 2 (Fin 2) (Fin 3) where
  cells := List.finRange 3
  agents := List.finRange 2
  cells_once := List.nodup_finRange 3
  agents_once := List.nodup_finRange 2
  every_cell := List.mem_finRange
  every_agent := List.mem_finRange
  cellRank cell := if cell = 0 then 0 else 1
  agentRank agent := agent
  successors cell := match cell with
    | 0 => [1]
    | 1 => [0, 2]
    | 2 => [1]
  groupIds := groupIds
  mobilityRange agent := disc (radius agent)
  perceptionRange agent := disc (radius agent)

end Fpmas.Model.Spatial
