import Fpmas.Model.Spatial.GridRange
import Fpmas.Model.Spatial.MoveRuns

set_option autoImplicit false

namespace Fpmas.Model.Spatial

variable {n : Nat} {A : Type} {mobility perception : GridRangeConfig}

/-- The agents that move on a grid. -/
structure GridAgents (n : Nat) (A : Type) (mobility perception : GridRangeConfig) where
  agents : List A
  once : agents.Nodup
  every : ∀ agent, agent ∈ agents
  rank : A → Fin n
  groupIds : A → List GroupId
  mobilityRange : A → GridRange mobility
  perceptionRange : A → GridRange perception

abbrev BuiltCell (grids : Fin n → BuiltGrid n) := { cell // cell ∈ builtCells grids }

namespace GridAgents

variable {width height : Int} {grids : Fin n → BuiltGrid n} (agents : GridAgents n A mobility perception)
  (grid : VonNeumann width height grids) (cellRank : BuiltCell grids → Fin n)

def environment : Environment n A (BuiltCell grids) where
  cells := (builtCells grids).attach
  agents := agents.agents
  cells_once := List.nodup_attach.mpr (List.Nodup.of_map _ grid.once)
  agents_once := agents.once
  every_cell := List.mem_attach _
  every_agent := agents.every
  cellRank := cellRank
  agentRank := agents.rank
  successors source := (builtCells grids).attach.filter fun target =>
    { source := source.val.id, target := target.val.id } ∈ successors grids
  groupIds := agents.groupIds
  mobilityRange agent := (agents.mobilityRange agent).onCells Subtype.val
  perceptionRange agent := (agents.perceptionRange agent).onCells Subtype.val

theorem onGrid : OnGrid grids (agents.environment grid cellRank) Subtype.val where
  built cell := cell.property
  once := Subtype.val_injective
  onto cell built := ⟨⟨cell, built⟩, rfl⟩
  edges linked := List.mem_filter.mpr ⟨List.mem_attach _ _, decide_eq_true linked⟩

def radius (agent : A) : Nat :=
  max ((agents.mobilityRange agent).radius (none : Option (GridCell n)))
    ((agents.perceptionRange agent).radius (none : Option (GridCell n)))

variable [DecidableEq A]

variable (grids) in
/-- The end conditions that let the fields grow to the whole of the ranges. -/
inductive Allows (fuel : Nat) : EndCondition n A (BuiltCell grids) → Prop where
  | static {config : GridRangeConfig} (range : GridRange config)
      (positive : 1 ≤ range.radius (none : Option (GridCell n)))
      (wide : ∀ agent, agents.radius agent ≤ range.radius (none : Option (GridCell n)))
      (bound : range.radius (none : Option (GridCell n)) ≤ fuel) :
      Allows fuel (StaticEndCondition (range.onCells Subtype.val))
  -- No round is made when all the radii are 0.
  | dynamic (moving : A) (positive : 1 ≤ agents.radius moving)
      (bound : ∀ agent, agents.radius agent ≤ fuel) : Allows fuel DynamicEndCondition

variable {agents} {end_ : EndCondition n A (BuiltCell grids)} {group : GroupId} {fuel : Nat}

theorem Allows.enough (allows : agents.Allows grids fuel end_) (suits : mobility.Suits)
    (suits' : perception.Suits)
    (all : ∀ agent, (agents.environment grid cellRank).isAgentInGroup agent group) :
    (agents.environment grid cellRank).Enough group end_ fuel := by
  have onGrid := agents.onGrid grid cellRank
  -- A path in a range is not longer than its radius.
  have reach : ∀ rounds, (∀ agent, agents.radius agent ≤ rounds) → ∀ kind agent target cell,
      ((agents.environment grid cellRank).range kind agent).contains target cell = true →
        ∃ k ≤ rounds, (agents.environment grid cellRank).Within
          ((agents.environment grid cellRank).range kind agent) target k cell := by
    intro rounds wide kind agent target cell inside
    cases kind with
    | mobility =>
      obtain ⟨k, short, path⟩ :=
        onGrid.reach (grid.continuous_of_suits suits (agents.mobilityRange agent)) inside
      exact ⟨k, short.trans ((le_max_left _ _).trans (wide agent)), path⟩
    | perception =>
      obtain ⟨k, short, path⟩ :=
        onGrid.reach (grid.continuous_of_suits suits' (agents.perceptionRange agent)) inside
      exact ⟨k, short.trans ((le_max_right _ _).trans (wide agent)), path⟩
  cases allows with
  | static range positive wide bound => exact Environment.enough_static positive bound (reach _ wide)
  | dynamic moving positive bound =>
    have constant : ∀ w, (agents.environment grid cellRank).radius w = agents.radius := fun _ => rfl
    exact Environment.enough_dynamic constant (all moving) positive (fun agent _ => bound agent)
      fun rounds wide => reach rounds fun agent => wide agent (all agent)

/-- Agents that move on a grid, with ranges of the grid, are where they have gone and perceive the
agents that are in their perception range. -/
theorem grid_moves_show (agents : GridAgents n A mobility perception)
    (grid : VonNeumann width height grids) (cellRank : BuiltCell grids → Fin n)
    (suits : mobility.Suits) (suits' : perception.Suits)
    (end_ : EndCondition n A (BuiltCell grids)) (fuel : Nat) (allows : agents.Allows grids fuel end_)
    (group : GroupId) (all : ∀ agent, group ∈ agents.groupIds agent) (position : A → BuiltCell grids)
    (steps : List (A → Option (BuiltCell grids))) :
    ∃ w, (agents.environment grid cellRank).timeSteps group end_ fuel .empty
        ((fun agent => some (position agent)) :: steps) = some w ∧
      (agents.environment grid cellRank).Shows
        (steps.foldl (fun position moves => movedTo moves position) position) w := by
  have every : ∀ agent, (agents.environment grid cellRank).isAgentInGroup agent group :=
    fun agent => decide_eq_true (all agent)
  have enough := allows.enough grid cellRank suits suits' every
  obtain ⟨placed, done, shows⟩ := Environment.placed_shows every enough position
  obtain ⟨w, later, last⟩ := shows.timeSteps every enough steps
  exact ⟨w, by simpa [Environment.timeSteps, done] using later, last⟩

def onEach (n : Nat) (groupIds : List GroupId) (size : Int) :
    GridAgents n (Fin n) VonNeumannRangeConfig MooreRangeConfig where
  agents := List.finRange n
  once := List.nodup_finRange n
  every := List.mem_finRange
  rank agent := agent
  groupIds _ := groupIds
  mobilityRange _ := { size }
  perceptionRange _ := { size }

-- The second agent comes next to the corner where the first one is.
theorem grid_moves_show_five_by_three :
    ∃ (grids : Fin 2 → BuiltGrid 2) (grid : VonNeumann 5 3 grids) (corner start next : BuiltCell grids),
      buildGrid 5 3 .insertion [0] (fun _ => 0) = some grids ∧
      corner.val.location = ⟨0, 0⟩ ∧ start.val.location = ⟨2, 1⟩ ∧ next.val.location = ⟨1, 1⟩ ∧
      ∃ w, ((onEach 2 [1] 1).environment grid fun cell => cell.val.id.rank).timeSteps 1
          DynamicEndCondition 2 .empty
          [fun agent => some (if agent = 0 then corner else start),
            fun agent => if agent = 0 then none else some next] = some w ∧
        w.edges.count (.perception 0 1) = 1 := by
  obtain ⟨grids, built, grid⟩ : ∃ grids : Fin 2 → BuiltGrid 2,
      buildStrips .columns 5 3 .insertion [0] (fun _ => 0) = some grids ∧ VonNeumann 5 3 grids :=
    buildStrips_vonNeumann (by decide) (by decide) .insertion [0] (fun _ => 0) fun point =>
      ⟨fun inside => ⟨inside.along, inside.across⟩, fun inside => ⟨inside.1, inside.2⟩⟩
  have cellAt : ∀ point : DiscretePoint, (0 ≤ point.x ∧ point.x < 5) ∧ 0 ≤ point.y ∧ point.y < 3 →
      ∃ cell : BuiltCell grids, cell.val.location = point := by
    intro point inside
    obtain ⟨cell, listed, here⟩ := List.mem_map.mp ((grid.covers point).mpr inside)
    exact ⟨⟨cell, listed⟩, here⟩
  obtain ⟨corner, first⟩ := cellAt ⟨0, 0⟩ (by decide)
  obtain ⟨start, second⟩ := cellAt ⟨2, 1⟩ (by decide)
  obtain ⟨next, third⟩ := cellAt ⟨1, 1⟩ (by decide)
  have allows : (onEach 2 [1] 1).Allows grids 2 DynamicEndCondition :=
    .dynamic 0 (by decide) (by decide)
  obtain ⟨w, done, shows⟩ := grid_moves_show (onEach 2 [1] 1) grid (fun cell => cell.val.id.rank)
    VonNeumannRangeConfig.suits MooreRangeConfig.suits DynamicEndCondition 2 allows 1
    (fun _ => List.mem_singleton_self 1) (fun agent => if agent = 0 then corner else start)
    [fun agent => if agent = 0 then none else some next]
  have perceived := shows.perceptions 0 1 (by decide)
  refine ⟨grids, grid, corner, start, next, built, first, second, third, w, done,
    perceived.trans (if_pos ?_)⟩
  show decide (ChebyshevDistance corner.val.location next.val.location ≤ 1) = true
  rw [first, third]
  decide

end GridAgents

end Fpmas.Model.Spatial
