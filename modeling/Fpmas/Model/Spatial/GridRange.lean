import Fpmas.Model.Spatial.Fields
import Fpmas.Model.Spatial.VonNeumannNeighborhood

set_option autoImplicit false

namespace Fpmas.Model.Spatial

variable {n : Nat}

def ChebyshevDistance (p1 p2 : DiscretePoint) : Int :=
  max (p2.x - p1.x).natAbs (p2.y - p1.y).natAbs

-- `GridConfig::Distance` of a VonNeumannGrid: the length of the paths between two points.
def VonNeumannGrid.Distance : DiscretePoint → DiscretePoint → Int := ManhattanDistance

structure GridRangeConfig where
  Distance : DiscretePoint → DiscretePoint → Int
  -- The perimeter on a VonNeumannGrid, from the size of the range.
  Perimeter : Int → DiscretePoint

def VonNeumannRangePerimeter (size : Int) : DiscretePoint where
  x := 0
  y := size

def MooreRangePerimeter (size : Int) : DiscretePoint where
  x := size
  y := size

def VonNeumannRangeConfig : GridRangeConfig where
  Distance := ManhattanDistance
  Perimeter := VonNeumannRangePerimeter

def MooreRangeConfig : GridRangeConfig where
  Distance := ChebyshevDistance
  Perimeter := MooreRangePerimeter

structure GridRange (config : GridRangeConfig) where
  size : Int

abbrev VonNeumannRange := GridRange VonNeumannRangeConfig

abbrev MooreRange := GridRange MooreRangeConfig

namespace GridRange

variable {config : GridRangeConfig} (range : GridRange config)

def contains (location_cell cell : GridCell n) : Bool :=
  config.Distance location_cell.location cell.location ≤ range.size

-- The origin is not used. The distance is never negative, so that it is a `size_t` as it is.
def radius (_origin : Option (GridCell n)) : Nat :=
  (VonNeumannGrid.Distance { x := 0, y := 0 } (config.Perimeter range.size)).toNat

-- The range, as the agents see it, where each cell of the environment is a cell of a grid.
def onCells {C : Type} (place : C → GridCell n) : Range C where
  contains origin cell := range.contains (place origin) (place cell)
  radius origin := range.radius (origin.map place)

end GridRange

section Points

-- The point is in the rectangle that has the two others as corners.
structure Between (origin target point : DiscretePoint) : Prop where
  column : min origin.x target.x ≤ point.x ∧ point.x ≤ max origin.x target.x
  row : min origin.y target.y ≤ point.y ∧ point.y ≤ max origin.y target.y

theorem exists_nearer {origin target : DiscretePoint} {k : Nat}
    (apart : ManhattanDistance origin target = k + 1) :
    ∃ nearer, Adjacent nearer target ∧ ManhattanDistance origin nearer = k ∧
      Between origin target nearer := by
  unfold ManhattanDistance at apart
  -- One step along the row as long as the columns differ, and then along the column.
  by_cases column : target.x = origin.x
  next =>
    rcases lt_or_gt_of_ne (show target.y ≠ origin.y by omega) with below | above
    next =>
      refine ⟨{ x := target.x, y := target.y + 1 }, ?_, ?_, ?_, ?_⟩ <;>
        simp only [Adjacent, ManhattanDistance] <;> omega
    next =>
      refine ⟨{ x := target.x, y := target.y - 1 }, ?_, ?_, ?_, ?_⟩ <;>
        simp only [Adjacent, ManhattanDistance] <;> omega
  next =>
    rcases lt_or_gt_of_ne column with before | after
    next =>
      refine ⟨{ x := target.x + 1, y := target.y }, ?_, ?_, ?_, ?_⟩ <;>
        simp only [Adjacent, ManhattanDistance] <;> omega
    next =>
      refine ⟨{ x := target.x - 1, y := target.y }, ?_, ?_, ?_, ?_⟩ <;>
        simp only [Adjacent, ManhattanDistance] <;> omega

theorem eq_of_no_distance {origin target : DiscretePoint}
    (none_ : ManhattanDistance origin target = 0) : target = origin := by
  unfold ManhattanDistance at none_
  obtain ⟨x, y⟩ := target
  obtain ⟨x', y'⟩ := origin
  rw [DiscretePoint.mk.injEq]
  dsimp only at none_
  omega

end Points

/-- What a range needs on a Von Neumann grid. -/
structure GridRangeConfig.Suits (config : GridRangeConfig) : Prop where
  -- The range of a point contains what is on the way to it.
  shape : ∀ {origin target point}, Between origin target point →
    config.Distance origin point ≤ config.Distance origin target
  perimeter : ∀ {origin target size}, config.Distance origin target ≤ size →
    ManhattanDistance origin target ≤
      VonNeumannGrid.Distance { x := 0, y := 0 } (config.Perimeter size)

theorem VonNeumannRangeConfig.suits : VonNeumannRangeConfig.Suits := by
  constructor
  case shape =>
    intro origin target point ⟨column, row⟩
    simp only [VonNeumannRangeConfig, ManhattanDistance]
    omega
  case perimeter =>
    intro origin target size inside
    simp only [VonNeumannRangeConfig, VonNeumannGrid.Distance, VonNeumannRangePerimeter,
      ManhattanDistance] at inside ⊢
    omega

-- A corner of the square is at twice the size of the range.
theorem MooreRangeConfig.suits : MooreRangeConfig.Suits := by
  constructor
  case shape =>
    intro origin target point ⟨column, row⟩
    simp only [MooreRangeConfig, ChebyshevDistance]
    omega
  case perimeter =>
    intro origin target size inside
    simp only [MooreRangeConfig, VonNeumannGrid.Distance, MooreRangePerimeter, ChebyshevDistance,
      ManhattanDistance] at inside ⊢
    omega

section Grid

variable {width height : Int} {grids : Fin n → BuiltGrid n} {config : GridRangeConfig}

variable (grids) in
def Linked (source target : GridCell n) : Prop :=
  { source := source.id, target := target.id } ∈ successors grids

variable (grids) in
-- The ends of the paths of cells of the grid that stay in the range of the origin.
inductive GridPath (range : GridRange config) (origin : GridCell n) : Nat → GridCell n → Prop where
  | start : GridPath range origin 0 origin
  | step {k : Nat} {cell next : GridCell n} (path : GridPath range origin k cell)
      (built : next ∈ builtCells grids) (edge : Linked grids cell next)
      (inside : range.contains origin next = true) : GridPath range origin (k + 1) next

variable (grids) in
-- Continuity and radius, as `Range` requires them.
def Continuous (range : GridRange config) : Prop :=
  ∀ origin ∈ builtCells grids, ∀ cell ∈ builtCells grids, range.contains origin cell = true →
    range.contains origin origin = true ∧ ∃ length ≤ range.radius (some origin), GridPath grids range origin length cell

theorem VonNeumann.linked_of_adjacent (grid : VonNeumann width height grids) {source target : GridCell n}
    (first : source ∈ builtCells grids) (second : target ∈ builtCells grids)
    (adjacent : Adjacent source.location target.location) : Linked grids source target := by
  have once := grid.linked source first target second
  rw [if_pos (show ManhattanDistance source.location target.location = 1 from adjacent)] at once
  exact List.count_pos_iff.mp (by omega)

theorem VonNeumann.exists_between (grid : VonNeumann width height grids) {origin target : GridCell n}
    (first : origin ∈ builtCells grids) (second : target ∈ builtCells grids) {point : DiscretePoint}
    (between : Between origin.location target.location point) :
    ∃ cell ∈ builtCells grids, cell.location = point := by
  obtain ⟨column, row⟩ := (grid.covers _).mp (List.mem_map_of_mem first)
  obtain ⟨column', row'⟩ := (grid.covers _).mp (List.mem_map_of_mem second)
  have inGrid : (0 ≤ point.x ∧ point.x < width) ∧ 0 ≤ point.y ∧ point.y < height := by
    obtain ⟨within_, within'⟩ := between
    omega
  obtain ⟨cell, built, here⟩ := List.mem_map.mp ((grid.covers point).mpr inGrid)
  exact ⟨cell, built, here⟩

theorem VonNeumann.path (grid : VonNeumann width height grids) (suits : config.Suits)
    {range : GridRange config} {origin : GridCell n} (built : origin ∈ builtCells grids) {k : Nat}
    {cell : GridCell n} (member : cell ∈ builtCells grids)
    (distance : ManhattanDistance origin.location cell.location = k)
    (inside : range.contains origin cell = true) : GridPath grids range origin k cell := by
  induction k generalizing cell with
  | zero =>
    have same := eq_of_no_distance distance
    rw [List.inj_on_of_nodup_map grid.once member built same]
    exact .start
  | succ k ih =>
    obtain ⟨point, adjacent, nearer, between⟩ := exists_nearer (k := k) (by exact_mod_cast distance)
    obtain ⟨previous, listed, rfl⟩ := grid.exists_between built member between
    have before : range.contains origin previous = true := by
      have closer := suits.shape between
      simp only [GridRange.contains, decide_eq_true_eq] at inside ⊢
      omega
    exact .step (ih listed nearer before) member (grid.linked_of_adjacent listed member adjacent) inside

theorem VonNeumann.continuous_of_suits (grid : VonNeumann width height grids) (suits : config.Suits)
    (range : GridRange config) : Continuous grids range := by
  intro origin built cell member inside
  have inRange : config.Distance origin.location cell.location ≤ range.size := by
    simpa [GridRange.contains] using inside
  have far := suits.perimeter inRange
  have least : config.Distance origin.location origin.location ≤
      config.Distance origin.location cell.location := suits.shape ⟨by omega, by omega⟩
  have positive : 0 ≤ ManhattanDistance origin.location cell.location := by
    unfold ManhattanDistance
    omega
  refine ⟨?_, (ManhattanDistance origin.location cell.location).toNat, ?_, ?_⟩
  next =>
    simp only [GridRange.contains, decide_eq_true_eq]
    omega
  next =>
    unfold GridRange.radius
    omega
  next => exact grid.path suits built member (Int.toNat_of_nonneg positive).symm inside

theorem ranges_continuous (grid : VonNeumann width height grids) (size : Int) :
    Continuous grids ({ size } : VonNeumannRange) ∧ Continuous grids ({ size } : MooreRange) :=
  ⟨grid.continuous_of_suits VonNeumannRangeConfig.suits _,
    grid.continuous_of_suits MooreRangeConfig.suits _⟩

theorem ranges_continuous_five_by_three :
    ∃ grids : Fin 2 → BuiltGrid 2, buildGrid 5 3 .insertion [0] (fun _ => 0) = some grids ∧
      Continuous grids ({ size := 2 } : VonNeumannRange) ∧
      Continuous grids ({ size := 2 } : MooreRange) := by
  obtain ⟨grids, built, grid⟩ : ∃ grids : Fin 2 → BuiltGrid 2,
      buildStrips .columns 5 3 .insertion [0] (fun _ => 0) = some grids ∧ VonNeumann 5 3 grids :=
    buildStrips_vonNeumann (by decide) (by decide) .insertion [0] (fun _ => 0) fun point =>
      ⟨fun inside => ⟨inside.along, inside.across⟩, fun inside => ⟨inside.1, inside.2⟩⟩
  exact ⟨grids, built, ranges_continuous grid 2⟩

section Environment

variable {A C : Type} {env : Environment n A C} {place : C → GridCell n} {range : GridRange config}

variable (grids env place) in
/-- The cells of the environment are the cells of the grid. -/
structure OnGrid : Prop where
  built : ∀ cell, place cell ∈ builtCells grids
  once : Function.Injective place
  onto : ∀ cell ∈ builtCells grids, ∃ c, place c = cell
  edges : ∀ {source target}, Linked grids (place source) (place target) → target ∈ env.successors source

theorem OnGrid.path (onGrid : OnGrid grids env place) {origin cell : C} {k : Nat} {end_ : GridCell n}
    (path : GridPath grids range (place origin) k end_) (here : place cell = end_) :
    env.Within (range.onCells place) origin k cell := by
  induction path generalizing cell with
  | start =>
    rw [onGrid.once here]
    exact .start
  | step path built edge inside ih =>
    subst here
    cases path with
    | start => exact .step .start (onGrid.edges edge) inside
    | step path built' edge' inside' =>
      obtain ⟨previous, rfl⟩ := onGrid.onto _ built'
      exact .step (ih rfl) (onGrid.edges edge) inside

theorem OnGrid.reach (onGrid : OnGrid grids env place) (continuous : Continuous grids range)
    {origin cell : C} (inside : (range.onCells place).contains origin cell = true) :
    ∃ k ≤ (range.onCells place).radius (some origin), env.Within (range.onCells place) origin k cell := by
  obtain ⟨_, length, bound, path⟩ :=
    continuous _ (onGrid.built origin) _ (onGrid.built cell) inside
  exact ⟨length, bound, onGrid.path path rfl⟩

end Environment

end Grid

end Fpmas.Model.Spatial
