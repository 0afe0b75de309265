import Mathlib.Data.List.Range
import Mathlib.GroupTheory.Perm.Basic
import Mathlib.Algebra.BigOperators.Intervals
import Mathlib.Algebra.Order.BigOperators.Group.Finset
import Fpmas.Model.Spatial.GridNetwork

set_option autoImplicit false

namespace Fpmas.Model.Spatial

-- Counts of agents by coordinates: a point that is not in the maps counts for 0.
abbrev CountMap := Int → Int → Nat

namespace CountMap

def empty : CountMap := fun _ _ => 0

def set (counts : CountMap) (x y : Int) (count : Nat) : CountMap := fun x' y' =>
  if x' = x ∧ y' = y then count else counts x' y'

def merge (counts local_map : CountMap) : CountMap := fun x y => counts x y + local_map x y

end CountMap

section Mapping

-- `draw i` is what the distribution of the i-th swap returns.
variable (grid_width : Int) (n_cell : Nat) (draw : Nat → Nat)

def occupy (n_agent : Nat) : CountMap :=
  (List.range n_agent).foldl
    (fun local_map (i : Nat) => local_map.set (i % grid_width) (i / grid_width) 1) .empty

def swapCells (local_map : CountMap) (i : Nat) : CountMap :=
  let j := i + draw i
  let x_i := i % grid_width
  let y_i := i / grid_width
  let x_j := j % grid_width
  let y_j := j / grid_width
  let old_i := local_map x_i y_i
  (local_map.set x_i y_i (local_map x_j y_j)).set x_j y_j old_i

def shuffle (local_map : CountMap) : CountMap :=
  (List.range (n_cell - 1)).foldl (swapCells grid_width draw) local_map

end Mapping

structure Placement where
  count_map : CountMap
  current_agent_count : Nat

section Mapping

variable (grid_width : Int) (n_cell agent_count max_agent_by_cell : Nat) (draws : Nat → Nat → Nat)

-- The loop, where `left` is `max_agent_by_cell - n`.
def placeRounds : Nat → Nat → Placement → Placement
  | 0, _, placement => placement
  | left + 1, n, placement =>
    if placement.current_agent_count > 0 then
      let n_agent :=
        -- The last iteration takes all the agents that remain.
        if n = max_agent_by_cell - 1 then placement.current_agent_count
        else max 1 (agent_count / max_agent_by_cell)
      placeRounds left (n + 1)
        { count_map := placement.count_map.merge
            (shuffle grid_width n_cell (draws n) (occupy grid_width n_agent))
          current_agent_count := placement.current_agent_count - n_agent }
    else placement

variable (grid_height : Int)

-- The constructor, with the draws of each round.
def constrainedGridAgentMapping : Placement :=
  let start : Placement :=
    { count_map := .empty
      current_agent_count := agent_count }
  -- The product is a `size_t`.
  if (grid_width * grid_height * max_agent_by_cell) % 2 ^ 64 < agent_count then start
  else
    placeRounds grid_width (grid_width * grid_height).toNat agent_count max_agent_by_cell draws
      max_agent_by_cell 0 start

end Mapping

def Placement.countAt (placement : Placement) (location : DiscretePoint) : Nat :=
  placement.count_map location.x location.y

def gridPoints (grid_width grid_height : Int) : List DiscretePoint :=
  Rectangle.points
    { min_x := 0
      max_x := grid_width - 1
      min_y := 0
      max_y := grid_height - 1 }

/-- What the mapping is for. -/
structure Placement.Constrained (placement : Placement) (grid_width grid_height : Int)
    (agent_count max_agent_by_cell : Nat) : Prop where
  total : ((gridPoints grid_width grid_height).map placement.countAt).sum = agent_count
  bound : ∀ location ∈ gridPoints grid_width grid_height, placement.countAt location ≤ max_agent_by_cell

section Shuffle

-- The swaps of a round: the cell `p` gets what was in the cell `swaps n_cell draw p`.
def swaps (n_cell : Nat) (draw : Nat → Nat) : Equiv.Perm Nat :=
  ((List.range (n_cell - 1)).map fun i => Equiv.swap i (i + draw i)).prod

variable {grid_width : Int} {n_cell : Nat} {draw : Nat → Nat}

def CountMap.at_ (counts : CountMap) (grid_width : Int) (i : Nat) : Nat :=
  counts (i % grid_width) (i / grid_width)

theorem same_index {i j : Nat} (column : (i : Int) % grid_width = j % grid_width)
    (row : (i : Int) / grid_width = j / grid_width) : i = j := by
  have first := Int.emod_add_mul_ediv i grid_width
  have second := Int.emod_add_mul_ediv j grid_width
  rw [column, row, second] at first
  exact_mod_cast first.symm

theorem CountMap.at_set (counts : CountMap) (i j count : Nat) :
    (counts.set (i % grid_width) (i / grid_width) count).at_ grid_width j =
      if j = i then count else counts.at_ grid_width j := by
  unfold CountMap.at_ CountMap.set
  by_cases here : j = i
  next => rw [here, if_pos ⟨rfl, rfl⟩, if_pos rfl]
  next => rw [if_neg fun same => here (same_index same.1 same.2), if_neg here]

variable (grid_width) in
theorem at_occupy (n_agent i : Nat) :
    (occupy grid_width n_agent).at_ grid_width i = if i < n_agent then 1 else 0 := by
  unfold occupy
  induction n_agent with
  | zero => rfl
  | succ k ih =>
    rw [List.range_succ, List.foldl_append, List.foldl_cons, List.foldl_nil, CountMap.at_set, ih]
    grind

theorem at_swapCells (local_map : CountMap) (i p : Nat) :
    (swapCells grid_width draw local_map i).at_ grid_width p =
      local_map.at_ grid_width (Equiv.swap i (i + draw i) p) := by
  have read : ∀ k : Nat, local_map (k % grid_width) (k / grid_width) = local_map.at_ grid_width k :=
    fun _ => rfl
  unfold swapCells
  dsimp only
  rw [CountMap.at_set, CountMap.at_set, read, read, Equiv.swap_apply_def]
  grind

theorem at_shuffle (local_map : CountMap) (p : Nat) :
    (shuffle grid_width n_cell draw local_map).at_ grid_width p =
      local_map.at_ grid_width (swaps n_cell draw p) := by
  unfold shuffle swaps
  -- The last swap reads first.
  induction n_cell - 1 generalizing p with
  | zero => rfl
  | succ k ih =>
    rw [List.range_succ, List.foldl_append, List.foldl_cons, List.foldl_nil, at_swapCells, ih,
      List.map_append, List.prod_append]
    simp

end Shuffle

-- The agents that a round leaves in the grid: the one that a swap has put after the last cell is lost.
def placed (n_cell : Nat) (draw : Nat → Nat) (n_agent : Nat) : Nat :=
  ∑ p ∈ Finset.range n_cell, if swaps n_cell draw p < n_agent then 1 else 0

section Round

variable {grid_width : Int} {n_cell : Nat} {draw : Nat → Nat}
  (inclusive : ∀ i < n_cell - 1, draw i ≤ n_cell - i)

include inclusive

-- The draws reach the place that follows the last cell, and nothing after it.
theorem swaps_le_iff (p : Nat) : swaps n_cell draw p ≤ n_cell ↔ p ≤ n_cell := by
  have first : ∀ k ≤ n_cell - 1,
      ((List.range k).map fun i => Equiv.swap i (i + draw i)).prod p ≤ n_cell ↔ p ≤ n_cell := by
    intro k
    induction k generalizing p with
    | zero => simp
    | succ k ih =>
      intro bound
      have reach := inclusive k (by omega)
      rw [List.range_succ, List.map_append, List.prod_append, Equiv.Perm.mul_apply, ih _ (by omega)]
      simp only [List.map_cons, List.map_nil, List.prod_cons, List.prod_nil, mul_one,
        Equiv.swap_apply_def]
      grind
  exact first _ le_rfl

theorem sum_swaps (count : Nat → Nat) :
    ∑ p ∈ Finset.range (n_cell + 1), count (swaps n_cell draw p) =
      ∑ p ∈ Finset.range (n_cell + 1), count p := by
  apply Finset.sum_equiv (swaps n_cell draw)
  next =>
    intro p
    rw [Finset.mem_range, Finset.mem_range, Nat.lt_succ_iff, Nat.lt_succ_iff, swaps_le_iff inclusive]
  next => exact fun p _ => rfl

omit inclusive in
theorem sum_first (n_agent m : Nat) :
    ∑ p ∈ Finset.range m, (if p < n_agent then 1 else 0) = min n_agent m := by
  induction m with
  | zero => simp
  | succ m ih =>
    rw [Finset.sum_range_succ, ih]
    grind

theorem placed_add (n_agent : Nat) :
    placed n_cell draw n_agent + (if swaps n_cell draw n_cell < n_agent then 1 else 0) =
      min n_agent (n_cell + 1) := by
  rw [placed, ← Finset.sum_range_succ, sum_swaps inclusive fun k => if k < n_agent then 1 else 0,
    sum_first]

theorem placed_le (n_agent : Nat) : placed n_cell draw n_agent ≤ n_agent := by
  have all := placed_add inclusive n_agent
  omega

theorem placed_eq_iff (n_agent : Nat) :
    placed n_cell draw n_agent = n_agent ↔ n_agent ≤ swaps n_cell draw n_cell := by
  have all := placed_add inclusive n_agent
  have last := (swaps_le_iff inclusive n_cell).mpr le_rfl
  split at all <;> omega

end Round

theorem swaps_eq_of_inside {n_cell : Nat} {draw : Nat → Nat}
    (inside : ∀ i < n_cell - 1, i + draw i < n_cell) : swaps n_cell draw n_cell = n_cell := by
  have first : ∀ k ≤ n_cell - 1,
      ((List.range k).map fun i => Equiv.swap i (i + draw i)).prod n_cell = n_cell := by
    intro k
    induction k with
    | zero => simp
    | succ k ih =>
      intro bound
      have reach := inside k (by omega)
      rw [List.range_succ, List.map_append, List.prod_append, Equiv.Perm.mul_apply, List.map_singleton,
        List.prod_singleton, Equiv.swap_apply_of_ne_of_ne (by omega) (by omega), ih (by omega)]
  exact first _ le_rfl

section Rounds

variable {grid_width : Int} {n_cell agent_count max_agent_by_cell : Nat} {draws : Nat → Nat → Nat}

-- The agents that a round places when none of the others is the last one.
def agentsByRound (agent_count max_agent_by_cell : Nat) : Nat := max 1 (agent_count / max_agent_by_cell)

def remaining (agent_count max_agent_by_cell n : Nat) : Nat :=
  if n < max_agent_by_cell then agent_count - n * agentsByRound agent_count max_agent_by_cell else 0

def roundAgents (agent_count max_agent_by_cell n : Nat) : Nat :=
  if n = max_agent_by_cell - 1 then remaining agent_count max_agent_by_cell n
  else agentsByRound agent_count max_agent_by_cell

theorem roundAgents_le {n : Nat} (runs : n < max_agent_by_cell)
    (some_ : 0 < remaining agent_count max_agent_by_cell n) :
    roundAgents agent_count max_agent_by_cell n ≤ remaining agent_count max_agent_by_cell n ∧
      remaining agent_count max_agent_by_cell (n + 1) =
        remaining agent_count max_agent_by_cell n - roundAgents agent_count max_agent_by_cell n := by
  unfold roundAgents
  by_cases last : n = max_agent_by_cell - 1
  next =>
    rw [if_pos last]
    exact ⟨le_rfl, by simp only [remaining]; rw [if_neg (by omega)]; omega⟩
  next =>
    rw [if_neg last]
    simp only [remaining, if_pos runs, if_pos (show n + 1 < max_agent_by_cell by omega)] at some_ ⊢
    rw [Nat.add_mul, Nat.one_mul]
    refine ⟨?_, by omega⟩
    -- With fewer agents than rounds, each round places one agent.
    by_cases few : agent_count / max_agent_by_cell = 0
    next =>
      have one : agentsByRound agent_count max_agent_by_cell = 1 := by
        rw [agentsByRound, few]
        rfl
      rw [one] at some_ ⊢
      omega
    next =>
      have quotient : agentsByRound agent_count max_agent_by_cell = agent_count / max_agent_by_cell :=
        max_eq_right (Nat.pos_of_ne_zero few)
      have all : max_agent_by_cell * (agent_count / max_agent_by_cell) ≤ agent_count :=
        Nat.mul_div_le _ _
      have before : (n + 1) * (agent_count / max_agent_by_cell) ≤
          max_agent_by_cell * (agent_count / max_agent_by_cell) := Nat.mul_le_mul_right _ (by omega)
      rw [Nat.add_mul, Nat.one_mul] at before
      rw [quotient]
      omega

/-- Each round keeps all its agents in the grid, from the `n`-th one. -/
def KeepsAll (n_cell agent_count max_agent_by_cell : Nat) (draws : Nat → Nat → Nat) (n : Nat) : Prop :=
  ∀ r, n ≤ r → r < max_agent_by_cell → 0 < remaining agent_count max_agent_by_cell r →
    roundAgents agent_count max_agent_by_cell r ≤ swaps n_cell (draws r) n_cell

theorem keepsAll_iff_of_inside (inside : ∀ n, ∀ i < n_cell - 1, i + draws n i < n_cell) (n : Nat) :
    KeepsAll n_cell agent_count max_agent_by_cell draws n ↔
      ∀ r, n ≤ r → r < max_agent_by_cell → 0 < remaining agent_count max_agent_by_cell r →
        roundAgents agent_count max_agent_by_cell r ≤ n_cell := by
  unfold KeepsAll
  simp only [swaps_eq_of_inside (inside _)]

variable (grid_width n_cell) in
def CountMap.total (counts : CountMap) : Nat := ∑ p ∈ Finset.range n_cell, counts.at_ grid_width p

theorem at_round (counts : CountMap) (draw : Nat → Nat) (n_agent p : Nat) :
    (counts.merge (shuffle grid_width n_cell draw (occupy grid_width n_agent))).at_ grid_width p =
      counts.at_ grid_width p + if swaps n_cell draw p < n_agent then 1 else 0 := by
  rw [← at_occupy grid_width, ← at_shuffle]
  rfl

theorem total_round (counts : CountMap) (draw : Nat → Nat) (n_agent : Nat) :
    (counts.merge (shuffle grid_width n_cell draw (occupy grid_width n_agent))).total grid_width n_cell =
      counts.total grid_width n_cell + placed n_cell draw n_agent := by
  unfold CountMap.total placed
  rw [← Finset.sum_add_distrib]
  exact Finset.sum_congr rfl fun p _ => at_round counts draw n_agent p

theorem remaining_of_none {n : Nat} (none_ : remaining agent_count max_agent_by_cell n = 0) {r : Nat}
    (later : n ≤ r) : remaining agent_count max_agent_by_cell r = 0 := by
  unfold remaining at none_ ⊢
  have further := Nat.mul_le_mul_right (agentsByRound agent_count max_agent_by_cell) later
  split at none_ <;> split <;> omega

theorem keepsAll_succ {n : Nat} (runs : n < max_agent_by_cell)
    (some_ : 0 < remaining agent_count max_agent_by_cell n) :
    KeepsAll n_cell agent_count max_agent_by_cell draws n ↔
      roundAgents agent_count max_agent_by_cell n ≤ swaps n_cell (draws n) n_cell ∧
        KeepsAll n_cell agent_count max_agent_by_cell draws (n + 1) := by
  constructor
  next => exact fun keeps => ⟨keeps n le_rfl runs some_, fun r later => keeps r (by omega)⟩
  next =>
    rintro ⟨here, keeps⟩ r later
    by_cases same : r = n
    next => exact fun _ _ => same ▸ here
    next => exact keeps r (by omega)

variable (inclusive : ∀ n, ∀ i < n_cell - 1, draws n i ≤ n_cell - i)

include inclusive

variable (grid_width) in
theorem placeRounds_spec (left n : Nat) (placement : Placement) (size : n + left = max_agent_by_cell)
    (current : placement.current_agent_count = remaining agent_count max_agent_by_cell n) :
    let result := placeRounds grid_width n_cell agent_count max_agent_by_cell draws left n placement
    result.current_agent_count = 0 ∧
      result.count_map.total grid_width n_cell ≤
        placement.count_map.total grid_width n_cell + remaining agent_count max_agent_by_cell n ∧
      (result.count_map.total grid_width n_cell =
        placement.count_map.total grid_width n_cell + remaining agent_count max_agent_by_cell n ↔
          KeepsAll n_cell agent_count max_agent_by_cell draws n) ∧
      ∀ p, result.count_map.at_ grid_width p ≤ placement.count_map.at_ grid_width p + left := by
  induction left generalizing n placement with
  | zero =>
    have over_ : remaining agent_count max_agent_by_cell n = 0 := by
      unfold remaining
      rw [if_neg (by omega)]
    dsimp only [placeRounds]
    refine ⟨by omega, by omega, ?_, fun p => le_rfl⟩
    rw [over_, Nat.add_zero, eq_self, true_iff]
    exact fun r later before => by omega
  | succ left ih =>
    by_cases some_ : 0 < remaining agent_count max_agent_by_cell n
    next =>
      obtain ⟨fits, next_⟩ := roundAgents_le (by omega) some_
      have n_agent : (if n = max_agent_by_cell - 1 then remaining agent_count max_agent_by_cell n
          else max 1 (agent_count / max_agent_by_cell)) =
            roundAgents agent_count max_agent_by_cell n := rfl
      simp only [placeRounds, n_agent, current, gt_iff_lt, if_pos some_]
      obtain ⟨done, bound, exact_, each⟩ := ih (n + 1)
        { count_map := placement.count_map.merge (shuffle grid_width n_cell (draws n)
            (occupy grid_width (roundAgents agent_count max_agent_by_cell n)))
          current_agent_count := remaining agent_count max_agent_by_cell n -
            roundAgents agent_count max_agent_by_cell n } (by omega) next_.symm
      have here := placed_le (inclusive n) (roundAgents agent_count max_agent_by_cell n)
      have full := placed_eq_iff (inclusive n) (roundAgents agent_count max_agent_by_cell n)
      rw [total_round] at bound exact_
      refine ⟨done, by omega, ?_, ?_⟩
      next =>
        rw [keepsAll_succ (by omega) some_, ← exact_, ← full]
        omega
      next =>
        intro p
        have once := each p
        rw [at_round] at once
        split at once <;> omega
    next =>
      -- The loop ends as soon as all the agents are placed.
      simp only [placeRounds, current, gt_iff_lt, if_neg some_]
      refine ⟨by omega, by omega, ?_, fun p => by omega⟩
      rw [show remaining agent_count max_agent_by_cell n = 0 by omega, Nat.add_zero, eq_self, true_iff]
      intro r later before more
      rw [remaining_of_none (by omega) later] at more
      omega

end Rounds

section Grid

variable {grid_width grid_height : Int} (columns : 1 ≤ grid_width)

include columns

omit columns in
theorem remaining_zero {agent_count max_agent_by_cell : Nat}
    (room : ¬(grid_width * grid_height * max_agent_by_cell) % 2 ^ 64 < agent_count) :
    remaining agent_count max_agent_by_cell 0 = agent_count := by
  unfold remaining
  split
  next => simp
  next none_ =>
    rw [show max_agent_by_cell = 0 by omega] at room
    simp at room
    omega

theorem gridPoints_perm : (gridPoints grid_width grid_height).Perm
    ((List.range (grid_width * grid_height).toNat).map fun (i : Nat) =>
      { x := i % grid_width, y := i / grid_width }) := by
  have once : ((List.range (grid_width * grid_height).toNat).map fun (i : Nat) =>
      ({ x := i % grid_width, y := i / grid_width } : DiscretePoint)).Nodup :=
    List.nodup_range.map fun i j same =>
      same_index (congrArg DiscretePoint.x same) (congrArg DiscretePoint.y same)
  refine (List.perm_ext_iff_of_nodup Rectangle.nodup_points once).mpr fun point => ?_
  rw [Rectangle.mem_points, List.mem_map]
  constructor
  next =>
    rintro ⟨column, row⟩
    dsimp only at column row
    have index : 0 ≤ grid_width * point.y := Int.mul_nonneg (by omega) row.1
    have later : grid_width * (point.y + 1) ≤ grid_width * grid_height :=
      Int.mul_le_mul_of_nonneg_left (by omega) (by omega)
    rw [Int.mul_add, Int.mul_one] at later
    refine ⟨(point.x + grid_width * point.y).toNat, List.mem_range.mpr (by omega), ?_⟩
    rw [Int.toNat_of_nonneg (by omega), Int.add_mul_emod_self_left,
      Int.add_mul_ediv_left _ _ (by omega), Int.emod_eq_of_lt column.1 (by omega),
      Int.ediv_eq_zero_of_lt column.1 (by omega), Int.zero_add]
  next =>
    rintro ⟨i, before, rfl⟩
    rw [List.mem_range] at before
    have inside : (i : Int) < grid_height * grid_width := by
      rw [Int.mul_comm]
      omega
    have row := Int.ediv_lt_of_lt_mul (by omega) inside
    have column := Int.emod_lt_of_pos i (show 0 < grid_width by omega)
    exact ⟨⟨Int.emod_nonneg _ (by omega), by dsimp only; omega⟩,
      ⟨Int.ediv_nonneg (by omega) (by omega), by dsimp only; omega⟩⟩

theorem total_eq (placement : Placement) :
    ((gridPoints grid_width grid_height).map placement.countAt).sum =
      placement.count_map.total grid_width (grid_width * grid_height).toNat := by
  rw [((gridPoints_perm columns).map _).sum_eq, List.map_map]
  rfl

theorem countAt_le_iff (placement : Placement) (bound : Nat) :
    (∀ location ∈ gridPoints grid_width grid_height, placement.countAt location ≤ bound) ↔
      ∀ i < (grid_width * grid_height).toNat, placement.count_map.at_ grid_width i ≤ bound := by
  simp only [(gridPoints_perm columns).mem_iff, List.mem_map, List.mem_range, forall_exists_index, and_imp,
    forall_apply_eq_imp_iff₂]
  rfl

theorem countAt_le (agent_count max_agent_by_cell : Nat) (draws : Nat → Nat → Nat)
    (inclusive : ∀ n, ∀ i < (grid_width * grid_height).toNat - 1,
      draws n i ≤ (grid_width * grid_height).toNat - i) :
    ∀ location ∈ gridPoints grid_width grid_height,
      (constrainedGridAgentMapping grid_width agent_count max_agent_by_cell draws grid_height).countAt
        location ≤ max_agent_by_cell := by
  rw [countAt_le_iff columns]
  intro i _
  unfold constrainedGridAgentMapping
  dsimp only
  split
  next => exact Nat.zero_le _
  next room =>
    obtain ⟨_, _, _, each⟩ := placeRounds_spec grid_width inclusive max_agent_by_cell 0
      { count_map := .empty, current_agent_count := agent_count } (by omega) (remaining_zero room).symm
    exact (each i).trans_eq (Nat.zero_add _)

theorem placement_constrained_iff (agent_count max_agent_by_cell : Nat) (draws : Nat → Nat → Nat)
    (inclusive : ∀ n, ∀ i < (grid_width * grid_height).toNat - 1,
      draws n i ≤ (grid_width * grid_height).toNat - i) :
    (constrainedGridAgentMapping grid_width agent_count max_agent_by_cell draws grid_height).Constrained
        grid_width grid_height agent_count max_agent_by_cell ↔
      (agent_count : Int) ≤ (grid_width * grid_height * max_agent_by_cell) % 2 ^ 64 ∧
        KeepsAll (grid_width * grid_height).toNat agent_count max_agent_by_cell draws 0 := by
  have bound := countAt_le columns agent_count max_agent_by_cell draws inclusive
  have nothing : CountMap.empty.total grid_width (grid_width * grid_height).toNat = 0 :=
    Finset.sum_eq_zero fun _ _ => rfl
  unfold constrainedGridAgentMapping at bound ⊢
  dsimp only at bound ⊢
  by_cases room : (grid_width * grid_height * max_agent_by_cell) % 2 ^ 64 < agent_count
  next =>
    rw [if_pos room]
    constructor
    next =>
      rintro ⟨total, _⟩
      rw [total_eq columns, nothing] at total
      omega
    next => exact fun enough => by omega
  next =>
    rw [if_neg room] at bound ⊢
    have all := remaining_zero room
    obtain ⟨_, _, exact_, _⟩ := placeRounds_spec grid_width inclusive max_agent_by_cell 0
      { count_map := .empty, current_agent_count := agent_count } (by omega) all.symm
    rw [nothing, Nat.zero_add, all] at exact_
    rw [← exact_]
    constructor
    next =>
      rintro ⟨total, _⟩
      rw [total_eq columns] at total
      exact ⟨by omega, total⟩
    next =>
      rintro ⟨_, total⟩
      exact ⟨by rw [total_eq columns]; exact total, bound⟩

end Grid

-- Rounds of one and two agents, of which the first agent goes to the last cell.
theorem placement_constrained_two_by_two :
    (constrainedGridAgentMapping 2 3 2 (fun _ i => if i = 0 then 3 else 0) 2).Constrained 2 2 3 2 := by
  refine (placement_constrained_iff (by decide) 3 2 _ fun _ i _ => ?_).mpr
    ⟨by decide, (keepsAll_iff_of_inside (fun _ i inside => ?_) 0).mpr fun r _ runs _ => ?_⟩
  next =>
    show (if i = 0 then 3 else 0) ≤ 4 - i
    split <;> omega
  next =>
    have last : i < 3 := inside
    show i + (if i = 0 then 3 else 0) < 4
    split <;> omega
  next =>
    revert r
    decide

-- Two ways to lose agents: the first draw of a round is the upper bound, so that the first cell is
-- swapped with the place after the last one; the last round has more agents than there are cells.
theorem agents_lost :
    ¬(constrainedGridAgentMapping 2 4 1 (fun _ i => if i = 0 then 4 else 0) 2).Constrained 2 2 4 1 ∧
      ¬(constrainedGridAgentMapping 2 7 4 (fun _ _ => 0) 1).Constrained 2 1 7 4 := by
  constructor
  next => exact fun placed => absurd placed.total (by decide +kernel)
  next => exact fun placed => absurd placed.total (by decide +kernel)

end Fpmas.Model.Spatial
