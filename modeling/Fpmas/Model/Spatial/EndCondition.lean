import Fpmas.Model.Spatial.Locations

set_option autoImplicit false

namespace Fpmas.Model.Spatial

open Superstep

variable {n : Nat} {A C : Type} [DecidableEq A] [DecidableEq C]

theorem foldl_max_le {radii : List Nat} {start bound : Nat} :
    radii.foldl max start ≤ bound ↔ start ≤ bound ∧ ∀ radius ∈ radii, radius ≤ bound := by
  induction radii generalizing start with
  | nil => simp
  | cons radius rest ih =>
    rw [List.foldl_cons, ih]
    simp [and_assoc]

omit [DecidableEq A] in
theorem foldl_greater {radius : A → Nat} {agents : List A} {start : Nat} :
    agents.foldl (fun greatest agent => if radius agent > greatest then radius agent else greatest)
      start = (agents.map radius).foldl max start := by
  rw [List.foldl_map]
  congr 1
  funext greatest agent
  split
  next greater => exact (Nat.max_eq_right (Nat.le_of_lt greater)).symm
  next smaller => exact (Nat.max_eq_left (Nat.le_of_not_gt smaller)).symm

namespace DynamicEndCondition

variable (env : Environment n A C) (group : GroupId) (w : World A C)

def localMax (p : Fin n) : Nat :=
  ((env.groupAgents group).filter fun agent => env.agentRank agent = p).foldl
    (fun localMax agent => if env.radius w agent > localMax then env.radius w agent else localMax) 0

def maxStep : Nat := (List.ofFn (localMax env group w)).foldl max 0

omit [DecidableEq C] in
theorem maxStep_le {bound : Nat} : maxStep env group w ≤ bound ↔
    ∀ agent, env.isAgentInGroup agent group → env.radius w agent ≤ bound := by
  unfold maxStep
  rw [foldl_max_le, List.forall_mem_ofFn_iff]
  simp only [Nat.zero_le, true_and, localMax, foldl_greater, foldl_max_le, List.forall_mem_map]
  constructor
  next =>
    intro all agent member
    exact all (env.agentRank agent) agent (List.mem_filter.mpr
      ⟨List.mem_filter.mpr ⟨env.every_agent agent, member⟩, decide_eq_true rfl⟩)
  next =>
    intro all p agent listed
    exact all agent (List.mem_filter.mp (List.mem_filter.mp listed).1).2

omit [DecidableEq A] [DecidableEq C] in
theorem groupAgents_le {radius : A → Nat} {bound : Nat} :
    ((env.groupAgents group).map radius).foldl max 0 ≤ bound ↔
      ∀ agent, env.isAgentInGroup agent group → radius agent ≤ bound := by
  rw [foldl_max_le, List.forall_mem_map]
  simp only [Nat.zero_le, true_and, Environment.groupAgents, List.mem_filter, and_imp]
  exact ⟨fun all agent => all agent (env.every_agent agent), fun all agent _ => all agent⟩

omit [DecidableEq C] in
theorem init_eq : DynamicEndCondition.init env group w = (0, maxStep env group w) := by
  have same : ((env.groupAgents group).map (env.radius w)).foldl max 0 = maxStep env group w :=
    eq_of_forall_ge_iff fun bound => by rw [groupAgents_le, maxStep_le]
  rw [← same]
  rfl

end DynamicEndCondition

namespace Environment

def Stands (w : World A C) (agent : A) (cell : C) : Prop :=
  outNeighbors w.edges .LOCATION agent = [cell] ∧ outNeighbors w.edges .NEW_LOCATION agent = [] ∨
    outNeighbors w.edges .LOCATION agent = [] ∧ outNeighbors w.edges .NEW_LOCATION agent = [cell]

theorem Moves.stands_of_stays {env : Environment n A C} {moves : A → Option C} {w moved : World A C}
    (moving : env.Moves moves w moved) {agent : A} {cell : C} (stays : moves agent = none)
    (stood : Stands w agent cell) : Stands moved agent cell := by
  have same : ∀ layer, (outNeighbors moved.edges layer agent).Perm
      (outNeighbors w.edges layer agent) := by
    intro layer
    refine List.perm_iff_count.mpr fun c => ?_
    rw [count_outNeighbors, count_outNeighbors, moving.unmoved layer agent c stays]
  have location := same .LOCATION
  have newLocation := same .NEW_LOCATION
  rcases stood with ⟨here, arrived⟩ | ⟨left_, pending⟩
  next =>
    rw [here] at location
    rw [arrived] at newLocation
    exact .inl ⟨List.perm_singleton.mp location, newLocation.eq_nil⟩
  next =>
    rw [left_] at location
    rw [pending] at newLocation
    exact .inr ⟨location.eq_nil, List.perm_singleton.mp newLocation⟩

theorem Moves.stands_of_goes {env : Environment n A C} {moves : A → Option C} {w moved : World A C}
    (moving : env.Moves moves w moved) {agent : A} {target : C} (goes : moves agent = some target)
    (once : (outNeighbors w.edges .LOCATION agent).length ≤ 1)
    (arrived : outNeighbors w.edges .NEW_LOCATION agent = []) : Stands moved agent target := by
  have left_ : outNeighbors moved.edges .LOCATION agent = [] :=
    List.eq_nil_iff_forall_not_mem.mpr fun c here =>
      moving.location agent target c goes once ((mem_outNeighbors moved.edges).mp here)
  have newLocation : (outNeighbors moved.edges .NEW_LOCATION agent).Perm [target] := by
    refine List.perm_iff_count.mpr fun c => ?_
    rw [count_outNeighbors, moving.newLocation agent target c goes, ← count_outNeighbors, arrived,
      List.count_nil, Nat.zero_add, List.count_singleton]
    simp
  exact .inr ⟨left_, List.perm_singleton.mp newLocation⟩

variable (env : Environment n A C) (group : GroupId)

def radiusAt (agent : A) (cell : C) : Nat :=
  max ((env.mobilityRange agent).radius (some cell)) ((env.perceptionRange agent).radius (some cell))

/-- The loop makes as many rounds as the greatest radius around the cells where the agents go. -/
def EnoughRounds (w : World A C) (cell : A → C) : Prop :=
  ∃ cleared rounds, env.unlinkObsoletePerceptions group w = some cleared ∧
    DynamicEndCondition.LetsRun rounds (DynamicEndCondition.init env group cleared) ∧
    (∀ agent, env.isAgentInGroup agent group →
      (env.mobilityRange agent).radius (some (cell agent)) ≤ rounds ∧
        (env.perceptionRange agent).radius (some (cell agent)) ≤ rounds) ∧
    rounds = ((env.groupAgents group).map fun agent => env.radiusAt agent (cell agent)).foldl max 0

variable {env group} {w : World A C} {cell : A → C}

theorem enoughRounds_iff : EnoughRounds env group w cell ↔ DynamicEndCondition.maxStep env group w =
    ((env.groupAgents group).map fun agent => env.radiusAt agent (cell agent)).foldl max 0 := by
  obtain ⟨cleared, done, clears⟩ := env.unlinkObsoletePerceptions_clears group w
  have radius : env.radius cleared = env.radius w := by
    funext agent
    have location := outNeighbors_congr _ .LOCATION agent (fun _ => rfl) clears.fields
    simp [Environment.radius, location]
  have same : DynamicEndCondition.maxStep env group cleared = DynamicEndCondition.maxStep env group w :=
    eq_of_forall_ge_iff fun bound => by
      rw [DynamicEndCondition.maxStep_le, DynamicEndCondition.maxStep_le, radius]
  have lets := letsRun_dynamic (n := n) (A := A) (C := C) 0 (DynamicEndCondition.maxStep env group w)
    (Nat.zero_le _)
  rw [Nat.sub_zero, ← same, ← DynamicEndCondition.init_eq] at lets
  constructor
  next =>
    rintro ⟨cleared', rounds, done', lets', -, equal⟩
    obtain rfl := Option.some.inj (done.symm.trans done')
    rw [← equal, ← lets.unique lets', same]
  next =>
    intro equal
    refine ⟨cleared, _, done, lets, fun agent member => ?_, same.trans equal⟩
    have below := (DynamicEndCondition.groupAgents_le env group).mp (same.trans equal).ge agent member
    exact max_le_iff.mp below

omit [DecidableEq C] in
theorem radius_of_stays {agent : A} (stands : Stands w agent (cell agent))
    (stays : outNeighbors w.edges .NEW_LOCATION agent = []) :
    env.radius w agent = env.radiusAt agent (cell agent) := by
  rcases stands with ⟨here, _⟩ | ⟨_, goes⟩
  next => rw [radius, here]; rfl
  next => cases goes.symm.trans stays

def ofRadius (radius : Option C → Nat) : Range C where
  contains _ _ := false
  radius := radius

-- The environment where only one agent has a radius, around a cell.
def withRadius (env : Environment n A C) (agent : A) : Environment n A C :=
  { env with
    mobilityRange := fun a => ofRadius fun origin => if a = agent ∧ origin.isSome then 1 else 0
    perceptionRange := fun _ => ofRadius fun _ => 0 }

theorem not_enough_of_goes (env : Environment n A C) {agent : A}
    (member : env.isAgentInGroup agent group) (goes : outNeighbors w.edges .LOCATION agent = []) :
    ¬EnoughRounds (env.withRadius agent) group w cell := by
  rw [enoughRounds_iff]
  intro equal
  have none_ : DynamicEndCondition.maxStep (env.withRadius agent) group w ≤ 0 := by
    rw [DynamicEndCondition.maxStep_le]
    intro a _
    by_cases here : a = agent
    next => simp [Environment.radius, withRadius, ofRadius, here, goes]
    next => simp [Environment.radius, withRadius, ofRadius, here]
  rw [equal, DynamicEndCondition.groupAgents_le] at none_
  have around := none_ agent member
  simp [radiusAt, withRadius, ofRadius] at around

-- The radius is computed around no cell for the agents that have called `moveTo`.
theorem enough_rounds_iff (env : Environment n A C) (group : GroupId) (w : World A C) (cell : A → C)
    (stands : ∀ agent, env.isAgentInGroup agent group → Stands w agent (cell agent)) :
    ((∀ mobility perception : A → Range C, EnoughRounds
        { env with
          mobilityRange := mobility
          perceptionRange := perception } group w cell) ↔
      ∀ agent, env.isAgentInGroup agent group → outNeighbors w.edges .NEW_LOCATION agent = []) ∧
    ((∀ agent, env.isAgentInGroup agent group → outNeighbors w.edges .NEW_LOCATION agent ≠ [] →
        (env.mobilityRange agent).radius none = (env.mobilityRange agent).radius (some (cell agent)) ∧
        (env.perceptionRange agent).radius none =
          (env.perceptionRange agent).radius (some (cell agent))) →
      EnoughRounds env group w cell) := by
  constructor
  case left =>
    constructor
    case mp =>
      intro enough agent member
      rcases stands agent member with ⟨_, stays⟩ | ⟨goes, _⟩
      next => exact stays
      next => exact absurd (enough _ _) (not_enough_of_goes env member goes)
    case mpr =>
      intro stays mobility perception
      rw [enoughRounds_iff]
      refine eq_of_forall_ge_iff fun bound => ?_
      rw [DynamicEndCondition.maxStep_le, DynamicEndCondition.groupAgents_le]
      refine forall₂_congr fun agent member => ?_
      rw [radius_of_stays (stands agent member) (stays agent member)]
  case right =>
    intro same
    rw [enoughRounds_iff]
    refine eq_of_forall_ge_iff fun bound => ?_
    rw [DynamicEndCondition.maxStep_le, DynamicEndCondition.groupAgents_le]
    refine forall₂_congr fun agent member => ?_
    rcases stands agent member with ⟨here, stays⟩ | ⟨goes, new⟩
    next => rw [radius_of_stays (.inl ⟨here, stays⟩) stays]
    next =>
      obtain ⟨mobility, perception⟩ := same agent member (by rw [new]; exact List.cons_ne_nil _ _)
      rw [Environment.radius, goes, List.head?_nil, mobility, perception]
      rfl

theorem enough_rounds_corridor :
    let w : World (Fin 2) (Fin 3) :=
      { World.empty with edges := [.field .LOCATION 0 1, .field .NEW_LOCATION 1 2] }
    EnoughRounds (corridor (fun _ => [1]) fun _ => 2) 1 w (fun agent => if agent = 0 then 1 else 2) ∧
      ¬∀ mobility perception : Fin 2 → Range (Fin 3), EnoughRounds
        { corridor (fun _ => [1]) fun _ => 2 with
          mobilityRange := mobility
          perceptionRange := perception } 1 w fun agent => if agent = 0 then 1 else 2 := by
  intro w
  have stands : ∀ agent, (corridor (fun _ => [1]) fun _ => 2).isAgentInGroup agent 1 →
      Stands w agent (if agent = 0 then 1 else 2) := by
    intro agent _
    unfold Stands
    decide +revert
  obtain ⟨exact_, same⟩ := enough_rounds_iff (corridor (fun _ => [1]) fun _ => 2) 1 w
    (fun agent => if agent = 0 then 1 else 2) stands
  refine ⟨same fun agent _ _ => ⟨rfl, rfl⟩, fun all => ?_⟩
  exact absurd (exact_.mp all 1 (by decide)) (by decide)

-- The two agents of the corridor have just moved to the first cell.
theorem no_round_around_cell : ∃ env : Environment 2 (Fin 2) (Fin 3), ∃ moved,
    env.movePhase (fun _ => some 0) .empty = some moved ∧ (∀ agent, Stands moved agent 0) ∧
      (∀ agent, (env.mobilityRange agent).radius (some 0) = 1) ∧
      DynamicEndCondition.LetsRun 0 (DynamicEndCondition.init env 1 moved) ∧
      ¬EnoughRounds env 1 moved fun _ => 0 := by
  let env : Environment 2 (Fin 2) (Fin 3) :=
    { corridor (fun _ => [1]) fun _ => 0 with
      mobilityRange := fun _ => ofRadius fun origin => if origin.isSome then 1 else 0
      perceptionRange := fun _ => ofRadius fun _ => 0 }
  obtain ⟨moved, ran, moving⟩ := env.movePhase_moves (fun _ => some 0) .empty
  have stands : ∀ agent, Stands moved agent 0 := fun agent =>
    moving.stands_of_goes rfl (Nat.zero_le 1) rfl
  have none_ : DynamicEndCondition.maxStep env 1 moved = 0 := by
    refine Nat.le_zero.mp ((DynamicEndCondition.maxStep_le env 1 moved).mpr fun agent _ => ?_)
    rcases stands agent with ⟨here, _⟩ | ⟨goes, _⟩
    next =>
      have gone := moving.location agent 0 0 rfl (Nat.zero_le 1)
      exact absurd ((mem_outNeighbors moved.edges).mp (here ▸ List.mem_singleton_self 0)) gone
    next => simp [Environment.radius, goes, env, ofRadius]
  refine ⟨env, moved, ran, stands, fun _ => rfl, ?_, ?_⟩
  next =>
    rw [DynamicEndCondition.init_eq, none_]
    rfl
  next =>
    rw [enoughRounds_iff, none_]
    decide

end Environment

end Fpmas.Model.Spatial
