import Fpmas.Model.Spatial.CellPhase

set_option autoImplicit false

namespace Fpmas.Model.Spatial

open Superstep

variable {n : Nat} {A C : Type} [DecidableEq A] [DecidableEq C]

namespace Environment

variable (env : Environment n A C) (group : GroupId)

omit [DecidableEq A] [DecidableEq C] in
@[simp]
theorem mem_groupAgents {agent : A} :
    agent ∈ env.groupAgents group ↔ env.isAgentInGroup agent group = true := by
  simp [groupAgents, env.every_agent]

omit [DecidableEq A] [DecidableEq C] in
theorem groupAgents_nodup : (env.groupAgents group).Nodup := env.agents_once.filter _

section Phase

variable {handler : A → Handler Unit (Edge A C)} {sees : A → Edge A C → Bool}

theorem agentPhase_eq (separate : Separate handler sees) (w : World A C)
    {calls : A → List (Call (Edge A C))}
    (each : ∀ agent, env.isAgentInGroup agent group →
      handler agent () w.edges = some ((), calls agent)) :
    env.agentPhase handler group w =
      some { w with edges := Call.applyAll ((env.groupAgents group).flatMap calls) w.edges } := by
  unfold agentPhase
  rw [phase_eq env.agentRank separate (env.groupAgents_nodup group) fun agent member =>
    each agent ((env.mem_groupAgents group).mp member)]
  rfl

theorem isSome_of_agentPhase (separate : Separate handler sees) {w w' : World A C}
    (ended : env.agentPhase handler group w = some w') {agent : A}
    (member : env.isAgentInGroup agent group) : (handler agent () w.edges).isSome := by
  have done : (phase env.agentRank handler (env.groupAgents group) w.edges fun _ => ()).isSome := by
    by_contra failed
    rw [Option.not_isSome_iff_eq_none] at failed
    simp [agentPhase, failed] at ended
  exact isSome_of_phase env.agentRank separate (env.groupAgents_nodup group) done agent
    ((env.mem_groupAgents group).mpr member)

end Phase

section Agent

variable (agent : A) (kind : Kind) (location : C)

def cropCalls (edges : List (Edge A C)) : List (Call (Edge A C)) :=
  ((outNeighbors edges kind.fresh agent).foldl (env.cropCell agent kind location)
    (outNeighbors edges kind.layer agent, [])).2

omit [DecidableEq A] in
theorem mem_cropCells {cells ids : List C} {calls : List (Call (Edge A C))} {call : Call (Edge A C)}
    (made : call ∈ (cells.foldl (env.cropCell agent kind location) (ids, calls)).2) :
    call ∈ calls ∨ ∃ cell, call = .link (.field kind.layer agent cell) ∨
      call = .unlink (.field kind.fresh agent cell) := by
  induction cells generalizing ids calls with
  | nil => exact .inl made
  | cons cell rest ih =>
    rw [List.foldl_cons, cropCell] at made
    split at made
    next =>
      rcases ih made with earlier | later
      next =>
        simp only [List.mem_append, List.mem_cons, List.not_mem_nil, or_false] at earlier
        rcases earlier with earlier | linked | unlinked
        next => exact .inl earlier
        next => exact .inr ⟨cell, .inl linked⟩
        next => exact .inr ⟨cell, .inr unlinked⟩
      next => exact .inr later
    next =>
      rcases ih made with earlier | later
      next =>
        simp only [List.mem_append, List.mem_cons, List.not_mem_nil, or_false] at earlier
        rcases earlier with earlier | unlinked
        next => exact .inl earlier
        next => exact .inr ⟨cell, .inr unlinked⟩
      next => exact .inr later

theorem mem_cropCalls {edges : List (Edge A C)} {call : Call (Edge A C)}
    (made : call ∈ env.cropCalls agent kind location edges) :
    ∃ cell, call = .link (.field kind.layer agent cell) ∨
      call = .unlink (.field kind.fresh agent cell) :=
  (env.mem_cropCells agent kind location made).resolve_left List.not_mem_nil

theorem count_unlink_cropCells (cells ids : List C) (calls : List (Call (Edge A C))) (cell : C) :
    (cells.foldl (env.cropCell agent kind location) (ids, calls)).2.count
        (.unlink (.field kind.fresh agent cell)) =
      calls.count (.unlink (.field kind.fresh agent cell)) + cells.count cell := by
  induction cells generalizing ids calls with
  | nil => rfl
  | cons head rest ih =>
    rw [List.foldl_cons, cropCell]
    split
    all_goals
      rw [ih]
      by_cases here : head = cell
      next =>
        simp [here, List.count_append]
        omega
      next => simp [here, List.count_append]

theorem count_link_cropCells (cells ids : List C) (calls : List (Call (Edge A C))) (cell : C) :
    (cells.foldl (env.cropCell agent kind location) (ids, calls)).2.count
        (.link (.field kind.layer agent cell)) =
      calls.count (.link (.field kind.layer agent cell)) +
        if cell ∈ cells ∧ cell ∉ ids ∧ (env.range kind agent).contains location cell then 1 else 0 := by
  induction cells generalizing ids calls with
  | nil => simp
  | cons head rest ih =>
    rw [List.foldl_cons, cropCell]
    split
    next kept =>
      rw [ih]
      by_cases here : head = cell
      next =>
        subst here
        simp [List.count_append, kept.1, kept.2]
      next => simp [here, Ne.symm here, List.count_append]
    next dropped =>
      rw [ih]
      by_cases here : head = cell
      next =>
        subst here
        have out : ¬(head ∉ ids ∧ (env.range kind agent).contains location head) := dropped
        simp [List.count_append, out]
      next => simp [Ne.symm here, List.count_append]

theorem count_fresh_cropCalls (edges : List (Edge A C)) (cell : C) :
    (env.cropCalls agent kind location edges).count (.unlink (.field kind.fresh agent cell)) =
      edges.count (.field kind.fresh agent cell) := by
  rw [cropCalls, count_unlink_cropCells, count_outNeighbors]
  simp

theorem count_layer_cropCalls (edges : List (Edge A C)) (cell : C) :
    (env.cropCalls agent kind location edges).count (.link (.field kind.layer agent cell)) =
      if .field kind.fresh agent cell ∈ edges ∧ .field kind.layer agent cell ∉ edges ∧
        (env.range kind agent).contains location cell then 1 else 0 := by
  rw [cropCalls, count_link_cropCells]
  simp

variable {agent kind location} {edges edges' : List (Edge A C)}

def agentCalls (agent : A) (location : C) (edges : List (Edge A C)) : List (Call (Edge A C)) :=
  env.cropCalls agent .mobility location edges ++ env.cropCalls agent .perception location edges

theorem outNeighbors_applyAll (edges : List (Edge A C)) {calls : List (Call (Edge A C))}
    {layer : Field} (other : ∀ call ∈ calls, ∀ cell, call.edge ≠ .field layer agent cell) :
    outNeighbors (Call.applyAll calls edges) layer agent = outNeighbors edges layer agent := by
  refine outNeighbors_congr (edgesFrom layer agent) layer agent (fun cell => by simp [edgesFrom]) ?_
  refine Call.filter_applyAll _ calls edges fun call member => ?_
  have apart := other call member
  cases about : call.edge with
  | field l a cell =>
    simp only [edgesFrom, decide_eq_false_iff_not]
    rintro ⟨rfl, rfl⟩
    exact apart cell about
  | perception a b => rfl

theorem spatialAgentBehaviors_eq :
    env.spatialAgentBehaviors agent () edges =
      (outNeighbors edges .LOCATION agent).head?.map fun location =>
        ((), env.agentCalls agent location edges) := by
  have kept : ∀ location layer, layer ≠ (Kind.mobility).layer → layer ≠ (Kind.mobility).fresh →
      outNeighbors (Call.applyAll (env.cropCalls agent .mobility location edges) edges) layer agent =
        outNeighbors edges layer agent := by
    intro location layer notLayer notFresh
    refine outNeighbors_applyAll edges fun call made cell => ?_
    obtain ⟨c, rfl | rfl⟩ := env.mem_cropCalls _ _ _ made
    next => simp [Call.edge, Ne.symm notLayer]
    next => simp [Call.edge, Ne.symm notFresh]
  have location := fun l => kept l .LOCATION (by simp) (by simp)
  have perceived := fun l => kept l (Kind.perception).layer (by simp) (by simp)
  have fresh := fun l => kept l (Kind.perception).fresh (by simp) (by simp)
  unfold spatialAgentBehaviors Handler.andThen handleNewMove handleNewPerceive crop
  cases located : (outNeighbors edges .LOCATION agent).head? with
  | none => rfl
  | some l =>
    simp only [cropCalls] at location perceived fresh
    simp only [Option.map_some, Option.bind_eq_bind, Option.bind_some, location, perceived, fresh,
      located]
    rfl

theorem mem_agentCalls {call : Call (Edge A C)}
    (made : call ∈ env.agentCalls agent location edges) :
    ∃ kind : Kind, ∃ cell, call = .link (.field kind.layer agent cell) ∨
      call = .unlink (.field kind.fresh agent cell) := by
  rcases List.mem_append.mp made with moved | perceived
  next => exact ⟨.mobility, env.mem_cropCalls _ _ _ moved⟩
  next => exact ⟨.perception, env.mem_cropCalls _ _ _ perceived⟩

theorem count_fresh_agentCalls (cell : C) :
    (env.agentCalls agent location edges).count (.unlink (.field kind.fresh agent cell)) =
      edges.count (.field kind.fresh agent cell) := by
  have none : ∀ other : Kind, other ≠ kind →
      (env.cropCalls agent other location edges).count (.unlink (.field kind.fresh agent cell)) = 0 := by
    intro other apart
    refine List.count_eq_zero.mpr fun made => ?_
    obtain ⟨c, same | same⟩ := env.mem_cropCalls _ _ _ made
    next => simp at same
    next => simp [apart.symm] at same
  rw [agentCalls, List.count_append]
  cases kind with
  | mobility => rw [none .perception (by simp), count_fresh_cropCalls, Nat.add_zero]
  | perception => rw [none .mobility (by simp), count_fresh_cropCalls, Nat.zero_add]

theorem count_layer_agentCalls (cell : C) :
    (env.agentCalls agent location edges).count (.link (.field kind.layer agent cell)) =
      if .field kind.fresh agent cell ∈ edges ∧ .field kind.layer agent cell ∉ edges ∧
        (env.range kind agent).contains location cell then 1 else 0 := by
  have none : ∀ other : Kind, other ≠ kind →
      (env.cropCalls agent other location edges).count (.link (.field kind.layer agent cell)) = 0 := by
    intro other apart
    refine List.count_eq_zero.mpr fun made => ?_
    obtain ⟨c, same | same⟩ := env.mem_cropCalls _ _ _ made
    next => simp [apart.symm] at same
    next => simp at same
  rw [agentCalls, List.count_append]
  cases kind with
  | mobility => rw [none .perception (by simp), count_layer_cropCalls, Nat.add_zero]
  | perception => rw [none .mobility (by simp), count_layer_cropCalls, Nat.zero_add]

def fieldsFrom (agent : A) : Edge A C → Bool
  | .field _ a _ => a = agent
  | .perception _ _ => false

theorem spatialAgentBehaviors_separate : Separate env.spatialAgentBehaviors fieldsFrom where
  reads := by
    rintro agent ⟨⟩ edges edges' same
    have read : ∀ layer, outNeighbors edges layer agent = outNeighbors edges' layer agent :=
      fun layer => outNeighbors_congr _ _ _ (by simp [fieldsFrom]) same
    simp [spatialAgentBehaviors_eq, agentCalls, cropCalls, read]
  apart := by
    rintro agent other ⟨⟩ edges result apart ran call made
    rw [spatialAgentBehaviors_eq, Option.map_eq_some_iff] at ran
    obtain ⟨location, -, rfl⟩ := ran
    obtain ⟨kind, c, rfl | rfl⟩ := env.mem_agentCalls made
    all_goals simp [Call.edge, fieldsFrom, apart.symm]

end Agent

-- What the agents of a group do in a round.
structure Crops (w w' : World A C) : Prop where
  located : ∀ agent, env.isAgentInGroup agent group →
    ∃ cell, .field .LOCATION agent cell ∈ w.edges
  kept : ∀ layer agent cell, layer = .LOCATION ∨ layer = .NEW_LOCATION →
    w'.edges.count (.field layer agent cell) = w.edges.count (.field layer agent cell)
  others : ∀ layer agent cell, env.isAgentInGroup agent group = false →
    w'.edges.count (.field layer agent cell) = w.edges.count (.field layer agent cell)
  perceptions : ∀ agent perceived, w'.edges.count (.perception agent perceived) =
    w.edges.count (.perception agent perceived)
  cropped : ∀ (kind : Kind) agent cell, env.isAgentInGroup agent group →
    .field kind.fresh agent cell ∉ w'.edges
  field : ∀ (kind : Kind) agent cell location, env.isAgentInGroup agent group →
    (outNeighbors w.edges .LOCATION agent).head? = some location →
    w'.edges.count (.field kind.layer agent cell) = w.edges.count (.field kind.layer agent cell) +
      if .field kind.fresh agent cell ∈ w.edges ∧ .field kind.layer agent cell ∉ w.edges ∧
        (env.range kind agent).contains location cell then 1 else 0
  flags : w'.flags = w.flags
  locationId : w'.locationId = w.locationId

theorem crops_of_located {w : World A C}
    (located : ∀ agent, env.isAgentInGroup agent group →
      ∃ cell, .field .LOCATION agent cell ∈ w.edges) :
    ∃ w', env.agentPhase env.spatialAgentBehaviors group w = some w' ∧ env.Crops group w w' := by
  have first : ∀ agent, env.isAgentInGroup agent group →
      ∃ location, (outNeighbors w.edges .LOCATION agent).head? = some location := by
    intro agent member
    obtain ⟨cell, here⟩ := located agent member
    rw [← Option.isSome_iff_exists, List.isSome_head?]
    exact List.ne_nil_of_mem ((mem_outNeighbors w.edges).mpr here)
  let calls : A → List (Call (Edge A C)) := fun agent =>
    ((env.spatialAgentBehaviors agent () w.edges).getD ((), [])).2
  have each : ∀ agent location, (outNeighbors w.edges .LOCATION agent).head? = some location →
      calls agent = env.agentCalls agent location w.edges := by
    intro agent location here
    simp [calls, spatialAgentBehaviors_eq, here]
  have ran : ∀ agent, env.isAgentInGroup agent group →
      env.spatialAgentBehaviors agent () w.edges = some ((), calls agent) := by
    intro agent member
    obtain ⟨location, here⟩ := first agent member
    rw [each agent location here, spatialAgentBehaviors_eq, here]
    rfl
  refine ⟨_, env.agentPhase_eq group env.spatialAgentBehaviors_separate w ran, ?_⟩
  have made : ∀ call ∈ (env.groupAgents group).flatMap calls, ∃ agent,
      env.isAgentInGroup agent group ∧ ∃ kind : Kind, ∃ cell,
        call = .link (.field kind.layer agent cell) ∨
          call = .unlink (.field kind.fresh agent cell) := by
    intro call listed
    obtain ⟨agent, member, listed⟩ := List.mem_flatMap.mp listed
    have member := (env.mem_groupAgents group).mp member
    obtain ⟨location, here⟩ := first agent member
    rw [each agent location here] at listed
    exact ⟨agent, member, env.mem_agentCalls listed⟩
  have own : ∀ layer agent cell, ∀ a ∈ env.groupAgents group, a ≠ agent → ∀ call ∈ calls a,
      call.edge ≠ .field layer agent cell := by
    intro layer agent cell a member apart call listed
    obtain ⟨location, here⟩ := first a ((env.mem_groupAgents group).mp member)
    rw [each a location here] at listed
    obtain ⟨kind, c, rfl | rfl⟩ := env.mem_agentCalls listed
    all_goals simp [Call.edge, apart]
  constructor
  case located => exact located
  case kept =>
    intro layer agent cell occupied
    refine Call.count_untouched _ fun call listed => ?_
    obtain ⟨a, -, kind, c, rfl | rfl⟩ := made call listed
    all_goals rcases occupied with rfl | rfl <;> simp [Call.edge]
  case others =>
    intro layer agent cell outside
    refine Call.count_untouched _ fun call listed => ?_
    obtain ⟨a, member, kind, c, rfl | rfl⟩ := made call listed
    all_goals
      have apart : a ≠ agent := fun same => by simp [same, outside] at member
      simp [Call.edge, apart]
  case perceptions =>
    intro agent perceived
    refine Call.count_untouched _ fun call listed => ?_
    obtain ⟨a, -, kind, c, rfl | rfl⟩ := made call listed
    all_goals simp [Call.edge]
  case cropped =>
    intro kind agent cell member
    obtain ⟨location, here⟩ := first agent member
    rw [← List.count_eq_zero, Call.count_of_owner _ (env.groupAgents_nodup group)
        ((env.mem_groupAgents group).mpr member) (own kind.fresh agent cell),
      each agent location here, Call.count_of_unlinked, count_fresh_agentCalls, Nat.sub_self]
    intro linked
    obtain ⟨k, c, same | same⟩ := env.mem_agentCalls linked
    all_goals simp at same
  case field =>
    intro kind agent cell location member here
    rw [Call.count_of_owner _ (env.groupAgents_nodup group)
        ((env.mem_groupAgents group).mpr member) (own kind.layer agent cell),
      each agent location here, Call.count_of_linked, count_layer_agentCalls]
    intro unlinked
    obtain ⟨k, c, same | same⟩ := env.mem_agentCalls unlinked
    all_goals simp at same
  case flags => rfl
  case locationId => rfl

theorem crops_of_phase {w w' : World A C}
    (ended : env.agentPhase env.spatialAgentBehaviors group w = some w') : env.Crops group w w' := by
  have located : ∀ agent, env.isAgentInGroup agent group →
      ∃ cell, .field .LOCATION agent cell ∈ w.edges := by
    intro agent member
    have good := env.isSome_of_agentPhase group env.spatialAgentBehaviors_separate ended member
    rw [spatialAgentBehaviors_eq, Option.isSome_map, List.isSome_head?] at good
    obtain ⟨cell, here⟩ := List.exists_mem_of_ne_nil _ (by simpa using good)
    exact ⟨cell, (mem_outNeighbors w.edges).mp here⟩
  obtain ⟨w'', ran, crops⟩ := env.crops_of_located group located
  obtain rfl := Option.some.inj (ran.symm.trans ended)
  exact crops

end Environment

end Fpmas.Model.Spatial
