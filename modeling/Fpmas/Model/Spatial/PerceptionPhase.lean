import Fpmas.Model.Spatial.AgentPhase

set_option autoImplicit false

namespace Fpmas.Model.Spatial

open Superstep

variable {n : Nat} {A C : Type} [DecidableEq A] [DecidableEq C]

def isField : Edge A C → Bool
  | .field _ _ _ => true
  | .perception _ _ => false

section Fields

variable {edges edges' : List (Edge A C)}

theorem count_field_congr (same : edges'.filter isField = edges.filter isField) (layer : Field)
    (agent : A) (cell : C) :
    edges'.count (.field layer agent cell) = edges.count (.field layer agent cell) := by
  have kept : ∀ list : List (Edge A C), (list.filter isField).count (.field layer agent cell) =
      list.count (.field layer agent cell) := fun list => List.count_filter rfl
  rw [← kept, same, kept]

theorem mem_field_congr (same : edges'.filter isField = edges.filter isField) (layer : Field)
    (agent : A) (cell : C) :
    .field layer agent cell ∈ edges' ↔ .field layer agent cell ∈ edges := by
  rw [← List.count_pos_iff, count_field_congr same, List.count_pos_iff]

end Fields

namespace Environment

variable (env : Environment n A C) (group : GroupId)

-- What the algorithm does to the perceptions before its first round.
structure Clears (w w' : World A C) : Prop where
  fields : w'.edges.filter isField = w.edges.filter isField
  obsolete : ∀ agent perceived, env.isAgentInGroup agent group ∨ env.isAgentInGroup perceived group →
    .perception agent perceived ∉ w'.edges
  kept : ∀ agent perceived, env.isAgentInGroup agent group = false →
    env.isAgentInGroup perceived group = false →
    w'.edges.count (.perception agent perceived) = w.edges.count (.perception agent perceived)
  flags : w'.flags = w.flags
  locationId : w'.locationId = w.locationId

omit [DecidableEq C] in
theorem unlinkPerceptions_separate :
    Separate (E := Edge A C) unlinkPerceptions fun agent edge =>
      match edge with
      | .field _ _ _ => false
      | .perception a _ => a = agent where
  reads := by
    intro agent _ edges edges' same
    have read := perceptions_congr _ agent (by simp) same
    simp [unlinkPerceptions, read]
  apart := by
    intro agent other _ edges result apart ran call made
    obtain rfl := Option.some.inj ran
    obtain ⟨perceived, -, rfl⟩ := List.mem_map.mp made
    simp [Call.edge, apart.symm]

omit [DecidableEq C] in
theorem unlinkPerceivers_separate :
    Separate (E := Edge A C) unlinkPerceivers fun agent edge =>
      match edge with
      | .field _ _ _ => false
      | .perception _ b => b = agent where
  reads := by
    intro agent _ edges edges' same
    have read := perceivers_congr _ agent (by simp) same
    simp [unlinkPerceivers, read]
  apart := by
    intro agent other _ edges result apart ran call made
    obtain rfl := Option.some.inj ran
    obtain ⟨perceiver, -, rfl⟩ := List.mem_map.mp made
    simp [Call.edge, apart.symm]

-- The agents of the group unlink all the perceptions that they read: `name` says which ones.
theorem unlinked_phase {handler : A → Handler Unit (Edge A C)} {sees : A → Edge A C → Bool}
    {read : List (Edge A C) → A → List A} (name : A → A → Edge A C)
    (separate : Separate handler sees)
    (calls : ∀ agent edges, handler agent () edges =
      some ((), (read edges agent).map fun other => .unlink (name agent other)))
    (named : ∀ edges agent other, (read edges agent).count other = edges.count (name agent other))
    (injective : ∀ agent other agent' other', name agent other = name agent' other' →
      agent = agent' ∧ other = other')
    (hidden : ∀ agent other, isField (name agent other) = false) (w : World A C) :
    ∃ w', env.agentPhase handler group w = some w' ∧
      w'.edges.filter isField = w.edges.filter isField ∧
      (∀ agent other, w'.edges.count (name agent other) =
        if env.isAgentInGroup agent group then 0 else w.edges.count (name agent other)) ∧
      w'.flags = w.flags ∧ w'.locationId = w.locationId := by
  refine ⟨_, env.agentPhase_eq group separate w fun agent _ => calls agent w.edges,
    ?_, ?_, rfl, rfl⟩
  next =>
    refine Call.filter_applyAll _ _ _ fun call member => ?_
    obtain ⟨agent, -, made⟩ := List.mem_flatMap.mp member
    obtain ⟨other, -, rfl⟩ := List.mem_map.mp made
    exact hidden agent other
  next =>
    intro agent other
    split
    next member =>
      have mine : ((read w.edges agent).map fun b => Call.unlink (name agent b)).count
          (.unlink (name agent other)) = w.edges.count (name agent other) := by
        rw [List.count_map_of_injective _ (fun b => Call.unlink (name agent b)), named]
        exact fun b b' same => (injective _ _ _ _ (Call.unlink.inj same)).2
      rw [Call.count_of_owner _ (env.groupAgents_nodup group)
          ((env.mem_groupAgents group).mpr member),
        Call.count_of_unlinked _ (by simp), mine, Nat.sub_self]
      intro a _ apart call made
      obtain ⟨b, -, rfl⟩ := List.mem_map.mp made
      exact fun same => apart (injective _ _ _ _ same).1
    next outside =>
      refine Call.count_untouched _ fun call listed => ?_
      obtain ⟨a, member, made⟩ := List.mem_flatMap.mp listed
      obtain ⟨b, -, rfl⟩ := List.mem_map.mp made
      intro same
      obtain rfl := (injective _ _ _ _ same).1
      exact outside ((env.mem_groupAgents group).mp member)

theorem unlinkObsoletePerceptions_clears (w : World A C) :
    ∃ w', env.unlinkObsoletePerceptions group w = some w' ∧ env.Clears group w w' := by
  obtain ⟨w₁, first, fields₁, out, flags₁, location₁⟩ := env.unlinked_phase group
    Edge.perception unlinkPerceptions_separate (fun _ _ => rfl) count_perceptions
    (fun _ _ _ _ same => Edge.perception.inj same) (fun _ _ => rfl) w
  obtain ⟨w₂, second, fields₂, into, flags₂, location₂⟩ := env.unlinked_phase group
    (fun agent perceiver => .perception perceiver agent) unlinkPerceivers_separate (fun _ _ => rfl) count_perceivers
    (fun _ _ _ _ same => (Edge.perception.inj same).symm) (fun _ _ => rfl) w₁
  refine ⟨w₂, by simp [unlinkObsoletePerceptions, first, second], ?_⟩
  constructor
  case fields => exact fields₂.trans fields₁
  case obsolete =>
    intro agent perceived inGroup
    rw [← List.count_eq_zero, into, out]
    rcases inGroup with member | member
    next => simp [member]
    next => simp [member]
  case kept =>
    intro agent perceived outside outside'
    rw [into, out]
    simp [outside, outside']
  case flags => exact flags₂.trans flags₁
  case locationId => exact location₂.trans location₁

section Update

variable (edges : List (Edge A C)) (cell : C)

def perceptionCalls : List (Call (Edge A C)) :=
  (inNeighbors edges .PERCEIVE cell).flatMap fun agent =>
    (inNeighbors edges .LOCATION cell).flatMap fun perceived =>
      if env.isAgentInGroup agent group || env.isAgentInGroup perceived group then
        if perceived ≠ agent then [.link (.perception agent perceived)] else []
      else []

variable {edges cell}

theorem mem_perceptionCalls {call : Call (Edge A C)} :
    call ∈ env.perceptionCalls group edges cell ↔ ∃ agent perceived,
      .field .PERCEIVE agent cell ∈ edges ∧ .field .LOCATION perceived cell ∈ edges ∧
        (env.isAgentInGroup agent group ∨ env.isAgentInGroup perceived group) ∧
        perceived ≠ agent ∧ call = .link (.perception agent perceived) := by
  simp only [perceptionCalls, List.mem_flatMap, mem_inNeighbors]
  constructor
  next =>
    rintro ⟨agent, perceives, perceived, located, made⟩
    split at made
    next inGroup =>
      split at made
      next apart =>
        exact ⟨agent, perceived, perceives, located, by simpa using inGroup, apart, by simpa using made⟩
      next => simp at made
    next => simp at made
  next =>
    rintro ⟨agent, perceived, perceives, located, inGroup, apart, rfl⟩
    refine ⟨agent, perceives, perceived, located, ?_⟩
    rw [if_pos (by simpa using inGroup), if_pos apart]
    simp

theorem count_perceptionCalls {agent perceived : A} (apart : perceived ≠ agent)
    (inGroup : env.isAgentInGroup agent group ∨ env.isAgentInGroup perceived group) :
    (env.perceptionCalls group edges cell).count (.link (.perception agent perceived)) =
      edges.count (.field .PERCEIVE agent cell) * edges.count (.field .LOCATION perceived cell) := by
  unfold perceptionCalls
  rw [← count_inNeighbors, ← count_inNeighbors]
  refine count_flatMap (fun a => ?_) _
  split
  next here =>
    subst here
    refine (count_flatMap (k := 1) (fun b => ?_) _).trans (Nat.mul_one _)
    by_cases same : b = perceived
    next =>
      subst same
      simp [inGroup, apart]
    next =>
      split
      next => split <;> simp [same]
      next => simp
  next other =>
    refine List.count_eq_zero.mpr fun made => ?_
    obtain ⟨b, -, made⟩ := List.mem_flatMap.mp made
    split at made
    next =>
      split at made
      next =>
        have same : agent = a ∧ perceived = b := by simpa using made
        exact other same.1.symm
      next => simp at made
    next => simp at made

theorem updatePerceptions_separate :
    Separate (fun cell => env.updatePerceptions cell group) fun cell edge =>
      match edge with
      | .field _ _ c => decide (c = cell)
      | .perception _ _ => false where
  reads := by
    intro cell _ edges edges' same
    have perceived := inNeighbors_congr _ .PERCEIVE cell (by simp) same
    have located := inNeighbors_congr _ .LOCATION cell (by simp) same
    simp [updatePerceptions, perceived, located]
  apart := by
    intro cell other _ edges result apart ran call made
    obtain rfl := Option.some.inj ran
    obtain ⟨agent, perceived, -, -, -, -, rfl⟩ := (env.mem_perceptionCalls group).mp made
    rfl

-- What the cells do after the last round.
structure Perceives (w w' : World A C) : Prop where
  fields : w'.edges.filter isField = w.edges.filter isField
  -- The perceived agent is on this cell only.
  perceived : ∀ agent perceived cell, perceived ≠ agent →
    env.isAgentInGroup agent group ∨ env.isAgentInGroup perceived group →
    (∀ c, .field .LOCATION perceived c ∈ w.edges → c = cell) →
    w'.edges.count (.perception agent perceived) = w.edges.count (.perception agent perceived) +
      w.edges.count (.field .PERCEIVE agent cell) * w.edges.count (.field .LOCATION perceived cell)
  kept : ∀ agent perceived,
    env.isAgentInGroup agent group = false ∧ env.isAgentInGroup perceived group = false ∨
      (∀ cell, .field .LOCATION perceived cell ∉ w.edges) →
    w'.edges.count (.perception agent perceived) = w.edges.count (.perception agent perceived)
  flags : ∀ (kind : Kind) cell, kind.flags (w'.flags cell) = ∅
  locationId : w'.locationId = w.locationId

theorem updatePerceptions_phase (w : World A C) :
    ∃ w', env.cellPhase (fun cell => env.updatePerceptions cell group) w = some w' ∧
      env.Perceives group w w' := by
  refine ⟨_, env.cellPhase_eq (env.updatePerceptions_separate group) w
    (env.perceptionCalls group w.edges) fun cell => rfl, ?_⟩
  constructor
  case fields =>
    refine Call.filter_applyAll _ _ _ fun call listed => ?_
    obtain ⟨cell, -, made⟩ := List.mem_flatMap.mp listed
    obtain ⟨agent, perceived, -, -, -, -, rfl⟩ := (env.mem_perceptionCalls group).mp made
    rfl
  case perceived =>
    intro agent perceived cell apart inGroup only
    rw [Call.count_of_owner _ env.cells_once (env.every_cell cell),
      Call.count_of_linked, env.count_perceptionCalls group apart inGroup]
    next =>
      intro unlinked
      obtain ⟨a, b, -, -, -, -, same⟩ := (env.mem_perceptionCalls group).mp unlinked
      simp at same
    next =>
      intro c _ other call made
      obtain ⟨a, b, -, located, -, -, rfl⟩ := (env.mem_perceptionCalls group).mp made
      simp only [Call.edge, ne_eq, Edge.perception.injEq, not_and]
      rintro - rfl
      exact other (only c located)
  case kept =>
    intro agent perceived reason
    refine Call.count_untouched _ fun call listed => ?_
    obtain ⟨cell, -, made⟩ := List.mem_flatMap.mp listed
    obtain ⟨a, b, -, located, inGroup, -, rfl⟩ := (env.mem_perceptionCalls group).mp made
    simp only [Call.edge, ne_eq, Edge.perception.injEq, not_and]
    rintro rfl rfl
    rcases reason with outside | nowhere
    next => simp [outside] at inGroup
    next => exact nowhere cell located
  case flags => exact fun kind cell => by cases kind <;> rfl
  case locationId => rfl

end Update

end Environment

end Fpmas.Model.Spatial
