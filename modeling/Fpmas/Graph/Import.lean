import Fpmas.Graph.ImportRefinement

set_option autoImplicit false

namespace Fpmas.Graph

variable {n : Nat} {T W : Type}

namespace GraphView

variable {v : GraphView n T W}

-- The imported nodes are LOCAL, with the content of their messages.
structure NodesImported (v v' : GraphView n T W) (messages : List (NodeMessage n T W))
    (content : Id n → Option (NodeCore n T W)) : Prop where
  core : ∀ id, v'.core id = if id ∈ messages.map (·.id) then content id else v.core id
  newLocal : ∀ id, v'.newLocal id ↔ id ∈ messages.map (·.id) ∨ v.newLocal id
  rest : v' = { v with
    core := v'.core
    newLocal := v'.newLocal }

theorem importNodes (content : Id n → Option (NodeCore n T W)) (messages : List (NodeMessage n T W))
    (same : ∀ message ∈ messages, content message.id = some
      { data := message.data, weight := message.weight, location := v.rank, state := .LOCAL }) :
    NodesImported v (messages.foldl importNode v) messages content := by
  induction messages generalizing v with
  | nil => exact ⟨by simp, by simp, rfl⟩
  | cons message rest ih =>
    rw [List.foldl_cons]
    have later := ih (v := v.importNode message) fun other member =>
      same other (List.mem_cons_of_mem message member)
    have first := same message List.mem_cons_self
    refine ⟨fun id => ?_, fun id => ?_, ?_⟩
    · rw [later.core]
      simp only [List.map_cons, List.mem_cons]
      by_cases here : id = message.id
      · subst here
        simp [importNode, first]
      · simp [importNode, here]
    · rw [later.newLocal, List.map_cons, List.mem_cons]
      simp only [importNode]
      tauto
    · rw [later.rest]
      rfl

variable [One W]

-- The imported edges are stored with the state that their ends give them.
structure EdgesImported (v v' : GraphView n T W) (messages : List (EdgeMessage n T W))
    (content : Id n → Option (DistributedEdge n W)) : Prop where
  isLocal : ∀ id, v'.IsLocal id ↔ v.IsLocal id
  edge : ∀ k, v'.edge k = if k ∈ messages.map (·.id) then content k else v.edge k
  kept : ∀ id core, v.core id = some core → v'.core id = some core
  ghost : ∀ id core, v'.core id = some core → v.core id = some core ∨ core.state = .DISTANT ∧
    ∃ message ∈ messages, id = message.source ∧ core.location = message.sourceLocation ∨
      id = message.target ∧ core.location = message.targetLocation
  rest : v' = { v with
    core := v'.core
    edge := v'.edge }

theorem importEnd_core {id : Id n} {data : T} {location : Fin n} {other : Id n}
    {core : NodeCore n T W} (found : (v.importEnd id data location).core other = some core) :
    v.core other = some core ∨ core.state = .DISTANT ∧ other = id ∧ core.location = location := by
  unfold importEnd at found
  split at found
  case h_1 => exact .inl found
  case h_2 =>
    simp only [Function.update_apply] at found
    split at found
    case isTrue same =>
      cases found
      exact .inr ⟨rfl, same, rfl⟩
    case isFalse => exact .inl found

theorem importEnd_isLocal (id : Id n) (data : T) (location : Fin n) (other : Id n) :
    (v.importEnd id data location).IsLocal other ↔ v.IsLocal other := by
  constructor
  · rintro ⟨core, found, state⟩
    rcases importEnd_core found with before | ⟨distant, _⟩
    · exact ⟨core, before, state⟩
    · rw [state] at distant
      cases distant
  · rintro ⟨core, found, state⟩
    exact ⟨core, importEnd_keeps found id data location, state⟩

theorem importEnd_rest (v : GraphView n T W) (id : Id n) (data : T) (location : Fin n) :
    v.importEnd id data location = { v with core := (v.importEnd id data location).core } := by
  unfold importEnd
  split <;> rfl

omit [One W] in
theorem edgeState_congr {v v' : GraphView n T W} (same : ∀ id, v'.IsLocal id ↔ v.IsLocal id)
    (source target : Id n) : v'.edgeState source target = v.edgeState source target := by
  unfold edgeState
  simp only [same]

theorem importEdge_one (message : EdgeMessage n T W)
    (already : ∀ e, v.edge message.id = some e → e.ends = (message.layer, message.source, message.target) ∧
      e.weight = message.weight ∧ (e.state = .LOCAL → v.IsLocal e.source ∧ v.IsLocal e.target)) :
    EdgesImported v (v.importEdge message) [message] fun _ => some
      { layer := message.layer, weight := message.weight, source := message.source,
        target := message.target, state := v.edgeState message.source message.target } := by
  unfold importEdge
  cases found : v.edge message.id with
  | some e =>
    obtain ⟨ends, weight, state⟩ := already e found
    obtain ⟨layer, _, source, target, status⟩ := e
    cases ends
    cases weight
    dsimp only at state ⊢
    by_cases both : v.IsLocal message.source ∧ v.IsLocal message.target
    · rw [if_pos both]
      refine ⟨fun _ => .rfl, fun k => ?_, fun _ _ found => found, fun _ _ found => .inl found, rfl⟩
      simp only [setEdgeState, Function.update_apply, found, List.map_cons, List.map_nil,
        List.mem_singleton, Option.map_some, edgeState, if_pos both]
    · rw [if_neg both]
      refine ⟨fun _ => .rfl, fun k => ?_, fun _ _ found => found, fun _ _ found => .inl found, rfl⟩
      simp only [List.map_cons, List.map_nil, List.mem_singleton, edgeState, if_neg both]
      split
      case isTrue same =>
        rw [same, found]
        cases status
        · exact absurd (state rfl) both
        · rfl
      case isFalse => rfl
  | none =>
    dsimp only
    have isLocal : ∀ id, ((v.importEnd message.source message.sourceData
        message.sourceLocation).importEnd message.target message.targetData
        message.targetLocation).IsLocal id ↔ v.IsLocal id :=
      fun id => (importEnd_isLocal _ _ _ _).trans (importEnd_isLocal _ _ _ _)
    refine ⟨isLocal, fun k => ?_, fun id core before => ?_, fun id core after => ?_, ?_⟩
    · simp only [Function.update_apply, importEnd_edge, List.map_cons, List.map_nil,
        List.mem_singleton, edgeState_congr isLocal]
    · exact importEnd_keeps (importEnd_keeps before _ _ _) _ _ _
    · rcases importEnd_core after with after | ⟨distant, end_, location⟩
      · rcases importEnd_core after with before | ⟨distant, end_, location⟩
        · exact .inl before
        · exact .inr ⟨distant, message, List.mem_singleton_self _, .inl ⟨end_, location⟩⟩
      · exact .inr ⟨distant, message, List.mem_singleton_self _, .inr ⟨end_, location⟩⟩
    · rw [importEnd_rest, importEnd_rest v]

-- The same edge may be imported several times, and may be stored already.
theorem importEdges (content : Id n → Option (DistributedEdge n W))
    (messages : List (EdgeMessage n T W))
    (same : ∀ message ∈ messages, content message.id = some
      { layer := message.layer, weight := message.weight, source := message.source,
        target := message.target, state := v.edgeState message.source message.target })
    (already : ∀ message ∈ messages, ∀ e, v.edge message.id = some e →
      e.ends = (message.layer, message.source, message.target) ∧ e.weight = message.weight ∧
        (e.state = .LOCAL → v.IsLocal e.source ∧ v.IsLocal e.target)) :
    EdgesImported v (messages.foldl (fun v message => v.importEdge message) v) messages content := by
  induction messages generalizing v with
  | nil =>
    exact ⟨fun _ => .rfl, fun k => by simp, fun _ _ found => found, fun _ _ found => .inl found, rfl⟩
  | cons message rest ih =>
    rw [List.foldl_cons]
    have mine := same message List.mem_cons_self
    have first := importEdge_one message (already message List.mem_cons_self)
    have edge : ∀ k, (v.importEdge message).edge k =
        if k = message.id then content k else v.edge k := by
      intro k
      rw [first.edge]
      simp only [List.map_cons, List.map_nil, List.mem_singleton]
      split
      case isTrue here => rw [here, mine]
      case isFalse => rfl
    have later := ih (v := v.importEdge message)
      (fun other member => by
        rw [same other (List.mem_cons_of_mem message member), edgeState_congr first.isLocal])
      (fun other member e found => by
        rw [edge] at found
        simp only [first.isLocal]
        split at found
        case isTrue =>
          rw [same other (List.mem_cons_of_mem message member)] at found
          cases found
          refine ⟨rfl, rfl, fun state => ?_⟩
          dsimp only [edgeState] at state ⊢
          by_contra outside
          rw [if_neg outside] at state
          cases state
        case isFalse => exact already other (List.mem_cons_of_mem message member) e found)
    refine ⟨fun id => (later.isLocal id).trans (first.isLocal id), fun k => ?_, fun id core before => ?_,
      fun id core after => ?_, ?_⟩
    · rw [later.edge, edge]
      simp only [List.map_cons, List.mem_cons]
      by_cases here : k = message.id <;> simp [here]
    · exact later.kept id core (first.kept id core before)
    · rcases later.ghost id core after with after | ⟨distant, other, member, ends⟩
      · rcases first.ghost id core after with before | ⟨distant, other, member, ends⟩
        · exact .inl before
        · rw [List.mem_singleton] at member
          exact .inr ⟨distant, other, member ▸ List.mem_cons_self, ends⟩
      · exact .inr ⟨distant, other, List.mem_cons_of_mem message member, ends⟩
    · rw [later.rest, first.rest]

-- The nodes in `ids` become DISTANT, and so do their edges.
structure NodesExported (v v' : GraphView n T W) (ids : Id n → Prop) : Prop where
  inside : ∀ id, ids id → v'.core id = (v.core id).map fun core => { core with state := .DISTANT }
  outside : ∀ id, ¬ ids id → v'.core id = v.core id
  edge : ∀ k e, v.edge k = some e → (ids e.source ∨ ids e.target → v'.edge k =
    some { e with state := .DISTANT }) ∧ (¬ (ids e.source ∨ ids e.target) → v'.edge k = some e)
  absent : ∀ k, v.edge k = none → v'.edge k = none
  rest : v' = { v with
    core := v'.core
    edge := v'.edge }

omit [One W] in
theorem setDistantNodes (ids : List (Id n)) :
    NodesExported v (ids.foldl setDistant v) (· ∈ ids) := by
  induction ids generalizing v with
  | nil => exact ⟨by simp, fun _ _ => rfl, by simp, fun _ absent => absent, rfl⟩
  | cons first rest ih =>
    rw [List.foldl_cons]
    have later := ih (v := v.setDistant first)
    refine ⟨fun id inside => ?_, fun id outside => ?_, fun k e found => ?_, fun k absent => ?_, ?_⟩
    · by_cases again : id ∈ rest
      · rw [later.inside id again]
        simp only [setDistant, Function.update_apply]
        split
        case isTrue same => rw [same, Option.map_map]; rfl
        case isFalse => rfl
      · have same : id = first := (List.mem_cons.mp inside).resolve_right again
        rw [later.outside id again, same]
        exact Function.update_self _ _ _
    · rw [List.mem_cons, not_or] at outside
      rw [later.outside id outside.2]
      exact Function.update_of_ne outside.1 _ _
    · have after : (v.setDistant first).edge k =
          some (if e.Touches first then { e with state := .DISTANT } else e) := by
        simp only [setDistant, found, Option.map_some]
      have step := later.edge k _ after
      have source : (if e.Touches first then { e with state := LocationState.DISTANT } else e).source =
          e.source := by split <;> rfl
      have target : (if e.Touches first then { e with state := LocationState.DISTANT } else e).target =
          e.target := by split <;> rfl
      rw [source, target] at step
      simp only [List.mem_cons]
      constructor
      · intro touched
        by_cases again : e.source ∈ rest ∨ e.target ∈ rest
        · rw [step.1 again]
          split <;> rfl
        · rw [step.2 again, if_pos]
          unfold DistributedEdge.Touches
          tauto
      · intro untouched
        rw [step.2 fun again => untouched (again.imp .inr .inr), if_neg]
        exact fun touches => untouched (touches.imp .inl .inl)
    · refine later.absent k ?_
      simp only [setDistant, absent, Option.map_none]
    · rw [later.rest]
      rfl

end GraphView

section

variable {g : DistributedGraph n T W}

theorem GraphInv.importNodes (inv : GraphInv g) (messages : List (NodeMessage n T W)) :
    Refines (messages.foldlM (fun g message => g.importNode message) g)
      (messages.foldl GraphView.importNode g.view) :=
  Refines.foldlM (fun _ _ => True) (fun _ message _ inv _ => inv.importNode message)
    (fun _ _ _ _ => trivial) inv trivial

theorem GraphInv.importEdges [One W] (inv : GraphInv g) (order : HashOrder)
    (messages : List (EdgeMessage n T W)) :
    Refines (messages.foldlM (fun g message => g.importEdge order message) g)
      (messages.foldl (fun v message => v.importEdge message) g.view) :=
  Refines.foldlM (fun _ _ => True) (fun _ message _ inv _ => inv.importEdge order message)
    (fun _ _ _ _ => trivial) inv trivial

theorem GraphInv.setDistantNodes (inv : GraphInv g) (order : HashOrder) {ids : List (Id n)}
    (present : ∀ id ∈ ids, ∃ core, g.view.core id = some core) :
    Refines (ids.foldlM (fun g id => g.setDistant order id) g)
      (ids.foldl GraphView.setDistant g.view) := by
  apply Refines.foldlM (fun v l => ∀ id ∈ l, ∃ core, v.core id = some core)
  · intro g id rest inv present
    obtain ⟨core, found⟩ := present id List.mem_cons_self
    obtain ⟨node, at_, _⟩ := DistributedGraph.getNode_of_view rfl found
    exact inv.setDistant order at_
  · intro v id rest present other member
    obtain ⟨core, found⟩ := present other (List.mem_cons_of_mem id member)
    simp only [GraphView.setDistant, Function.update_apply]
    split
    case isTrue same =>
      rw [← same, found]
      exact ⟨_, rfl⟩
    case isFalse => exact ⟨core, found⟩
  · exact inv
  · exact present

end

end Fpmas.Graph
