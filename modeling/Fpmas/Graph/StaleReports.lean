import Fpmas.Graph.LocationAgreement

set_option autoImplicit false

namespace HashOrder

def reversed : HashOrder where
  of l := l.reverse
  perm l := l.reverse_perm

end HashOrder

namespace UnorderedMap

variable {n : Nat} {V : Type}

-- In an iteration over the vectors of `m`, nobody but `p` has the last word on `v`.
def LastWord (order : HashOrder) (m : UnorderedMap (Fin n) (List V)) (v : V) (p : Fin n) : Prop :=
  ∃ before after, m.messages order = before ++ after ∧ (p, v) ∈ after ∧
    ∀ q, (q, v) ∈ after → q = p

-- The entries before that of `p` do not matter when no entry after it has `v`.
theorem LastWord.of_split {order : HashOrder} {m : UnorderedMap (Fin n) (List V)} {v : V} {p : Fin n}
    {before after : List (Fin n × List V)} {values : List V}
    (split : m.toList order = before ++ (p, values) :: after) (told : v ∈ values)
    (later : ∀ q values', (q, values') ∈ after → v ∉ values') : LastWord order m v p := by
  refine ⟨before.flatMap fun entry => entry.2.map fun value => (entry.1, value),
    ((p, values) :: after).flatMap fun entry => entry.2.map fun value => (entry.1, value), ?_, ?_, ?_⟩
  · rw [messages, split, List.flatMap_append]
  · rw [List.flatMap_cons, List.mem_append]
    exact .inl (List.mem_map.mpr ⟨v, told, rfl⟩)
  · intro q member
    rw [List.flatMap_cons, List.mem_append] at member
    rcases member with here | elsewhere
    · obtain ⟨_, _, same⟩ := List.mem_map.mp here
      exact (congrArg Prod.fst same).symm
    · obtain ⟨⟨q', values'⟩, inside, listed⟩ := List.mem_flatMap.mp elsewhere
      obtain ⟨_, inside', same⟩ := List.mem_map.mp listed
      cases same
      exact absurd inside' (later _ values' inside)

-- What is received is stored by increasing source.
theorem sorted_migrate (exported : Fin n → UnorderedMap (Fin n) (List V)) (q : Fin n) :
    ((migrate exported q).toList .insertion).Pairwise fun first second => first.1 < second.1 := by
  have entries : (migrate exported q).toList .insertion = (List.finRange n).filterMap fun p =>
      ((exported p).lookup q).map fun values => (p, values) := by
    show ((migrate exported q).entries.map _) = _
    rw [migrate, List.map_filterMap]
    refine List.filterMap_congr fun p _ => ?_
    cases (exported p).lookup q <;> rfl
  rw [entries, List.pairwise_filterMap]
  refine (List.pairwise_lt_finRange n).imp fun less first one second two => ?_
  obtain ⟨_, _, rfl⟩ := Option.map_eq_some_iff.mp one
  obtain ⟨_, _, rfl⟩ := Option.map_eq_some_iff.mp two
  exact less

theorem stored_of_valuesAt {m : UnorderedMap (Fin n) (List V)} {p : Fin n} {v : V}
    (told : v ∈ valuesAt m p) : ∃ values, (p, values) ∈ m.toList .insertion ∧ v ∈ values := by
  unfold valuesAt at told
  cases found : m.lookup p with
  | none =>
    rw [found] at told
    cases told
  | some values =>
    rw [found] at told
    exact ⟨values, (mem_toList .insertion m).mpr found, told⟩

theorem valuesAt_of_stored {m : UnorderedMap (Fin n) (List V)} {order : HashOrder} {p : Fin n}
    {values : List V} {v : V} (stored : (p, values) ∈ m.toList order) (told : v ∈ values) :
    v ∈ valuesAt m p := by
  rw [valuesAt, (mem_toList order m).mp stored]
  exact told

theorem LastWord.greatest {exported : Fin n → UnorderedMap (Fin n) (List V)} {p q : Fin n} {v : V}
    (told : v ∈ valuesAt (migrate exported q) p)
    (greatest : ∀ r, v ∈ valuesAt (migrate exported q) r → r ≤ p) :
    LastWord .insertion (migrate exported q) v p := by
  obtain ⟨values, stored, inside⟩ := stored_of_valuesAt told
  obtain ⟨before, after, split⟩ := List.append_of_mem stored
  refine .of_split split inside fun r values' member told' => ?_
  have sorted := sorted_migrate exported q
  rw [split] at sorted
  have later : p < r :=
    (List.pairwise_cons.mp (List.pairwise_append.mp sorted).2.1).1 (r, values') member
  have stored' : (r, values') ∈ (migrate exported q).toList .insertion := by simp [split, member]
  exact absurd (greatest r (valuesAt_of_stored stored' told')) (not_le.mpr later)

theorem LastWord.least {exported : Fin n → UnorderedMap (Fin n) (List V)} {p q : Fin n} {v : V}
    (told : v ∈ valuesAt (migrate exported q) p)
    (least : ∀ r, v ∈ valuesAt (migrate exported q) r → p ≤ r) :
    LastWord .reversed (migrate exported q) v p := by
  obtain ⟨values, stored, inside⟩ := stored_of_valuesAt told
  obtain ⟨before, after, split⟩ := List.append_of_mem stored
  have backwards : (migrate exported q).toList .reversed =
      after.reverse ++ (p, values) :: before.reverse := by
    have turned : (migrate exported q).toList .reversed =
        ((migrate exported q).toList .insertion).reverse := List.map_reverse
    rw [turned, split]
    simp
  refine .of_split backwards inside fun r values' member told' => ?_
  rw [List.mem_reverse] at member
  have sorted := sorted_migrate exported q
  rw [split] at sorted
  have earlier : r < p := (List.pairwise_append.mp sorted).2.2 (r, values') member (p, values)
    List.mem_cons_self
  have stored' : (r, values') ∈ (migrate exported q).toList .insertion := by simp [split, member]
  exact absurd (least r (valuesAt_of_stored stored' told')) (not_le.mpr earlier)

end UnorderedMap

namespace Fpmas.Graph

variable {n : Nat} {T W : Type} {g g' : DistributedGraph n T W} {id : Id n} {p : Fin n}

namespace DistributedGraph

theorem managed_addManagedNode (other : Id n) (location : Fin n) :
    (g.addManagedNode other location).view.managed =
      Function.update g.view.managed other (some location) := by
  funext id
  refine (UnorderedMap.lookup_insert' _ _ _ _).trans ?_
  rw [Function.update_apply]
  rfl

theorem addReports_last {messages : List (Fin n × Id n)} (only : ∀ q, (q, id) ∈ messages → q = p)
    (known : (p, id) ∈ messages ∨ g.view.managed id = some p) :
    (messages.foldl (fun g message => g.addManagedNode message.2 message.1) g).view.managed id =
      some p := by
  induction messages generalizing g with
  | nil =>
    rcases known with absent | known
    · cases absent
    · exact known
  | cons message rest ih =>
    refine ih (fun q later => only q (List.mem_cons_of_mem message later)) ?_
    rw [managed_addManagedNode]
    obtain ⟨source, other⟩ := message
    by_cases same : other = id
    · subst same
      rw [only source List.mem_cons_self]
      exact .inr (Function.update_self _ _ _)
    · rw [Function.update_of_ne (Ne.symm same)]
      refine known.imp_left fun member => ?_
      rcases List.mem_cons.mp member with here | later
      · cases here
        exact absurd rfl same
      · exact later

theorem managed_setLocation {location : Fin n} (ran : g.setLocation id location = some g') :
    g'.view.managed = g.view.managed := by
  obtain ⟨node, _, rfl⟩ := Option.map_eq_some_iff.mp ran
  rfl

-- A location that is managed already stays where it is.
theorem managedLocation_keeps (known : g.view.managed id = some p) (other : Id n) :
    (g.managedLocation other).1.view.managed id = some p := by
  unfold managedLocation
  cases found : g.locationManager.managedNodesLocations.lookup other with
  | some location => exact known
  | none =>
    rw [managed_addManagedNode]
    have apart : id ≠ other := by
      rintro rfl
      cases found.symm.trans known
    rw [Function.update_of_ne apart]
    exact known

theorem importUpdatedLocations_last {order : HashOrder}
    {imported : UnorderedMap (Fin n) (List (Id n))}
    (last : UnorderedMap.LastWord order imported id p)
    (ran : g.importUpdatedLocations order imported = some g') : g'.view.managed id = some p := by
  obtain ⟨before, after, split, told, only⟩ := last
  unfold importUpdatedLocations at ran
  rw [split, List.foldl_append] at ran
  refine List.foldlM_kept (P := fun g : DistributedGraph n T W => g.view.managed id = some p)
    (fun g other t _ known step => ?_) (addReports_last only (.inl told)) ran
  rw [managed_setLocation step]
  exact managedLocation_keeps known other

theorem answers_keep (messages : List (Fin n × Id n))
    (exported : UnorderedMap (Fin n) (List (Id n × Fin n))) (known : g.view.managed id = some p) :
    (messages.foldl (fun x message =>
      (x.1.push message.1 (message.2, (x.2.managedLocation message.2).2),
        (x.2.managedLocation message.2).1)) (exported, g)).2.view.managed id = some p := by
  induction messages generalizing exported g with
  | nil => exact known
  | cons message rest ih => exact ih _ (managedLocation_keeps known message.2)

theorem exportLocations_keeps (order : HashOrder) (requests : UnorderedMap (Fin n) (List (Id n)))
    (known : g.view.managed id = some p) :
    (g.exportLocations order requests).2.view.managed id = some p :=
  answers_keep _ _ known

theorem importLocations_keeps {order : HashOrder}
    {locations : UnorderedMap (Fin n) (List (Id n × Fin n))}
    (ran : g.importLocations order locations = some g') : g'.view.managed = g.view.managed := by
  obtain ⟨last, read, rfl⟩ := Option.map_eq_some_iff.mp ran
  show last.view.managed = _
  refine List.foldlM_kept (P := fun h : DistributedGraph n T W => h.view.managed = g.view.managed)
    (fun h message t _ same step => ?_) rfl read
  obtain ⟨_, step⟩ := Option.ite_none_right_eq_some.mp step
  rw [managed_setLocation step, same]

end DistributedGraph

-- The origin of a node ends with the location that was reported last, be it right or not.
theorem updateLocations_last {order : Fin n → HashOrder} {s s' : Fin n → DistributedGraph n T W}
    (ran : updateLocations order s = some s') {q : Fin n}
    (last : UnorderedMap.LastWord (order q)
      (migrate (fun r => ((s r).exportUpdatedLocations (order r)).1) q) id p) :
    (s' q).view.managed id = some p := by
  obtain ⟨s₁, imported, ran⟩ := Option.bind_eq_some_iff.mp ran
  have learned := DistributedGraph.importUpdatedLocations_last last (collect_eq_some.mp imported q)
  rw [DistributedGraph.importLocations_keeps (collect_eq_some.mp ran q)]
  exact DistributedGraph.exportLocations_keeps (order q) _ learned

-- Two processes that both report a node: in one order of the hash maps, `p` has the last word.
theorem updateLocations_stale (q : Fin n) (away : id.rank ≠ p) : ∃ order : Fin n → HashOrder,
    ∀ s s' : Fin n → DistributedGraph n T W, (∀ p, (s p).rank = p) →
      (∀ r, (s r).view.newLocal id ↔ r = p ∨ r = q) → updateLocations order s = some s' →
      (s' id.rank).view.managed id = some p := by
  have reports : ∀ (order : Fin n → HashOrder) (s : Fin n → DistributedGraph n T W),
      (∀ p, (s p).rank = p) → (∀ r, (s r).view.newLocal id ↔ r = p ∨ r = q) → ∀ r,
      id ∈ UnorderedMap.valuesAt (migrate (fun r => ((s r).exportUpdatedLocations (order r)).1)
        id.rank) r ↔ (r = p ∨ r = q) ∧ id.rank ≠ r := by
    intro order s rank fresh r
    rw [valuesAt_migrate, ((s r).exportUpdatedLocations_spec (order r)).1, rank, fresh]
    simp
  rcases le_total q p with below | above
  next =>
    refine ⟨fun _ => .insertion, fun s s' rank fresh ran => updateLocations_last ran ?_⟩
    refine .greatest ((reports _ s rank fresh p).mpr ⟨.inl rfl, away⟩) fun r told => ?_
    rcases ((reports _ s rank fresh r).mp told).1 with rfl | rfl
    · exact le_rfl
    · exact below
  next =>
    refine ⟨fun _ => .reversed, fun s s' rank fresh ran => updateLocations_last ran ?_⟩
    refine .least ((reports _ s rank fresh p).mpr ⟨.inl rfl, away⟩) fun r told => ?_
    rcases ((reports _ s rank fresh r).mp told).1 with rfl | rfl
    · exact le_rfl
    · exact above

section Frames

/-- What a process has been told of the nodes stays as it is. -/
structure KeepsReports (g g' : DistributedGraph n T W) : Prop where
  managed : g'.view.managed = g.view.managed
  newLocal : g'.view.newLocal = g.view.newLocal

theorem KeepsReports.trans {g g' g'' : DistributedGraph n T W} (first : KeepsReports g g')
    (second : KeepsReports g' g'') : KeepsReports g g'' :=
  ⟨second.managed.trans first.managed, second.newLocal.trans first.newLocal⟩

namespace DistributedGraph

variable {order : HashOrder} {ids : List (Id n)}

theorem eraseEdge_keepsReports {k : Id n} (ran : g.eraseEdge k = some g') : KeepsReports g g' := by
  obtain ⟨edge, _, ran⟩ := Option.bind_eq_some_iff.mp ran
  obtain ⟨source, _, ran⟩ := Option.bind_eq_some_iff.mp ran
  obtain ⟨source', _, ran⟩ := Option.bind_eq_some_iff.mp ran
  obtain ⟨target, _, ran⟩ := Option.bind_eq_some_iff.mp ran
  obtain ⟨target', _, rfl⟩ := Option.map_eq_some_iff.mp ran
  exact ⟨rfl, rfl⟩

theorem eraseEdges_keepsReports (ran : g.eraseEdges ids = some g') : KeepsReports g g' :=
  List.foldlM_kept (P := fun h : DistributedGraph n T W => KeepsReports g h)
    (fun _ _ _ _ kept step => kept.trans (eraseEdge_keepsReports step)) ⟨rfl, rfl⟩ ran

theorem eraseNode_keepsReports (ran : g.eraseNode order id = some g') : KeepsReports g g' := by
  obtain ⟨_, _, ran⟩ := Option.bind_eq_some_iff.mp ran
  obtain ⟨g₁, incoming, ran⟩ := Option.bind_eq_some_iff.mp ran
  obtain ⟨_, _, ran⟩ := Option.bind_eq_some_iff.mp ran
  obtain ⟨g₂, outgoing, ran⟩ := Option.bind_eq_some_iff.mp ran
  obtain ⟨node, _, rfl⟩ := Option.map_eq_some_iff.mp ran
  refine ((eraseEdges_keepsReports incoming).trans (eraseEdges_keepsReports outgoing)).trans ?_
  have kept : (g₂.locationManager.remove id node.state).managedNodesLocations =
        g₂.locationManager.managedNodesLocations ∧
      (g₂.locationManager.remove id node.state).newLocalNodes = g₂.locationManager.newLocalNodes := by
    cases node.state with
    | LOCAL => exact ⟨rfl, rfl⟩
    | DISTANT => exact ⟨rfl, rfl⟩
  exact ⟨congrArg (fun managed id => managed.lookup id) kept.1,
    congrArg (fun (newLocal : NodeMap n) id => id ∈ newLocal) kept.2⟩

theorem clearNode_keepsReports (ran : g.clearNode order id = some g') : KeepsReports g g' := by
  obtain ⟨_, _, ran⟩ := Option.bind_eq_some_iff.mp ran
  obtain ⟨neighbors, _, ran⟩ := Option.bind_eq_some_iff.mp ran
  split at ran
  · exact eraseNode_keepsReports ran
  · exact eraseEdges_keepsReports ran

theorem clearNodes_keepsReports (ran : g.clearNodes order ids = some g') : KeepsReports g g' :=
  List.foldlM_kept (P := fun h : DistributedGraph n T W => KeepsReports g h)
    (fun _ _ _ _ kept step => kept.trans (clearNode_keepsReports step)) ⟨rfl, rfl⟩ ran

theorem importLocations_newLocal {locations : UnorderedMap (Fin n) (List (Id n × Fin n))}
    (ran : g.importLocations order locations = some g') (id : Id n) : ¬ g'.view.newLocal id := by
  obtain ⟨last, _, rfl⟩ := Option.map_eq_some_iff.mp ran
  exact AList.notMem_empty id

theorem edges_setLocation {location : Fin n} (ran : g.setLocation id location = some g') :
    g'.edges = g.edges := by
  obtain ⟨_, _, rfl⟩ := Option.map_eq_some_iff.mp ran
  rfl

theorem edges_managedLocation : (g.managedLocation id).1.edges = g.edges := by
  unfold managedLocation
  split <;> rfl

theorem edges_importUpdatedLocations {imported : UnorderedMap (Fin n) (List (Id n))}
    (ran : g.importUpdatedLocations order imported = some g') : g'.edges = g.edges := by
  have told : ((imported.messages order).foldl
      (fun g message => g.addManagedNode message.2 message.1) g).edges = g.edges :=
    List.foldlRecOn (motive := fun h : DistributedGraph n T W => h.edges = g.edges) _ _ rfl
      fun _ same _ _ => same
  exact List.foldlM_kept (P := fun h : DistributedGraph n T W => h.edges = g.edges)
    (fun _ _ _ _ same step => (edges_setLocation step).trans (edges_managedLocation.trans same)) told ran

theorem edges_exportLocations (requests : UnorderedMap (Fin n) (List (Id n))) :
    (g.exportLocations order requests).2.edges = g.edges := by
  unfold exportLocations
  refine List.foldlRecOn (motive := fun (x : UnorderedMap (Fin n) (List (Id n × Fin n)) ×
    DistributedGraph n T W) => x.2.edges = g.edges) _ _ rfl ?_
  exact fun _ same _ _ => edges_managedLocation.trans same

theorem edges_importLocations {locations : UnorderedMap (Fin n) (List (Id n × Fin n))}
    (ran : g.importLocations order locations = some g') : g'.edges = g.edges := by
  obtain ⟨last, read, rfl⟩ := Option.map_eq_some_iff.mp ran
  have told : last.edges = g.edges :=
    List.foldlM_kept (P := fun h : DistributedGraph n T W => h.edges = g.edges)
      (fun _ _ _ _ same step => (edges_setLocation (Option.ite_none_right_eq_some.mp step).2).trans same)
      rfl read
  exact told

end DistributedGraph

theorem updateLocations_edges {order : Fin n → HashOrder} {s s' : Fin n → DistributedGraph n T W}
    (ran : updateLocations order s = some s') (p : Fin n) : (s' p).edges = (s p).edges := by
  obtain ⟨s₁, imported, ran⟩ := Option.bind_eq_some_iff.mp ran
  obtain ⟨_, managed, same, _⟩ := (s p).exportUpdatedLocations_spec (order p)
  calc (s' p).edges
    _ = _ := DistributedGraph.edges_importLocations (collect_eq_some.mp ran p)
    _ = (s₁ p).edges := DistributedGraph.edges_exportLocations _
    _ = ((s p).exportUpdatedLocations (order p)).2.edges :=
      DistributedGraph.edges_importUpdatedLocations (collect_eq_some.mp imported p)
    _ = (s p).edges := by rw [same]; rfl

end Frames

end Fpmas.Graph
