import Fpmas.Graph.ClearRefinement
import Fpmas.Graph.ImportRefinement
import Fpmas.Graph.LocationManager

set_option autoImplicit false

namespace Fpmas.Graph

variable {n : Nat} {T W : Type} {g : DistributedGraph n T W}

def DistributedGraph.withManaged (g : DistributedGraph n T W)
    (managed : UnorderedMap (Id n) (Fin n)) : DistributedGraph n T W :=
  { g with locationManager := { g.locationManager with managedNodesLocations := managed } }

theorem GraphInv.withManaged (inv : GraphInv g) (managed : UnorderedMap (Id n) (Fin n)) :
    GraphInv (g.withManaged managed) :=
  ⟨inv.source, inv.target, inv.outgoing, inv.incoming, inv.localNodes, inv.distantNodes⟩

theorem GraphInv.mem_distantIds (inv : GraphInv g) (order : HashOrder) (id : Id n) :
    id ∈ g.distantIds order ↔ g.view.IsDistant id := by
  rw [← inv.distantNodes, UnorderedMap.mem_iff_lookup]
  unfold DistributedGraph.distantIds
  rw [List.mem_map]
  constructor
  · rintro ⟨⟨_, value⟩, member, rfl⟩
    exact ⟨value, (UnorderedMap.mem_toList order _).mp member⟩
  · rintro ⟨value, found⟩
    exact ⟨(id, value), (UnorderedMap.mem_toList order _).mpr found, rfl⟩

theorem DistributedGraph.nodup_distantIds (order : HashOrder) : (g.distantIds order).Nodup :=
  UnorderedMap.nodup_toList order _

theorem GraphInv.clearDistantNodes (inv : GraphInv g) (order : HashOrder) :
    ∃ g', g.clearDistantNodes order = some g' ∧ GraphInv g' ∧
      GraphView.Cleared g.view g'.view g.view.IsDistant := by
  have listed : ∀ id, id ∈ g.distantIds order ↔ g.view.IsDistant id := inv.mem_distantIds order
  obtain ⟨g', result, inv', view⟩ := inv.clearNodes order (g.nodup_distantIds order) fun id member => by
    obtain ⟨core, found, _⟩ := (listed id).mp member
    exact ⟨core, found⟩
  refine ⟨g', result, inv', ?_⟩
  have cleared := GraphView.clearNodes (v := g.view) (g.distantIds order) fun id member near => by
    obtain ⟨core, found, state⟩ := (listed id).mp member
    obtain ⟨core', found', state'⟩ := near
    cases found.symm.trans found'
    cases state.symm.trans state'
  rw [← view] at cleared
  have same : (· ∈ g.distantIds order) = g.view.IsDistant := funext fun id => propext (listed id)
  exact same ▸ cleared

theorem DistributedGraph.mem_newLocalIds (g : DistributedGraph n T W) (order : HashOrder) (id : Id n) :
    id ∈ g.newLocalIds order ↔ g.view.newLocal id := by
  show _ ↔ id ∈ g.locationManager.newLocalNodes
  rw [UnorderedMap.mem_iff_lookup]
  unfold DistributedGraph.newLocalIds
  rw [List.mem_map]
  constructor
  · rintro ⟨⟨_, value⟩, member, rfl⟩
    exact ⟨value, (UnorderedMap.mem_toList order _).mp member⟩
  · rintro ⟨value, found⟩
    exact ⟨(id, value), (UnorderedMap.mem_toList order _).mpr found, rfl⟩

-- A new LOCAL node is reported to its origin, or recorded by the process when it is the origin.
theorem DistributedGraph.exportUpdatedLocations_loop (g : DistributedGraph n T W) (ids : List (Id n))
    (exported : UnorderedMap (Fin n) (List (Id n))) (managed : UnorderedMap (Id n) (Fin n)) :
    let result := ids.foldl (fun x id =>
      if id.rank ≠ x.2.rank then (x.1.push id.rank id, x.2)
      else (x.1, x.2.addManagedNode id x.2.rank)) (exported, g.withManaged managed)
    (∀ q id, id ∈ result.1.valuesAt q ↔
      id ∈ exported.valuesAt q ∨ id ∈ ids ∧ id.rank = q ∧ q ≠ g.rank) ∧
    ∃ managed', result.2 = g.withManaged managed' ∧ ∀ id, managed'.lookup id =
      if id ∈ ids ∧ id.rank = g.rank then some g.rank else managed.lookup id := by
  induction ids generalizing exported managed with
  | nil => exact ⟨by simp, managed, rfl, by simp⟩
  | cons first rest ih =>
    rw [List.foldl_cons]
    by_cases own : first.rank = g.rank
    · have stays : ¬ first.rank ≠ (exported, g.withManaged managed).2.rank := not_not.mpr own
      rw [if_neg stays]
      obtain ⟨member, managed', same, found⟩ := ih exported (managed.insert first g.rank)
      refine ⟨fun q id => ?_, managed', ?_, fun id => ?_⟩
      · refine (member q id).trans (or_congr_right ?_)
        rw [List.mem_cons]
        constructor
        · exact fun both => ⟨.inr both.1, both.2⟩
        · rintro ⟨rfl | inside, rank, other⟩
          · exact absurd (rank.symm.trans own) other
          · exact ⟨inside, rank, other⟩
      · exact same
      · rw [found, UnorderedMap.lookup_insert']
        simp only [List.mem_cons]
        by_cases here : id = first
        · subst here
          simp [own]
        · simp [here]
    · have leaves : first.rank ≠ (exported, g.withManaged managed).2.rank := own
      rw [if_pos leaves]
      obtain ⟨member, managed', same, found⟩ := ih (exported.push first.rank first) managed
      refine ⟨fun q id => ?_, managed', ?_, fun id => ?_⟩
      · refine (member q id).trans ?_
        rw [UnorderedMap.valuesAt_push, List.mem_cons]
        by_cases here : q = first.rank
        · subst here
          rw [if_pos rfl, List.mem_append, List.mem_singleton]
          constructor
          · rintro ((before | rfl) | ⟨inside, rank, other⟩)
            · exact .inl before
            · exact .inr ⟨.inl rfl, rfl, own⟩
            · exact .inr ⟨.inr inside, rank, other⟩
          · rintro (before | ⟨rfl | inside, rank, other⟩)
            · exact .inl (.inl before)
            · exact .inl (.inr rfl)
            · exact .inr ⟨inside, rank, other⟩
        · rw [if_neg here]
          refine or_congr_right ⟨fun both => ⟨.inr both.1, both.2⟩, ?_⟩
          rintro ⟨rfl | inside, rank, other⟩
          · exact absurd rank.symm here
          · exact ⟨inside, rank, other⟩
      · exact same
      · rw [found]
        simp only [List.mem_cons]
        by_cases here : id = first
        · subst here
          simp [own]
        · simp [here]

theorem DistributedGraph.exportUpdatedLocations_spec (g : DistributedGraph n T W) (order : HashOrder) :
    (∀ q id, id ∈ (g.exportUpdatedLocations order).1.valuesAt q ↔
      g.view.newLocal id ∧ id.rank = q ∧ q ≠ g.rank) ∧
    ∃ managed, (g.exportUpdatedLocations order).2 = g.withManaged managed ∧
      ∀ id, (g.view.newLocal id ∧ id.rank = g.rank → managed.lookup id = some g.rank) ∧
        (¬ (g.view.newLocal id ∧ id.rank = g.rank) → managed.lookup id = g.view.managed id) := by
  unfold DistributedGraph.exportUpdatedLocations
  obtain ⟨member, managed, same, found⟩ := g.exportUpdatedLocations_loop (g.newLocalIds order) ∅
    g.locationManager.managedNodesLocations
  simp only [DistributedGraph.mem_newLocalIds] at member
  refine ⟨fun q id => (member q id).trans (by simp), managed, same, fun id => ⟨?_, ?_⟩⟩
  · intro here
    rw [found, if_pos ⟨(g.mem_newLocalIds order id).mpr here.1, here.2⟩]
  · intro elsewhere
    rw [found, if_neg fun here => elsewhere ⟨(g.mem_newLocalIds order id).mp here.1, here.2⟩]
    rfl

theorem GraphInv.locate (inv : GraphInv g) {α : Type} (items : List α)
    {f : DistributedGraph n T W → α → Option (DistributedGraph n T W)} (key : α → Id n)
    (location : Id n → Fin n) {managed : Id n → Option (Fin n)} (told : g.view.managed = managed)
    (step : ∀ g x, GraphInv g → g.view.managed = managed → x ∈ items → g.view.IsDistant (key x) →
      f g x = g.setLocation (key x) (location (key x)))
    (distant : ∀ x ∈ items, g.view.IsDistant (key x)) :
    Refines (items.foldlM f g) (g.view.locate (· ∈ items.map key) location) := by
  unfold GraphView.locate
  refine inv.amend key (fun _ _ => rfl) (fun _ _ => rfl) told ?_ ?_
  · intro g x node inv told listed isDistant at_
    refine ⟨{ node with location := location (key x) }, ?_, rfl, rfl, rfl⟩
    rw [step g x inv told listed isDistant, DistributedGraph.setLocation, at_, Option.map_some]
  · exact distant

theorem DistributedGraph.addManagedNode_loop (g : DistributedGraph n T W) {location : Id n → Fin n}
    (messages : List (Fin n × Id n)) (managed : UnorderedMap (Id n) (Fin n))
    (sent : ∀ q id, (q, id) ∈ messages → location id = q) :
    ∃ managed', messages.foldl (fun g message => g.addManagedNode message.2 message.1)
        (g.withManaged managed) = g.withManaged managed' ∧
      ∀ id, managed'.lookup id = if id ∈ messages.map Prod.snd then some (location id)
        else managed.lookup id := by
  induction messages generalizing managed with
  | nil => exact ⟨managed, rfl, by simp⟩
  | cons message rest ih =>
    obtain ⟨managed', result, found⟩ := ih (managed.insert message.2 message.1)
      fun q id member => sent q id (List.mem_cons_of_mem message member)
    refine ⟨managed', result, fun id => ?_⟩
    rw [found, UnorderedMap.lookup_insert']
    simp only [List.map_cons, List.mem_cons]
    by_cases here : id = message.2
    · subst here
      simp [sent message.1 message.2 List.mem_cons_self]
    · simp [here]

theorem GraphInv.importUpdatedLocations (inv : GraphInv g) (order : HashOrder)
    {imported : UnorderedMap (Fin n) (List (Id n))} {location : Id n → Fin n}
    (sent : ∀ q id, id ∈ imported.valuesAt q → location id = q)
    (known : ∀ id, g.view.IsDistant id → id.rank = g.rank →
      (∃ q, id ∈ imported.valuesAt q) ∨ g.view.managed id = some (location id)) :
    ∃ managed, Refines (g.importUpdatedLocations order imported)
        { g.view.locate (fun id => g.view.IsDistant id ∧ id.rank = g.rank) location with managed } ∧
      ∀ id, ((∃ q, id ∈ imported.valuesAt q) → managed id = some (location id)) ∧
        ((∀ q, id ∉ imported.valuesAt q) → managed id = g.view.managed id) := by
  obtain ⟨managed, result, found⟩ := g.addManagedNode_loop (imported.messages order)
    g.locationManager.managedNodesLocations fun q id member =>
      sent q id ((UnorderedMap.mem_messages order imported q id).mp member)
  have arrived : ∀ id, id ∈ (imported.messages order).map Prod.snd ↔
      ∃ q, id ∈ imported.valuesAt q := by
    intro id
    rw [List.mem_map]
    constructor
    · rintro ⟨⟨q, _⟩, member, rfl⟩
      exact ⟨q, (UnorderedMap.mem_messages order imported q _).mp member⟩
    · rintro ⟨q, member⟩
      exact ⟨(q, id), (UnorderedMap.mem_messages order imported q id).mpr member, rfl⟩
  refine ⟨managed.lookup, ?_, fun id => ⟨fun inside => ?_, fun outside => ?_⟩⟩
  · have start : (imported.messages order).foldl
        (fun g message => g.addManagedNode message.2 message.1) g = g.withManaged managed := result
    have own : ∀ id, id ∈ ((g.withManaged managed).distantIds order).filter
        (·.rank = (g.withManaged managed).rank) ↔ g.view.IsDistant id ∧ id.rank = g.rank := by
      intro id
      rw [List.mem_filter, (inv.withManaged managed).mem_distantIds]
      simp only [decide_eq_true_eq]
      rfl
    unfold DistributedGraph.importUpdatedLocations
    rw [start]
    have told := (inv.withManaged managed).locate _ (f := fun g id =>
        (g.managedLocation id).1.setLocation id (g.managedLocation id).2) id location rfl
      (fun h id _ told listed _ => by
        obtain ⟨distant, rank⟩ := (own id).mp listed
        have stored : h.locationManager.managedNodesLocations.lookup id = some (location id) := by
          refine (congrFun told id).trans ((found id).trans ?_)
          rcases known id distant rank with inside | before
          · rw [if_pos ((arrived id).mpr inside)]
          · split
            · rfl
            · exact before
        simp only [DistributedGraph.managedLocation, stored]
        rfl)
      (fun id listed => ((own id).mp listed).1)
    refine Eq.mp (congrArg (Refines _) ?_) told
    simp only [List.map_id, own]
    rfl
  · exact (found id).trans (if_pos ((arrived id).mpr inside))
  · refine (found id).trans (if_neg fun inside => ?_)
    obtain ⟨q, member⟩ := (arrived id).mp inside
    exact outside q member

-- The origin of the nodes answers each request with what it knows.
theorem DistributedGraph.exportLocations_loop (g : DistributedGraph n T W) {location : Id n → Fin n}
    (messages : List (Fin n × Id n)) (exported : UnorderedMap (Fin n) (List (Id n × Fin n)))
    (known : ∀ q id, (q, id) ∈ messages → g.view.managed id = some (location id)) :
    let result := messages.foldl (fun x message =>
      (x.1.push message.1 (message.2, (x.2.managedLocation message.2).2),
        (x.2.managedLocation message.2).1)) (exported, g)
    result.2 = g ∧ ∀ q answer, answer ∈ result.1.valuesAt q ↔
      answer ∈ exported.valuesAt q ∨ ∃ id, (q, id) ∈ messages ∧ answer = (id, location id) := by
  induction messages generalizing exported with
  | nil => simp
  | cons message rest ih =>
    have stored : g.locationManager.managedNodesLocations.lookup message.2 =
        some (location message.2) := known message.1 message.2 List.mem_cons_self
    have step : g.managedLocation message.2 = (g, location message.2) := by
      simp only [DistributedGraph.managedLocation, stored]
    simp only [List.foldl_cons, step]
    obtain ⟨unchanged, member⟩ := ih (exported.push message.1 (message.2, location message.2))
      fun q id inside => known q id (List.mem_cons_of_mem message inside)
    refine ⟨unchanged, fun q answer => ?_⟩
    rw [member, UnorderedMap.valuesAt_push]
    obtain ⟨source, id⟩ := message
    by_cases here : q = source
    · subst here
      simp only [if_true, List.mem_append, List.mem_cons, List.not_mem_nil, or_false,
        Prod.mk.injEq, true_and]
      constructor
      · rintro ((before | rfl) | ⟨id', inside, rfl⟩)
        · exact .inl before
        · exact .inr ⟨id, .inl rfl, rfl⟩
        · exact .inr ⟨id', .inr inside, rfl⟩
      · rintro (before | ⟨id', rfl | inside, rfl⟩)
        · exact .inl (.inl before)
        · exact .inl (.inr rfl)
        · exact .inr ⟨id', inside, rfl⟩
    · simp [here]

theorem DistributedGraph.exportLocations_spec (order : HashOrder)
    {requests : UnorderedMap (Fin n) (List (Id n))} {location : Id n → Fin n}
    (known : ∀ q id, id ∈ requests.valuesAt q → g.view.managed id = some (location id)) :
    (g.exportLocations order requests).2 = g ∧
    ∀ q message, message ∈ (g.exportLocations order requests).1.valuesAt q ↔
      ∃ id ∈ requests.valuesAt q, message = (id, location id) := by
  obtain ⟨unchanged, member⟩ := g.exportLocations_loop (requests.messages order) ∅ fun q id inside =>
    known q id ((UnorderedMap.mem_messages order requests q id).mp inside)
  refine ⟨unchanged, fun q answer => (member q answer).trans ?_⟩
  simp [UnorderedMap.mem_messages]

theorem GraphInv.importLocations (inv : GraphInv g) (order : HashOrder)
    {locations : UnorderedMap (Fin n) (List (Id n × Fin n))} (location : Id n → Fin n)
    (answers : ∀ q id found, (id, found) ∈ locations.valuesAt q →
      found = location id ∧ g.view.IsDistant id) :
    Refines (g.importLocations order locations)
      { g.view.locate (fun id => ∃ q found, (id, found) ∈ locations.valuesAt q) location with
        newLocal := fun _ => False } := by
  have arrived : ∀ q id found, (q, id, found) ∈ locations.messages order ↔
      (id, found) ∈ locations.valuesAt q := fun q id found =>
    UnorderedMap.mem_messages order locations q (id, found)
  obtain ⟨g', result, inv', view⟩ := inv.locate (locations.messages order)
    (f := fun g message =>
      if message.2.1 ∈ g.locationManager.distantNodes then g.setLocation message.2.1 message.2.2
      else none)
    (fun message => message.2.1) location rfl
    (fun h message invH _ listed distant => by
      obtain ⟨q, id, found⟩ := message
      rw [if_pos ((invH.distantNodes id).mpr distant),
        (answers q id found ((arrived q id found).mp listed)).1])
    (fun message listed => by
      obtain ⟨q, id, found⟩ := message
      exact (answers q id found ((arrived q id found).mp listed)).2)
  refine ⟨{ g' with locationManager := { g'.locationManager with newLocalNodes := ∅ } }, ?_, ?_, ?_⟩
  · unfold DistributedGraph.importLocations
    rw [result, Option.map_some]
  · exact ⟨inv'.source, inv'.target, inv'.outgoing, inv'.incoming, inv'.localNodes, inv'.distantNodes⟩
  · have told : ∀ id, id ∈ (locations.messages order).map (fun message => message.2.1) ↔
        ∃ q found, (id, found) ∈ locations.valuesAt q := by
      intro id
      rw [List.mem_map]
      constructor
      · rintro ⟨⟨q, _, found⟩, member, rfl⟩
        exact ⟨q, found, (arrived q _ found).mp member⟩
      · rintro ⟨q, found, member⟩
        exact ⟨(q, id, found), (arrived q id found).mpr member, rfl⟩
    have same : (fun id => id ∈ (locations.messages order).map (fun message => message.2.1)) =
        fun id => ∃ q found, (id, found) ∈ locations.valuesAt q := funext fun id => propext (told id)
    rw [same] at view
    have forgotten : (fun id => id ∈ (∅ : NodeMap n)) = fun _ => False := by
      funext id
      simp
    have parts : ∀ {v v' : GraphView n T W}, v = v' → { v with newLocal := fun _ => False } =
        { v' with newLocal := fun _ => False } := by
      rintro v _ rfl
      rfl
    rw [← parts view, ← forgotten]
    rfl

-- `location` says where the nodes are that some process has just got, and the origin of `id` learns it or
-- knows it.
def Known (s : Fin n → DistributedGraph n T W) (location : Id n → Fin n) (id : Id n) : Prop :=
  (s (location id)).view.newLocal id ∨
    (s id.rank).view.managed id = some (location id) ∧ ¬ (s id.rank).view.newLocal id

/-- `managed` is what the origins of the nodes know once the processes have told them which nodes they
have just got. -/
structure LocationsUpdated (fresh : Fin n → Id n → Prop) (before : Fin n → Id n → Option (Fin n))
    (location : Id n → Fin n) (managed : Fin n → Id n → Option (Fin n)) : Prop where
  reported : ∀ q id, fresh q id → q ≠ id.rank → managed id.rank id = some (location id)
  own : ∀ id, fresh id.rank id → (∀ q, fresh q id → q = id.rank) → managed id.rank id = some id.rank
  kept : ∀ p id, ¬ (id.rank = p ∧ ∃ q, fresh q id) → managed p id = before p id

theorem LocationsUpdated.known {s : Fin n → DistributedGraph n T W} {location : Id n → Fin n}
    {managed : Fin n → Id n → Option (Fin n)}
    (updated : LocationsUpdated (fun q => (s q).view.newLocal) (fun p => (s p).view.managed) location
      managed) {id : Id n} (known : Known s location id) : managed id.rank id = some (location id) := by
  by_cases told : ∃ q, (s q).view.newLocal id ∧ q ≠ id.rank
  · obtain ⟨q, there, away⟩ := told
    exact updated.reported q id there away
  · have home : ∀ q, (s q).view.newLocal id → q = id.rank := fun q there => by
      by_contra away
      exact told ⟨q, there, away⟩
    rcases known with here | ⟨before, unreported⟩
    · have own : location id = id.rank := home _ here
      rw [own] at here
      rw [updated.own id here home, own]
    · rw [updated.kept id.rank id, before]
      rintro ⟨_, q, there⟩
      rw [home q there] at there
      exact unreported there

theorem LocationsUpdated.unique {fresh : Fin n → Id n → Prop}
    {before : Fin n → Id n → Option (Fin n)} {location : Id n → Fin n}
    {managed managed' : Fin n → Id n → Option (Fin n)}
    (one : LocationsUpdated fresh before location managed)
    (two : LocationsUpdated fresh before location managed') : managed = managed' := by
  funext p id
  by_cases mine : id.rank = p ∧ ∃ q, fresh q id
  · obtain ⟨rfl, q, there⟩ := mine
    by_cases home : ∀ q, fresh q id → q = id.rank
    · have here : fresh id.rank id := home q there ▸ there
      rw [one.own id here home, two.own id here home]
    · rw [not_forall] at home
      obtain ⟨r, away⟩ := home
      rw [Classical.not_imp] at away
      rw [one.reported r id away.1 away.2, two.reported r id away.1 away.2]
  · rw [one.kept p id mine, two.kept p id mine]

section

variable (order : Fin n → HashOrder) {s : Fin n → DistributedGraph n T W} {location : Id n → Fin n}
  (inv : ∀ p, GraphInv (s p)) (rank : ∀ p, (s p).rank = p)

include inv rank

-- The origins of the nodes learn which processes have just got them.
theorem import_reports (moved : ∀ q id, (s q).view.newLocal id → q ≠ id.rank → location id = q)
    (known : ∀ p id, (s p).view.IsDistant id → Known s location id) :
    ∃ (s' : Fin n → DistributedGraph n T W) (managed : Fin n → Id n → Option (Fin n)),
      (collect fun p => ((s p).exportUpdatedLocations (order p)).2.importUpdatedLocations (order p)
        (migrate (fun q => ((s q).exportUpdatedLocations (order q)).1) p)) = some s' ∧
      (∀ p, GraphInv (s' p) ∧ (s' p).view =
        { (s p).view.locate (fun id => (s p).view.IsDistant id ∧ id.rank = p) location with
          managed := managed p }) ∧
      LocationsUpdated (fun q => (s q).view.newLocal) (fun p => (s p).view.managed) location managed := by
  have exports := fun p => (s p).exportUpdatedLocations_spec (order p)
  choose sent reported reports stored using exports
  let received := fun p => migrate (fun q => ((s q).exportUpdatedLocations (order q)).1) p
  have arrives : ∀ p q id, id ∈ (received p).valuesAt q ↔
      (s q).view.newLocal id ∧ id.rank = p ∧ p ≠ q := by
    intro p q id
    rw [valuesAt_migrate, sent, rank]
  have origin : ∀ id, Known s location id →
      (∃ q, id ∈ (received id.rank).valuesAt q) ∨ (reported id.rank).lookup id = some (location id) := by
    intro id known
    by_cases away : location id = id.rank
    · right
      rcases known with here | ⟨before, unreported⟩
      · rw [away] at here
        rw [(stored id.rank id).1 ⟨here, (rank _).symm⟩, rank, away]
      · rw [(stored id.rank id).2 fun here => unreported here.1]
        exact before
    · rcases known with there | ⟨before, unreported⟩
      · exact .inl ⟨location id, (arrives _ _ _).mpr ⟨there, rfl, fun same => away same.symm⟩⟩
      · right
        rw [(stored id.rank id).2 fun here => unreported here.1]
        exact before
  have imports : ∀ p, ∃ g, ((s p).exportUpdatedLocations (order p)).2.importUpdatedLocations (order p)
      (received p) = some g ∧ ∃ managed, GraphInv g ∧
      g.view = { (s p).view.locate (fun id => (s p).view.IsDistant id ∧ id.rank = p) location with
        managed } ∧
      ∀ id, ((∃ q, id ∈ (received p).valuesAt q) → managed id = some (location id)) ∧
        ((∀ q, id ∉ (received p).valuesAt q) → managed id = (reported p).lookup id) := by
    intro p
    obtain ⟨managed, ⟨g, result, inv', view⟩, learned⟩ :=
      ((inv p).withManaged (reported p)).importUpdatedLocations (order p)
        (fun q id member => by
          obtain ⟨there, origin, apart⟩ := (arrives p q id).mp member
          exact moved q id there fun same => apart (origin.symm.trans same.symm))
        (fun id distant own => by
          have own' : id.rank = p := own.trans (rank p)
          subst own'
          exact origin id (known _ id distant))
    refine ⟨g, by rw [reports p]; exact result, managed, inv', ?_, learned⟩
    rw [view, show ((s p).withManaged (reported p)).rank = p from rank p]
    rfl
  obtain ⟨s', result, good⟩ := collect_some imports
  choose managed inv' view learned using good
  refine ⟨s', managed, result, fun p => ⟨inv' p, view p⟩, ?_⟩
  constructor
  case reported =>
    exact fun q id there away => (learned id.rank id).1
      ⟨q, (arrives _ _ _).mpr ⟨there, rfl, fun same => away same.symm⟩⟩
  case own =>
    intro id here home
    rw [(learned id.rank id).2 fun q member => ?_, (stored id.rank id).1 ⟨here, (rank _).symm⟩, rank]
    obtain ⟨there, _, away⟩ := (arrives _ _ _).mp member
    exact away (home q there).symm
  case kept =>
    intro p id stays
    rw [(learned p id).2 fun q member => ?_, (stored p id).2 fun here => ?_]
    · exact stays ⟨here.2.trans (rank p), p, here.1⟩
    · obtain ⟨there, own, _⟩ := (arrives _ _ _).mp member
      exact stays ⟨own, q, there⟩

-- Each process asks the origins of its other DISTANT nodes where they are.
theorem import_answers (known : ∀ p id, (s p).view.IsDistant id →
      (s id.rank).view.managed id = some (location id)) :
    let requests := fun p => (s p).exportLocationRequests (order p)
    let responses := fun p => (s p).exportLocations (order p) (migrate requests p)
    ∃ s', (collect fun p => (responses p).2.importLocations (order p)
        (migrate (fun q => (responses q).1) p)) = some s' ∧
      ∀ p, GraphInv (s' p) ∧ (s' p).view =
        { (s p).view.locate (fun id => (s p).view.IsDistant id ∧ id.rank ≠ p) location with
          newLocal := fun _ => False } := by
  intro requests responses
  have asks : ∀ p q id, id ∈ (requests p).valuesAt q ↔
      (s p).view.IsDistant id ∧ id.rank = q ∧ q ≠ p := by
    intro p q id
    unfold requests DistributedGraph.exportLocationRequests
    rw [UnorderedMap.mem_pushAll, UnorderedMap.valuesAt_empty, List.mem_map]
    simp only [List.not_mem_nil, false_or, List.mem_filter, (inv p).mem_distantIds, rank,
      ne_eq, decide_eq_true_eq, Prod.mk.injEq]
    constructor
    · rintro ⟨_, ⟨distant, other⟩, rfl, rfl⟩
      exact ⟨distant, rfl, other⟩
    · rintro ⟨distant, rfl, other⟩
      exact ⟨id, ⟨distant, other⟩, rfl, rfl⟩
  have answerable : ∀ p q id, id ∈ (migrate requests p).valuesAt q →
      (s p).view.managed id = some (location id) := by
    intro p q id member
    rw [valuesAt_migrate, asks] at member
    obtain ⟨distant, rfl, _⟩ := member
    exact known q id distant
  have answers := fun p =>
    DistributedGraph.exportLocations_spec (g := s p) (order p) (answerable p)
  have imports : ∀ p, Refines
      ((responses p).2.importLocations (order p) (migrate (fun q => (responses q).1) p))
      { (s p).view.locate (fun id => (s p).view.IsDistant id ∧ id.rank ≠ p) location with
        newLocal := fun _ => False } := by
    intro p
    have told : ∀ q id found,
        (id, found) ∈ (migrate (fun q => (responses q).1) p).valuesAt q ↔
        ((s p).view.IsDistant id ∧ id.rank = q ∧ q ≠ p) ∧ found = location id := by
      intro q id found
      rw [valuesAt_migrate, (answers q).2, valuesAt_migrate]
      simp only [asks, Prod.mk.injEq]
      constructor
      · rintro ⟨_, asked, rfl, rfl⟩
        exact ⟨asked, rfl⟩
      · rintro ⟨asked, rfl⟩
        exact ⟨id, asked, rfl, rfl⟩
    rw [(answers p).1]
    refine Eq.mp (congrArg (Refines _) ?_) ((inv p).importLocations (order p) location
      fun q id found member => ?_)
    · have asked : (fun id => ∃ q found, (id, found) ∈ (migrate (fun q => (responses q).1) p).valuesAt q) =
          fun id => (s p).view.IsDistant id ∧ id.rank ≠ p := by
        funext id
        simp only [told]
        simp
      rw [asked]
    · obtain ⟨⟨distant, _⟩, same⟩ := (told q id found).mp member
      exact ⟨same, distant⟩
  exact collect_some imports

theorem updateLocations_spec
    (moved : ∀ q id, (s q).view.newLocal id → q ≠ id.rank → location id = q)
    (known : ∀ p id, (s p).view.IsDistant id → Known s location id) :
    ∃ (s' : Fin n → DistributedGraph n T W) (managed : Fin n → Id n → Option (Fin n)),
      updateLocations order s = some s' ∧
      (∀ p, GraphInv (s' p) ∧ (s' p).view =
        { (s p).view.locate (s p).view.IsDistant location with
          managed := managed p
          newLocal := fun _ => False }) ∧
      LocationsUpdated (fun q => (s q).view.newLocal) (fun p => (s p).view.managed) location managed := by
  obtain ⟨s₁, managed, reported, good, updated⟩ := import_reports order inv rank moved known
  have view := fun p => (good p).2
  have distant : ∀ p id, (s₁ p).view.IsDistant id ↔ (s p).view.IsDistant id := by
    intro p id
    rw [view]
    unfold GraphView.IsDistant GraphView.locate GraphView.amend
    dsimp only
    split
    · cases (s p).view.core id <;> simp
    · rfl
  have rank₁ : ∀ p, (s₁ p).rank = p := fun p => (congrArg GraphView.rank (view p)).trans (rank p)
  have learned : ∀ p id, (s₁ p).view.IsDistant id →
      (s₁ id.rank).view.managed id = some (location id) := by
    intro p id there
    rw [view]
    exact updated.known (known p id ((distant p id).mp there))
  obtain ⟨s', answered, settled⟩ := import_answers order (fun p => (good p).1) rank₁ learned
  refine ⟨s', managed, ?_, fun p => ⟨(settled p).1, ?_⟩, updated⟩
  · unfold updateLocations
    dsimp only
    rw [reported, Option.bind_some]
    exact answered
  · rw [(settled p).2]
    simp only [distant]
    rw [view]
    ext1 <;> try rfl
    funext id
    simp only [GraphView.locate, GraphView.amend]
    by_cases there : (s p).view.IsDistant id
    · by_cases own : id.rank = p
      · simp [there, own]
      · simp [there, own]
    · simp [there]

end

end Fpmas.Graph
