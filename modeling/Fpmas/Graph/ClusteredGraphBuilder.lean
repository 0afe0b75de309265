import Mathlib.Algebra.Order.Ring.Int
import Fpmas.Graph.GraphBuilder
import Fpmas.Library.NearestItems

set_option autoImplicit false

namespace Fpmas.Graph

variable {n : Nat} {K ι : Type}

structure Point (K : Type) where
  x : K
  y : K

structure LocalizedNode (n : Nat) (K : Type) where
  p : Point K
  node : Id n

structure LocalizedNodeView (n : Nat) (K : Type) where
  p : Point K
  node_id : Id n
  location : Fin n

section Builders

variable [Ring K]

def Point.distance (p1 p2 : Point K) : K := (p2.y - p1.y) ^ 2 + (p2.x - p1.x) ^ 2

variable [LinearOrder K]

-- `DistanceComparator`, from the reference point `p`.
def nearer (p p1 p2 : Point K) : Bool := Point.distance p1 p < Point.distance p2 p

-- The loop of the two builders, where the buffer holds the nodes or their views.
def drawNearest (point : ι → Point K) (key : ι → Id n) (num_edge : Nat → Nat) (buffer : List ι) :
    Nat → List (LocalizedNode n K) → Option (List (Id n × List ι))
  | _, [] => some []
  | k, node :: rest =>
    (buffer.length.checkedSub 1).bind fun others =>
    let edge_count := min (num_edge k) others
    let comp := fun first second => nearer node.p (point first) (point second)
    let skip := fun item => decide (key item = node.node)
    (List.fillNearest comp skip edge_count buffer []).bind fun filled =>
    let nearest_nodes := filled.2.foldl
      (fun nearest item => if skip item then nearest else List.replaceLast comp nearest item) filled.1
    (drawNearest point key num_edge buffer (k + 1) rest).map fun others =>
      (node.node, nearest_nodes) :: others

def ClusteredGraphBuilder.build (num_edge : Nat → Nat) (built_nodes : List (LocalizedNode n K)) :
    Option (List (BuilderCall n)) :=
  (drawNearest LocalizedNode.p LocalizedNode.node num_edge built_nodes 0 built_nodes).map fun drawn =>
    (pairs drawn).map fun pair => .link pair.1 pair.2.node

namespace DistributedClusteredGraphBuilder

def view (location : Fin n) (node : LocalizedNode n K) : LocalizedNodeView n K where
  p := node.p
  node_id := node.node
  location

def views (built_nodes : Fin n → List (LocalizedNode n K)) : List (LocalizedNodeView n K) :=
  concatAll fun p => (built_nodes p).map (view p)

def locId (view : LocalizedNodeView n K) : LocId n := (view.node_id, view.location)

def build (num_edge : Nat → Nat) (built_nodes : Fin n → List (LocalizedNode n K)) (p : Fin n)
    (nodes : List (Id n)) : Option (List (BuilderCall n)) :=
  (drawNearest LocalizedNodeView.p LocalizedNodeView.node_id num_edge (views built_nodes) 0
      (built_nodes p)).map fun drawn =>
    linkTargets nodes ((pairs drawn).map fun pair => (pair.1, locId pair.2))

end DistributedClusteredGraphBuilder

section Nearest

variable {point : ι → Point K} {key : ι → Id n} {num_edge : Nat → Nat} {buffer : List ι}

/-- The items for one source: as many as its degree says, and none of the others is nearer. -/
structure NearestOf (point : ι → Point K) (available : List ι) (p : Point K) (degree : Nat)
    (items : List ι) : Prop where
  drawn : DrawnFrom available degree items
  nearest : ∀ item ∈ items, ∀ other ∈ available, other ∉ items →
    Point.distance (point item) p ≤ Point.distance (point other) p

variable (point) in
theorem drawNearest_step (once : (buffer.map key).Nodup) (source : LocalizedNode n K)
    (listed : source.node ∈ buffer.map key) (degree : Nat) :
    let comp := fun first second => nearer source.p (point first) (point second)
    let skip := fun item => decide (key item = source.node)
    ∃ filled items, List.fillNearest comp skip (min degree (buffer.length - 1)) buffer [] = some filled ∧
      filled.2.foldl
        (fun nearest item => if skip item then nearest else List.replaceLast comp nearest item) filled.1 =
          items ∧
      NearestOf point (others key buffer source.node) source.p degree items := by
  intro comp skip
  have orders : ∀ first second, comp first second = true ↔
      Point.distance (point first) source.p < Point.distance (point second) source.p :=
    fun first second => decide_eq_true_iff
  have skips : (fun item => !skip item) = fun item => decide (key item ≠ source.node) := by
    funext item
    simp [skip]
  have size := length_others once listed
  have start : List.Nearest (fun item => Point.distance (point item) source.p) [] [] [] :=
    { all := .rfl
      sorted := .nil
      farther := fun _ member => nomatch member }
  have rest : (buffer.filter fun item => !skip item) = others key buffer source.node := by
    rw [skips]
    rfl
  have enough : min degree (buffer.length - 1) ≤
      ([] : List ι).length + (buffer.filter fun item => !skip item).length := by
    rw [rest, List.length_nil]
    omega
  obtain ⟨best, later, before, filled, split, length, holds⟩ :=
    start.fill orders buffer (Nat.zero_le _) enough
  obtain ⟨left, holds', length'⟩ := holds.foldl orders later
  refine ⟨(best, later), _, filled, rfl, ?_⟩
  dsimp only
  generalize later.foldl _ best = items at holds' length' ⊢
  -- All the other nodes have been seen.
  have all : (items ++ left).Perm (others key buffer source.node) := by
    refine holds'.all.trans ?_
    rw [List.append_nil, ← List.reverse_append, ← List.filter_append, ← split, rest]
    exact List.reverse_perm _
  constructor
  case drawn =>
    refine ⟨by rw [length', length]; omega, ?_⟩
    exact (List.sublist_append_left items left).subperm.trans all.subperm
  case nearest =>
    intro item inside other seen outside
    rcases List.mem_append.mp (all.mem_iff.mpr seen) with chosen | dropped
    next => exact absurd chosen outside
    next => exact holds'.farther other dropped item inside

variable (point num_edge) in
theorem drawNearest_spec (once : (buffer.map key).Nodup) (sources : List (LocalizedNode n K)) (k : Nat)
    (listed : ∀ source ∈ sources, source.node ∈ buffer.map key) :
    ∃ drawn, drawNearest point key num_edge buffer k sources = some drawn ∧
      drawn.map Prod.fst = sources.map LocalizedNode.node ∧
      ∀ j source, sources[j]? = some source → ∃ items, drawn[j]? = some (source.node, items) ∧
        NearestOf point (others key buffer source.node) source.p (num_edge (k + j)) items := by
  induction sources generalizing k with
  | nil => exact ⟨[], rfl, rfl, fun _ _ found => nomatch found⟩
  | cons source rest ih =>
    obtain ⟨filled, items, ran, kept, nearest⟩ :=
      drawNearest_step point once source (listed source List.mem_cons_self) (num_edge k)
    obtain ⟨later, ran', sources, each⟩ :=
      ih (k + 1) fun other member => listed other (List.mem_cons_of_mem source member)
    have some_ : 1 ≤ buffer.length := by
      have := length_others once (listed source List.mem_cons_self)
      omega
    refine ⟨(source.node, items) :: later, ?_, ?_, ?_⟩
    next => simp only [drawNearest, Nat.checkedSub_of_le some_, Option.bind_some, ran, kept, ran',
        Option.map_some]
    next => rw [List.map_cons, sources, List.map_cons]
    next =>
      intro j other found
      cases j with
      | zero =>
        cases found
        exact ⟨_, rfl, nearest⟩
      | succ j =>
        obtain ⟨items, here, nearest'⟩ := each j other found
        rw [Nat.add_right_comm, Nat.add_assoc] at nearest'
        exact ⟨items, here, nearest'⟩

-- The nodes linked to a source: as many as its degree says, and none of the others is nearer.
structure LinksNearest (built : List (LocalizedNode n K)) (degree : Nat) (source : LocalizedNode n K)
    (targets : List (Id n)) : Prop where
  drawn : DrawsOthers (built.map LocalizedNode.node) degree source.node targets
  nearest : ∀ linked ∈ built, linked.node ∈ targets → ∀ other ∈ built, other.node ≠ source.node →
    other.node ∉ targets → Point.distance linked.p source.p ≤ Point.distance other.p source.p

theorem NearestOf.links {source : LocalizedNode n K} {degree : Nat} {items : List ι}
    (nearest : NearestOf point (others key buffer source.node) source.p degree items)
    (once : (buffer.map key).Nodup) (listed : source.node ∈ buffer.map key)
    {built : List (LocalizedNode n K)} (keys : buffer.map key = built.map LocalizedNode.node)
    (shown : ∀ node ∈ built, ∃ item ∈ buffer, key item = node.node ∧ point item = node.p) :
    LinksNearest built degree source (items.map key) where
  drawn := keys ▸ nearest.drawn.others once listed
  nearest := by
    intro linked inBuilt target other inBuilt' apart unlinked
    obtain ⟨item, member, sameNode, samePoint⟩ := shown linked inBuilt
    obtain ⟨item', member', sameNode', samePoint'⟩ := shown other inBuilt'
    obtain ⟨chosen, inside, same⟩ := List.mem_map.mp target
    have chosenIn := (List.mem_filter.mp (nearest.drawn.withoutReplacement.subset inside)).1
    rw [List.inj_on_of_nodup_map once chosenIn member (same.trans sameNode.symm)] at inside
    have seen : item' ∈ others key buffer source.node := by
      rw [← sameNode'] at apart
      exact List.mem_filter.mpr ⟨member', decide_eq_true apart⟩
    have outside : item' ∉ items := fun again =>
      unlinked (sameNode' ▸ List.mem_map_of_mem again)
    have closer := nearest.nearest item inside item' seen outside
    rwa [samePoint, samePoint'] at closer

theorem ClusteredGraphBuilder.build_spec {built_nodes : List (LocalizedNode n K)}
    (once : (built_nodes.map LocalizedNode.node).Nodup) :
    ∃ calls, build num_edge built_nodes = some calls ∧ ∀ k source, built_nodes[k]? = some source →
      LinksNearest built_nodes (num_edge k) source (outTargets calls source.node) := by
  obtain ⟨drawn, ran, sources, each⟩ := drawNearest_spec LocalizedNode.p
    num_edge once built_nodes 0 fun source member => List.mem_map_of_mem member
  refine ⟨_, by rw [build, ran]; rfl, fun k source found => ?_⟩
  obtain ⟨items, here, nearest⟩ := each k source found
  rw [Nat.zero_add] at nearest
  have targets := itemsOf_pairs (sources ▸ once) here
  rw [outTargets_link_map, targets]
  exact nearest.links once (List.mem_map_of_mem (List.mem_of_getElem? found)) rfl
    fun node member => ⟨node, member, rfl, rfl⟩

namespace DistributedClusteredGraphBuilder

omit [Ring K] [LinearOrder K] in
theorem views_map (built_nodes : Fin n → List (LocalizedNode n K)) :
    (views built_nodes).map LocalizedNodeView.node_id =
      (concatAll built_nodes).map LocalizedNode.node := by
  simp [views, concatAll, List.map_flatMap, Function.comp_def, view]

theorem build_spec {built_nodes : Fin n → List (LocalizedNode n K)}
    (once : ∀ q, ((built_nodes q).map LocalizedNode.node).Nodup)
    (own : ∀ q, ∀ built ∈ built_nodes q, built.node.rank = q) (p : Fin n) (nodes : List (Id n)) :
    ∃ calls, build num_edge built_nodes p nodes = some calls ∧
      ∀ k source, (built_nodes p)[k]? = some source →
        LinksNearest (concatAll built_nodes) (num_edge k) source (outTargets calls source.node) := by
  have all : ((views built_nodes).map LocalizedNodeView.node_id).Nodup := by
    rw [views_map, concatAll, List.map_flatMap]
    refine List.nodup_flatMap.mpr ⟨fun q _ => once q,
      (List.nodup_finRange n).imp fun apart id here there => ?_⟩
    obtain ⟨built, member, rfl⟩ := List.mem_map.mp here
    obtain ⟨built', member', same⟩ := List.mem_map.mp there
    exact apart ((own _ built member).symm.trans (same ▸ own _ built' member'))
  have mem_all : ∀ q, ∀ built ∈ built_nodes q, built ∈ concatAll built_nodes :=
    fun q built member => List.mem_flatMap.mpr ⟨q, List.mem_finRange q, member⟩
  have listed : ∀ source ∈ built_nodes p,
      source.node ∈ (views built_nodes).map LocalizedNodeView.node_id := by
    intro source member
    rw [views_map]
    exact List.mem_map_of_mem (mem_all p source member)
  obtain ⟨drawn, ran, sources, each⟩ := drawNearest_spec LocalizedNodeView.p
    num_edge all (built_nodes p) 0 listed
  refine ⟨_, by rw [build, ran]; rfl, fun k source found => ?_⟩
  obtain ⟨items, here, nearest⟩ := each k source found
  rw [Nat.zero_add] at nearest
  have targets := itemsOf_pairs (sources ▸ once p) here
  rw [outTargets_linkTargets, itemsOf_map locId, targets, List.map_map]
  refine nearest.links all (listed source (List.mem_of_getElem? found)) (views_map built_nodes)
    fun node member => ?_
  obtain ⟨q, _, inside⟩ := List.mem_flatMap.mp member
  exact ⟨view q node, List.mem_flatMap.mpr ⟨q, List.mem_finRange q, List.mem_map_of_mem inside⟩, rfl, rfl⟩

end DistributedClusteredGraphBuilder

end Nearest

section SingleProcess

theorem drawNearest_map {β : Type} {point : ι → Point K} {key : ι → Id n} {point' : β → Point K}
    {key' : β → Id n} (f : ι → β) (points : ∀ item, point' (f item) = point item)
    (keys : ∀ item, key' (f item) = key item) (num_edge : Nat → Nat) (buffer : List ι) (k : Nat)
    (sources : List (LocalizedNode n K)) :
    drawNearest point' key' num_edge (buffer.map f) k sources =
      (drawNearest point key num_edge buffer k sources).map fun drawn =>
        drawn.map fun entry => (entry.1, entry.2.map f) := by
  induction sources generalizing k with
  | nil => rfl
  | cons source rest ih =>
    let comp := fun first second => nearer source.p (point first) (point second)
    let comp' := fun first second => nearer source.p (point' first) (point' second)
    let skip := fun item => decide (key item = source.node)
    let skip' := fun item => decide (key' item = source.node)
    have same : ∀ first second, comp' (f first) (f second) = comp first second := by
      intro first second
      simp only [comp, comp', points]
    have skips : ∀ item, skip' (f item) = skip item := by
      intro item
      simp only [skip, skip', keys]
    rw [drawNearest, drawNearest, List.length_map]
    cases buffer.length.checkedSub 1 with
    | none => rfl
    | some others =>
      have filled := List.fillNearest_map same skips (min (num_edge k) others) buffer []
      rw [List.map_nil] at filled
      simp only [comp, comp', skip, skip'] at filled
      simp only [Option.bind_some, filled]
      cases List.fillNearest (fun first second => nearer source.p (point first) (point second))
          (fun item => decide (key item = source.node)) (min (num_edge k) others) buffer [] with
      | none => rfl
      | some found =>
        have kept := List.foldl_replaceLast_map same skips found.2 found.1
        simp only [comp, comp', skip, skip'] at kept
        simp only [Option.map_some, Option.bind_some, kept, ih]
        cases drawNearest point key num_edge buffer (k + 1) rest with
        | none => rfl
        | some later => rfl

omit [Ring K] [LinearOrder K] in
theorem pairs_map {β : Type} (f : ι → β) (drawn : List (Id n × List ι)) :
    pairs (drawn.map fun entry => (entry.1, entry.2.map f)) =
      (pairs drawn).map fun pair => (pair.1, f pair.2) := by
  simp [pairs, List.flatMap_map, List.map_flatMap, Function.comp_def]

omit [Ring K] [LinearOrder K] in
theorem linkTargets_known {nodes : List (Id n)} (links : List (Id n × LocId n))
    (known : ∀ link ∈ links, link.2.1 ∈ nodes) :
    linkTargets nodes links = links.map fun link => .link link.1 link.2.1 := by
  induction links with
  | nil => rfl
  | cons link rest ih =>
    have here := known link List.mem_cons_self
    rw [linkTargets, if_pos (List.contains_iff_mem.mpr here),
      ih fun other member => known other (List.mem_cons_of_mem link member)]
    rfl

theorem build_single_process (num_edge : Nat → Nat) {built_nodes : List (LocalizedNode 1 K)}
    (once : (built_nodes.map LocalizedNode.node).Nodup) {nodes : List (Id 1)}
    (known : ∀ built ∈ built_nodes, built.node ∈ nodes) :
    DistributedClusteredGraphBuilder.build num_edge (fun _ => built_nodes) 0 nodes =
      ClusteredGraphBuilder.build num_edge built_nodes := by
  have views : DistributedClusteredGraphBuilder.views (fun _ : Fin 1 => built_nodes) =
      built_nodes.map (DistributedClusteredGraphBuilder.view 0) := by
    simp [DistributedClusteredGraphBuilder.views, concatAll, List.finRange_succ]
  obtain ⟨drawn, ran, sources, each⟩ := drawNearest_spec LocalizedNode.p num_edge once built_nodes 0
    fun source member => List.mem_map_of_mem member
  have mapped : drawNearest LocalizedNodeView.p LocalizedNodeView.node_id num_edge
      (built_nodes.map (DistributedClusteredGraphBuilder.view 0)) 0 built_nodes =
        (drawNearest LocalizedNode.p LocalizedNode.node num_edge built_nodes 0 built_nodes).map
          fun drawn => drawn.map fun entry =>
            (entry.1, entry.2.map (DistributedClusteredGraphBuilder.view 0)) :=
    drawNearest_map _ (fun _ => rfl) (fun _ => rfl) num_edge built_nodes 0 built_nodes
  rw [DistributedClusteredGraphBuilder.build, ClusteredGraphBuilder.build, views, mapped, ran]
  -- The targets are built nodes, that the graph has.
  have targets : ∀ pair ∈ pairs drawn, pair.2 ∈ built_nodes := by
    intro pair member
    obtain ⟨entry, listed, inside⟩ := List.mem_flatMap.mp member
    obtain ⟨item, chosen, rfl⟩ := List.mem_map.mp inside
    obtain ⟨j, here⟩ := List.mem_iff_getElem?.mp listed
    have source := congrArg (fun nodes : List (Id 1) => nodes[j]?) sources
    simp only [List.getElem?_map, here, Option.map_some] at source
    obtain ⟨built, found, _⟩ := Option.map_eq_some_iff.mp source.symm
    obtain ⟨items, here', nearest⟩ := each j built found
    cases here.symm.trans here'
    exact (List.mem_filter.mp (nearest.drawn.withoutReplacement.subset chosen)).1
  simp only [Option.map_some, pairs_map, List.map_map]
  rw [linkTargets_known _ fun link member => ?_, List.map_map]
  next => rfl
  next =>
    obtain ⟨pair, inside, rfl⟩ := List.mem_map.mp member
    exact known pair.2 (targets pair inside)

end SingleProcess

theorem clustered_builders_link_nearest (num_edge : Nat → Nat) :
    (∀ built_nodes : List (LocalizedNode n K), (built_nodes.map LocalizedNode.node).Nodup →
      ∃ calls, ClusteredGraphBuilder.build num_edge built_nodes = some calls ∧
        ∀ k source, built_nodes[k]? = some source →
          LinksNearest built_nodes (num_edge k) source (outTargets calls source.node)) ∧
    (∀ built_nodes : Fin n → List (LocalizedNode n K),
      (∀ q, ((built_nodes q).map LocalizedNode.node).Nodup) →
      (∀ q, ∀ built ∈ built_nodes q, built.node.rank = q) → ∀ p nodes,
      ∃ calls, DistributedClusteredGraphBuilder.build num_edge built_nodes p nodes = some calls ∧
        ∀ k source, (built_nodes p)[k]? = some source →
          LinksNearest (concatAll built_nodes) (num_edge k) source (outTargets calls source.node)) ∧
    ∀ built_nodes : List (LocalizedNode 1 K), (built_nodes.map LocalizedNode.node).Nodup →
      ∀ nodes, (∀ built ∈ built_nodes, built.node ∈ nodes) →
      DistributedClusteredGraphBuilder.build num_edge (fun _ => built_nodes) 0 nodes =
        ClusteredGraphBuilder.build num_edge built_nodes :=
  ⟨fun _ once => ClusteredGraphBuilder.build_spec once,
    fun _ once own p nodes => DistributedClusteredGraphBuilder.build_spec once own p nodes,
    fun _ once _ known => build_single_process num_edge once known⟩

def onLine (p : Fin n) : List (LocalizedNode n Int) :=
  [{ p := { x := 0, y := 0 }, node := ⟨p, 0⟩ }, { p := { x := 0, y := 0 }, node := ⟨p, 1⟩ },
    { p := { x := 4, y := 0 }, node := ⟨p, 2⟩ }]

theorem clustered_builders_on_line :
    (∃ calls, ClusteredGraphBuilder.build (fun _ => 1) (onLine (0 : Fin 2)) = some calls ∧
      LinksNearest (onLine (0 : Fin 2)) 1 { p := { x := 4, y := 0 }, node := ⟨0, 2⟩ }
        (outTargets calls ⟨0, 2⟩)) ∧
    (∃ calls, DistributedClusteredGraphBuilder.build (fun _ => 1) (onLine : Fin 2 → List (LocalizedNode 2 Int)) 0 [] = some calls ∧
      LinksNearest (concatAll (onLine : Fin 2 → List (LocalizedNode 2 Int))) 1 { p := { x := 4, y := 0 }, node := ⟨0, 2⟩ }
        (outTargets calls ⟨0, 2⟩)) ∧
    DistributedClusteredGraphBuilder.build (fun _ => 1) (fun _ : Fin 1 => onLine 0) 0
        [⟨0, 0⟩, ⟨0, 1⟩, ⟨0, 2⟩] =
      ClusteredGraphBuilder.build (fun _ => 1) (onLine (0 : Fin 1)) := by
  obtain ⟨clustered, distributed, _⟩ := clustered_builders_link_nearest (n := 2) (K := Int) fun _ => 1
  obtain ⟨_, _, single⟩ := clustered_builders_link_nearest (n := 1) (K := Int) fun _ => 1
  refine ⟨?_, ?_, single (onLine 0) (by decide) _ (by decide)⟩
  next =>
    obtain ⟨calls, ran, each⟩ := clustered (onLine 0) (by decide)
    exact ⟨calls, ran, each 2 _ rfl⟩
  next =>
    obtain ⟨calls, ran, each⟩ := distributed onLine (by decide) (by decide) 0 []
    exact ⟨calls, ran, each 2 _ rfl⟩

end Builders

end Fpmas.Graph
