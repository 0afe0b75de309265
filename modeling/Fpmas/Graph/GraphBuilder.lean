import Mathlib.Data.List.FinRange
import Fpmas.Graph.Elements
import Fpmas.Library.PartialShuffle

set_option autoImplicit false

namespace Fpmas.Graph

variable {n : Nat} {β : Type}

-- What the random distributions return: a degree for each source, and an index for each edge.
structure EdgeDraws where
  num_edge : Nat → Nat
  index : Nat → Nat → Nat

-- The calls of a builder to the graph, or to the node builder.
inductive BuilderCall (n : Nat) where
  | link (source target : Id n)
  | buildDistantNode (id : Id n) (location : Fin n)
deriving DecidableEq

def BuilderCall.targetOf (node : Id n) : BuilderCall n → Option (Id n)
  | .link source target => if source = node then some target else none
  | .buildDistantNode _ _ => none

def outTargets (calls : List (BuilderCall n)) (node : Id n) : List (Id n) :=
  calls.filterMap (BuilderCall.targetOf node)

abbrev Drawn (n : Nat) (β : Type) := List (Id n × List β) × List β

-- The two uniform builders, where the buffer holds the nodes themselves or their ids and locations.
-- `key` is the node of an item, and `size` the size of the list of all the nodes.
def drawUniformly (key : β → Id n) (draws : EdgeDraws) (size : Nat) :
    Nat → List (Id n) → List β → Option (Drawn n β)
  | _, [], buffer => some ([], buffer)
  | k, node :: rest, buffer =>
    (size.checkedSub 1).bind fun others =>
    let edge_count := min (draws.num_edge k) others
    (buffer.findIdx? fun item => key item = node).bind fun position =>
    (buffer.length.checkedSub 1).bind fun back =>
    (buffer.exchange position back).bind fun buffer =>
    (List.draw 2 (draws.index k) edge_count 0 buffer).bind fun drawn =>
    (drawUniformly key draws size (k + 1) rest drawn.2).map fun others =>
      ((node, drawn.1) :: others.1, others.2)

structure Built (n : Nat) (β : Type) where
  calls : List (BuilderCall n)
  buffer : List β

def pairs (drawn : List (Id n × List β)) : List (Id n × β) :=
  drawn.flatMap fun entry => entry.2.map fun item => (entry.1, item)

def linkDrawn (drawn : Drawn n (Id n)) : Built n (Id n) where
  calls := (pairs drawn.1).map fun pair => .link pair.1 pair.2
  buffer := drawn.2

def UniformGraphBuilder.build (draws : EdgeDraws) (built_nodes : List (Id n)) :
    Option (Built n (Id n)) :=
  (drawUniformly id draws built_nodes.length 0 built_nodes built_nodes).map linkDrawn

abbrev LocId (n : Nat) := Id n × Fin n

-- `all_reduce` with `Concat`.
def concatAll (items : Fin n → List β) : List β := (List.finRange n).flatMap items

-- The links to the targets, where `nodes` are those of the graph: `buildDistantNode` inserts one.
def linkTargets : List (Id n) → List (Id n × LocId n) → List (BuilderCall n)
  | _, [] => []
  | nodes, (node, id) :: rest =>
    if nodes.contains id.1 then .link node id.1 :: linkTargets nodes rest
    else .buildDistantNode id.1 id.2 :: .link node id.1 :: linkTargets (id.1 :: nodes) rest

namespace DistributedUniformGraphBuilder

def nodeIds (built_nodes : Fin n → List (Id n)) : List (LocId n) :=
  concatAll fun p => (built_nodes p).map fun id => (id, p)

-- The part of a process, where `nodes` are the nodes of its graph when it starts to link them.
def build (draws : EdgeDraws) (built_nodes : Fin n → List (Id n)) (p : Fin n) (nodes : List (Id n)) :
    Option (Built n (LocId n)) :=
  let node_ids := nodeIds built_nodes
  (drawUniformly Prod.fst draws node_ids.length 0 (built_nodes p) node_ids).map fun drawn =>
    { calls := linkTargets nodes (pairs drawn.1)
      buffer := drawn.2 }

end DistributedUniformGraphBuilder

namespace BipartiteGraphBuilder

def drawBase (draws : EdgeDraws) : Nat → List (Id n) → List (Id n) → Option (Drawn n (Id n))
  | _, [], base_nodes => some ([], base_nodes)
  | k, node :: rest, base_nodes =>
    let out_neighbors_count := min base_nodes.length (draws.num_edge k)
    (List.draw 1 (draws.index k) out_neighbors_count 0 base_nodes).bind fun drawn =>
    (drawBase draws (k + 1) rest drawn.2).map fun others =>
      ((node, drawn.1) :: others.1, others.2)

def build (draws : EdgeDraws) (built_nodes base_nodes : List (Id n)) : Option (Built n (Id n)) :=
  (drawBase draws 0 built_nodes base_nodes).map linkDrawn

end BipartiteGraphBuilder

-- The targets drawn for a node, out of the available items.
structure DrawnFrom (available : List β) (degree : Nat) (targets : List β) : Prop where
  degree : targets.length = min degree available.length
  withoutReplacement : targets.Subperm available

theorem DrawnFrom.perm {available available' : List β} {degree : Nat} {targets : List β}
    (drawn : DrawnFrom available degree targets) (perm : available.Perm available') :
    DrawnFrom available' degree targets where
  degree := by rw [drawn.degree, perm.length_eq]
  withoutReplacement := perm.subperm_left.mp drawn.withoutReplacement

def DrawnEach (available : Id n → List β) (degree : Nat → Nat) (drawn : List (Id n × List β)) : Prop :=
  ∀ k entry, drawn[k]? = some entry → DrawnFrom (available entry.1) (degree k) entry.2

theorem DrawnEach.cons {available : Id n → List β} {degree : Nat → Nat} {entry : Id n × List β}
    {drawn : List (Id n × List β)} (first : DrawnFrom (available entry.1) (degree 0) entry.2)
    (others : DrawnEach available (fun k => degree (k + 1)) drawn) :
    DrawnEach available degree (entry :: drawn) := by
  intro k entry' found
  cases k with
  | zero =>
    cases found
    exact first
  | succ k => exact others k entry' found

section Uniform

variable {key : β → Id n} {draws : EdgeDraws} {buffer : List β}

variable (key) in
def others (buffer : List β) (node : Id n) : List β := buffer.filter fun item => key item ≠ node

theorem others_perm {front : List β} {item : β} (once : ((front ++ [item]).map key).Nodup) :
    others key (front ++ [item]) (key item) = front := by
  rw [others, List.filter_append, List.filter_eq_self.mpr fun other member => ?_]
  next => simp
  next =>
    rw [List.map_append, List.nodup_append] at once
    simpa using once.2.2 (key other) (List.mem_map_of_mem member) (key item) (by simp)

theorem length_others (once : (buffer.map key).Nodup) {node : Id n} (listed : node ∈ buffer.map key) :
    (others key buffer node).length + 1 = buffer.length := by
  obtain ⟨item, member, rfl⟩ := List.mem_map.mp listed
  obtain ⟨before, after, rfl⟩ := List.append_of_mem member
  have perm : (before ++ item :: after).Perm (before ++ after ++ [item]) := by
    rw [List.append_assoc]
    exact (List.perm_append_left_iff before).mpr (List.perm_append_singleton item after).symm
  have once' : ((before ++ after ++ [item]).map key).Nodup := (perm.map key).nodup_iff.mp once
  have same := (perm.filter fun other => decide (key other ≠ key item)).length_eq
  have gone := others_perm once'
  unfold others at gone ⊢
  rw [same, gone, perm.length_eq, List.length_append, List.length_append, List.length_append]
  rfl

-- One source: its own item goes to the end, where it is not drawn.
theorem drawUniformly_step (once : (buffer.map key).Nodup) {node : Id n} (listed : node ∈ buffer.map key)
    (k : Nat) (inclusive : ∀ i < min (draws.num_edge k) (buffer.length - 1),
      draws.index k i ≤ buffer.length - 2 - i) :
    ∃ position buffer' targets buffer'',
      buffer.findIdx? (fun item => key item = node) = some position ∧
      buffer.exchange position (buffer.length - 1) = some buffer' ∧
      List.draw 2 (draws.index k) (min (draws.num_edge k) (buffer.length - 1)) 0 buffer' =
        some (targets, buffer'') ∧
      buffer''.Perm buffer ∧ DrawnFrom (others key buffer node) (draws.num_edge k) targets := by
  obtain ⟨item, member, rfl⟩ := List.mem_map.mp listed
  have present : (buffer.findIdx? fun other => key other = key item).isSome = true := by
    rw [List.findIdx?_isSome, List.any_eq_true]
    exact ⟨item, member, decide_eq_true rfl⟩
  obtain ⟨position, found⟩ := Option.isSome_iff_exists.mp present
  obtain ⟨inside, same, _⟩ := List.findIdx?_eq_some_iff_getElem.mp found
  have alone : buffer[position] = item :=
    List.inj_on_of_nodup_map once (List.getElem_mem inside) member (by simpa using same)
  obtain ⟨front, exchanged, perm⟩ := List.exchange_last [] inside
  rw [List.append_nil, alone] at exchanged
  rw [alone] at perm
  have size := perm.length_eq
  rw [List.length_append, List.length_singleton] at size
  have rest : (others key buffer (key item)).Perm front := by
    have filtered := perm.filter fun other => decide (key other ≠ key item)
    have gone := others_perm ((perm.map key).nodup_iff.mpr once)
    unfold others at gone ⊢
    rw [gone] at filtered
    exact filtered.symm
  obtain ⟨targets, front', drawn, length, perm'⟩ := List.draw_spec 2 (draws.index k)
    (min (draws.num_edge k) (buffer.length - 1)) 0 front [item] rfl (by omega) fun j before => by
      have bound := inclusive j before
      rw [Nat.zero_add]
      omega
  refine ⟨position, _, targets, _, found, exchanged, drawn, ?_, ?_⟩
  next => exact (perm'.append_right [item]).trans perm
  next =>
    have drawnFrom : DrawnFrom front (draws.num_edge k) targets :=
      { degree := by rw [length]; omega
        withoutReplacement := (List.reverse_perm targets).symm.subperm.trans
          ((List.sublist_append_right front' targets.reverse).subperm.trans perm'.subperm) }
    exact drawnFrom.perm rest.symm

theorem drawUniformly_spec (sources : List (Id n)) (k : Nat) (once : (buffer.map key).Nodup)
    (listed : ∀ node ∈ sources, node ∈ buffer.map key)
    (inclusive : ∀ j < sources.length, ∀ i < min (draws.num_edge (k + j)) (buffer.length - 1),
      draws.index (k + j) i ≤ buffer.length - 2 - i) :
    ∃ drawn, drawUniformly key draws buffer.length k sources buffer = some drawn ∧
      drawn.2.Perm buffer ∧ drawn.1.map Prod.fst = sources ∧
      DrawnEach (others key buffer) (fun j => draws.num_edge (k + j)) drawn.1 := by
  induction sources generalizing k buffer with
  | nil => exact ⟨([], buffer), rfl, .rfl, rfl, fun _ _ found => nomatch found⟩
  | cons node rest ih =>
    obtain ⟨position, buffer₁, targets, buffer₂, found, exchanged, drawn, perm, drawnFrom⟩ :=
      drawUniformly_step once (listed node List.mem_cons_self) k (inclusive 0 (by simp))
    have size := perm.length_eq
    obtain ⟨later, ran, perm', sources, each⟩ := ih (k + 1) ((perm.map key).nodup_iff.mpr once)
      (fun other member => (perm.map key).mem_iff.mpr (listed other (List.mem_cons_of_mem node member)))
      fun j before i few => by
        rw [Nat.add_right_comm, Nat.add_assoc] at few ⊢
        rw [size] at few ⊢
        exact inclusive (j + 1) (by rw [List.length_cons]; omega) i few
    have some_ : 1 ≤ buffer.length := by
      have := length_others once (listed node List.mem_cons_self)
      omega
    refine ⟨((node, targets) :: later.1, later.2), ?_, perm'.trans perm, ?_, ?_⟩
    next =>
      rw [size] at ran
      simp only [drawUniformly, Nat.checkedSub_of_le some_, Option.bind_some, found, exchanged, drawn, ran,
        Option.map_some]
    next => rw [List.map_cons, sources]
    next =>
      refine .cons drawnFrom fun j entry found => ?_
      have here := each j entry found
      dsimp only at here
      rw [Nat.add_right_comm, Nat.add_assoc] at here
      exact here.perm (perm.filter _)

end Uniform

theorem drawBase_spec {draws : EdgeDraws} (sources : List (Id n)) (k : Nat) (base_nodes : List (Id n))
    (inclusive : ∀ j < sources.length, ∀ i < min base_nodes.length (draws.num_edge (k + j)),
      draws.index (k + j) i ≤ base_nodes.length - 1 - i) :
    ∃ drawn, BipartiteGraphBuilder.drawBase draws k sources base_nodes = some drawn ∧
      drawn.2.Perm base_nodes ∧ drawn.1.map Prod.fst = sources ∧
      DrawnEach (fun _ => base_nodes) (fun j => draws.num_edge (k + j)) drawn.1 := by
  induction sources generalizing k base_nodes with
  | nil => exact ⟨([], base_nodes), rfl, .rfl, rfl, fun _ _ found => nomatch found⟩
  | cons node rest ih =>
    obtain ⟨targets, front, drawn, length, perm⟩ := List.draw_spec 1 (draws.index k)
      (min base_nodes.length (draws.num_edge k)) 0 base_nodes [] rfl (by omega) fun j before => by
        have bound := inclusive 0 (by simp) j before
        rw [Nat.zero_add]
        rw [Nat.add_zero] at bound
        omega
    rw [List.append_nil, List.append_nil] at drawn
    have size := perm.length_eq
    obtain ⟨later, ran, perm', sources, each⟩ := ih (k + 1) (front ++ targets.reverse) fun j before i few => by
      rw [Nat.add_right_comm, Nat.add_assoc] at few ⊢
      rw [size] at few ⊢
      exact inclusive (j + 1) (by rw [List.length_cons]; omega) i few
    refine ⟨((node, targets) :: later.1, later.2), ?_, perm'.trans perm, ?_, ?_⟩
    next => simp only [BipartiteGraphBuilder.drawBase, drawn, Option.bind_some, ran, Option.map_some]
    next => rw [List.map_cons, sources]
    next =>
      refine .cons
        { degree := by rw [length]; exact Nat.min_comm _ _
          withoutReplacement := (List.reverse_perm targets).symm.subperm.trans
            ((List.sublist_append_right front targets.reverse).subperm.trans perm.subperm) }
        fun j entry found => ?_
      have here := each j entry found
      dsimp only at here
      rw [Nat.add_right_comm, Nat.add_assoc] at here
      exact here.perm perm

section Calls

def itemsOf (pairs : List (Id n × β)) (node : Id n) : List β :=
  (pairs.filter fun pair => pair.1 = node).map Prod.snd

theorem itemsOf_pairs {drawn : List (Id n × List β)} (once : (drawn.map Prod.fst).Nodup) {k : Nat}
    {entry : Id n × List β} (found : drawn[k]? = some entry) :
    itemsOf (pairs drawn) entry.1 = entry.2 := by
  induction drawn generalizing k with
  | nil => cases found
  | cons first rest ih =>
    rw [List.map_cons, List.nodup_cons] at once
    have split : itemsOf (pairs (first :: rest)) entry.1 =
        (if first.1 = entry.1 then first.2 else []) ++ itemsOf (pairs rest) entry.1 := by
      unfold itemsOf pairs
      rw [List.flatMap_cons, List.filter_append, List.map_append]
      congr 1
      split
      next same => simp [List.filter_map, Function.comp_def, same]
      next other => simp [List.filter_map, Function.comp_def, other]
    rw [split]
    cases k with
    | zero =>
      cases found
      -- The other sources are other nodes.
      have none_ : itemsOf (pairs rest) entry.1 = [] := by
        simp only [itemsOf, List.map_eq_nil_iff, List.filter_eq_nil_iff, pairs, List.mem_flatMap,
          List.mem_map, decide_eq_true_eq, forall_exists_index, and_imp]
        rintro _ later member item _ rfl same
        exact once.1 (same ▸ List.mem_map_of_mem member)
      rw [if_pos rfl, none_, List.append_nil]
    | succ k =>
      have apart : first.1 ≠ entry.1 := fun same =>
        once.1 (same ▸ List.mem_map_of_mem (List.mem_of_getElem? found))
      rw [if_neg apart, List.nil_append]
      exact ih once.2 found

theorem outTargets_link (links : List (Id n × Id n)) (node : Id n) :
    outTargets (links.map fun pair => .link pair.1 pair.2) node = itemsOf links node := by
  induction links with
  | nil => rfl
  | cons pair rest ih =>
    unfold outTargets itemsOf at ih ⊢
    by_cases same : pair.1 = node <;> simp [BuilderCall.targetOf, same, ih]

theorem itemsOf_map {γ : Type} (f : β → γ) (links : List (Id n × β)) (node : Id n) :
    itemsOf (links.map fun pair => (pair.1, f pair.2)) node = (itemsOf links node).map f := by
  simp [itemsOf, List.filter_map, Function.comp_def]

theorem outTargets_link_map (f : β → Id n) (links : List (Id n × β)) (node : Id n) :
    outTargets (links.map fun pair => .link pair.1 (f pair.2)) node = (itemsOf links node).map f := by
  rw [← itemsOf_map, ← outTargets_link, List.map_map]
  rfl

theorem outTargets_linkTargets (nodes : List (Id n)) (links : List (Id n × LocId n)) (node : Id n) :
    outTargets (linkTargets nodes links) node =
      (itemsOf links node).map Prod.fst := by
  unfold outTargets itemsOf
  induction links generalizing nodes with
  | nil => rfl
  | cons pair rest ih =>
    obtain ⟨source, id⟩ := pair
    unfold linkTargets
    split <;> by_cases same : source = node <;> simp [List.filterMap_cons, BuilderCall.targetOf, same, ih]

end Calls

section Builders

/-- `min(degree, n - 1)` distinct targets among the nodes, other than the source. -/
structure DrawsOthers (nodes : List (Id n)) (degree : Nat) (node : Id n) (targets : List (Id n)) :
    Prop where
  degree : targets.length = min degree (nodes.length - 1)
  distinct : targets.Nodup
  others : ∀ target ∈ targets, target ∈ nodes ∧ target ≠ node

-- `min(degree, n)` of the base nodes. If these are distinct, so are the targets.
structure DrawsBase (base_nodes : List (Id n)) (degree : Nat) (targets : List (Id n)) : Prop where
  degree : targets.length = min degree base_nodes.length
  withoutReplacement : targets.Subperm base_nodes
  distinct : base_nodes.Nodup → targets.Nodup

-- The draws for `count` sources are in their inclusive ranges, where `reserved - 1` items of the buffer
-- cannot be drawn.
def EdgeDraws.InRange (draws : EdgeDraws) (count size reserved : Nat) : Prop :=
  ∀ k < count, ∀ i < min (draws.num_edge k) (size + 1 - reserved), draws.index k i ≤ size - reserved - i

theorem DrawnFrom.others {key : β → Id n} {buffer targets : List β} {degree : Nat} {node : Id n}
    (drawn : DrawnFrom (others key buffer node) degree targets) (once : (buffer.map key).Nodup)
    (listed : node ∈ buffer.map key) : DrawsOthers (buffer.map key) degree node (targets.map key) where
  degree := by
    have size := length_others once listed
    rw [List.length_map, List.length_map, drawn.degree]
    omega
  distinct := by
    obtain ⟨same, perm, sublist⟩ := drawn.withoutReplacement
    exact (perm.map key).nodup_iff.mp ((sublist.trans List.filter_sublist).map key |>.nodup once)
  others := by
    intro target member
    obtain ⟨item, there, rfl⟩ := List.mem_map.mp member
    have kept := List.mem_filter.mp (drawn.withoutReplacement.subset there)
    exact ⟨List.mem_map_of_mem kept.1, by simpa using kept.2⟩

theorem nodeIds_map_fst (built_nodes : Fin n → List (Id n)) :
    (DistributedUniformGraphBuilder.nodeIds built_nodes).map Prod.fst = concatAll built_nodes := by
  simp [DistributedUniformGraphBuilder.nodeIds, concatAll, List.map_flatMap, Function.comp_def]

theorem nodup_concatAll {built_nodes : Fin n → List (Id n)} (once : ∀ p, (built_nodes p).Nodup)
    (own : ∀ p, ∀ id ∈ built_nodes p, id.rank = p) : (concatAll built_nodes).Nodup := by
  refine List.nodup_flatMap.mpr ⟨fun p _ => once p, (List.nodup_finRange n).imp fun apart id here there => ?_⟩
  exact apart ((own _ id here).symm.trans (own _ id there))

-- After any number of sources, the buffer is a permutation of what it was.
theorem uniform_draws (key : β → Id n) {draws : EdgeDraws} {buffer : List β} {sources : List (Id n)}
    (once : (buffer.map key).Nodup) (listed : ∀ node ∈ sources, node ∈ buffer.map key)
    (inclusive : draws.InRange sources.length buffer.length 2) (m : Nat) :
    ∃ drawn, drawUniformly key draws buffer.length 0 (sources.take m) buffer = some drawn ∧
      drawn.2.Perm buffer ∧ drawn.1.map Prod.fst = sources.take m ∧
      ∀ k entry, drawn.1[k]? = some entry →
        DrawsOthers (buffer.map key) (draws.num_edge k) entry.1 (entry.2.map key) := by
  obtain ⟨drawn, ran, perm, same, each⟩ := drawUniformly_spec (sources.take m) 0 once
    (fun node member => listed node (List.mem_of_mem_take member)) fun j before i few => by
      rw [List.length_take] at before
      rw [Nat.zero_add] at few ⊢
      exact inclusive j (by omega) i few
  refine ⟨drawn, ran, perm, same, fun k entry here => ?_⟩
  have member : entry.1 ∈ sources.take m := by
    rw [← same]
    exact List.mem_map_of_mem (List.mem_of_getElem? here)
  have drawnFrom := each k entry here
  simp only [Nat.zero_add] at drawnFrom
  exact drawnFrom.others once (listed _ (List.mem_of_mem_take member))

theorem UniformGraphBuilder.build_spec {draws : EdgeDraws} {nodes : List (Id n)} (once : nodes.Nodup)
    (inclusive : draws.InRange nodes.length nodes.length 2) :
    ∃ built, UniformGraphBuilder.build draws nodes = some built ∧ built.buffer.Perm nodes ∧
      ∀ k node, nodes[k]? = some node →
        DrawsOthers nodes (draws.num_edge k) node (outTargets built.calls node) := by
  obtain ⟨drawn, ran, perm, sources, each⟩ := uniform_draws id (by rwa [List.map_id])
    (fun node member => by rwa [List.map_id]) inclusive nodes.length
  rw [List.take_length] at ran sources
  refine ⟨linkDrawn drawn, by rw [UniformGraphBuilder.build, ran]; rfl, perm, fun k node found => ?_⟩
  rw [← sources, List.getElem?_map] at found
  obtain ⟨entry, here, rfl⟩ := Option.map_eq_some_iff.mp found
  have others := each k entry here
  rw [List.map_id, List.map_id] at others
  rw [linkDrawn, outTargets_link, itemsOf_pairs (sources ▸ once) here]
  exact others

theorem nodup_nodeIds {built_nodes : Fin n → List (Id n)} (once : ∀ q, (built_nodes q).Nodup)
    (own : ∀ q, ∀ id ∈ built_nodes q, id.rank = q) :
    ((DistributedUniformGraphBuilder.nodeIds built_nodes).map Prod.fst).Nodup := by
  rw [nodeIds_map_fst]
  exact nodup_concatAll once own

theorem mem_nodeIds {built_nodes : Fin n → List (Id n)} {p : Fin n} {node : Id n}
    (member : node ∈ built_nodes p) :
    node ∈ (DistributedUniformGraphBuilder.nodeIds built_nodes).map Prod.fst := by
  rw [nodeIds_map_fst]
  exact List.mem_flatMap.mpr ⟨p, List.mem_finRange p, member⟩

theorem DistributedUniformGraphBuilder.build_spec {draws : EdgeDraws} {built_nodes : Fin n → List (Id n)}
    (once : ∀ q, (built_nodes q).Nodup) (own : ∀ q, ∀ id ∈ built_nodes q, id.rank = q) (p : Fin n)
    (inclusive : draws.InRange (built_nodes p).length (nodeIds built_nodes).length 2)
    (nodes : List (Id n)) :
    ∃ built, build draws built_nodes p nodes = some built ∧
      built.buffer.Perm (nodeIds built_nodes) ∧
      ∀ k node, (built_nodes p)[k]? = some node →
        DrawsOthers (concatAll built_nodes) (draws.num_edge k) node (outTargets built.calls node) := by
  obtain ⟨drawn, ran, perm, sources, each⟩ := uniform_draws Prod.fst (nodup_nodeIds once own)
    (fun node member => mem_nodeIds member) inclusive (built_nodes p).length
  rw [List.take_length] at ran sources
  refine ⟨_, by rw [build, ran]; rfl, perm, fun k node found => ?_⟩
  rw [← sources, List.getElem?_map] at found
  obtain ⟨entry, here, rfl⟩ := Option.map_eq_some_iff.mp found
  rw [outTargets_linkTargets, itemsOf_pairs (sources ▸ once p) here, ← nodeIds_map_fst]
  exact each k entry here

theorem BipartiteGraphBuilder.build_spec {draws : EdgeDraws} {built_nodes base_nodes : List (Id n)}
    (once : built_nodes.Nodup) (inclusive : draws.InRange built_nodes.length base_nodes.length 1) (m : Nat) :
    ∃ built, build draws (built_nodes.take m) base_nodes = some built ∧ built.buffer.Perm base_nodes ∧
      ∀ k node, (built_nodes.take m)[k]? = some node →
        DrawsBase base_nodes (draws.num_edge k) (outTargets built.calls node) := by
  obtain ⟨drawn, ran, perm, sources, each⟩ := drawBase_spec (built_nodes.take m) 0 base_nodes
    fun j before i few => by
      rw [List.length_take] at before
      rw [Nat.zero_add] at few ⊢
      exact inclusive j (by omega) i (by omega)
  refine ⟨linkDrawn drawn, by rw [build, ran]; rfl, perm, fun k node found => ?_⟩
  rw [← sources, List.getElem?_map] at found
  obtain ⟨entry, here, rfl⟩ := Option.map_eq_some_iff.mp found
  have drawnFrom := each k entry here
  simp only [Nat.zero_add] at drawnFrom
  rw [linkDrawn, outTargets_link, itemsOf_pairs (sources ▸ once.sublist (List.take_sublist _ _)) here]
  exact
    { degree := drawnFrom.degree
      withoutReplacement := drawnFrom.withoutReplacement
      distinct := fun distinct => by
        obtain ⟨same, perm', sublist⟩ := drawnFrom.withoutReplacement
        exact perm'.nodup_iff.mp (sublist.nodup distinct) }

/-- The buffer after any number of sources, and the links at the end. -/
theorem builders_draw_without_replacement (draws : EdgeDraws) :
    (∀ nodes : List (Id n), nodes.Nodup → draws.InRange nodes.length nodes.length 2 →
      (∀ m, ∃ drawn, drawUniformly id draws nodes.length 0 (nodes.take m) nodes = some drawn ∧
        drawn.2.Perm nodes) ∧
      ∃ built, UniformGraphBuilder.build draws nodes = some built ∧ built.buffer.Perm nodes ∧
        ∀ k node, nodes[k]? = some node →
          DrawsOthers nodes (draws.num_edge k) node (outTargets built.calls node)) ∧
    (∀ built_nodes : Fin n → List (Id n), (∀ q, (built_nodes q).Nodup) →
      (∀ q, ∀ id ∈ built_nodes q, id.rank = q) → ∀ p,
      draws.InRange (built_nodes p).length (DistributedUniformGraphBuilder.nodeIds built_nodes).length 2 →
      (∀ m, ∃ drawn, drawUniformly Prod.fst draws
          (DistributedUniformGraphBuilder.nodeIds built_nodes).length 0 ((built_nodes p).take m)
          (DistributedUniformGraphBuilder.nodeIds built_nodes) = some drawn ∧
        drawn.2.Perm (DistributedUniformGraphBuilder.nodeIds built_nodes)) ∧
      ∀ nodes, ∃ built, DistributedUniformGraphBuilder.build draws built_nodes p nodes = some built ∧
        built.buffer.Perm (DistributedUniformGraphBuilder.nodeIds built_nodes) ∧
        ∀ k node, (built_nodes p)[k]? = some node →
          DrawsOthers (concatAll built_nodes) (draws.num_edge k) node (outTargets built.calls node)) ∧
    ∀ built_nodes base_nodes : List (Id n), built_nodes.Nodup →
      draws.InRange built_nodes.length base_nodes.length 1 →
      ∀ m, ∃ built, BipartiteGraphBuilder.build draws (built_nodes.take m) base_nodes = some built ∧
        built.buffer.Perm base_nodes ∧
        ∀ k node, (built_nodes.take m)[k]? = some node →
          DrawsBase base_nodes (draws.num_edge k) (outTargets built.calls node) := by
  refine ⟨fun nodes once inclusive => ⟨fun m => ?_, UniformGraphBuilder.build_spec once inclusive⟩,
    fun built_nodes once own p inclusive =>
      ⟨fun m => ?_, DistributedUniformGraphBuilder.build_spec once own p inclusive⟩,
    fun built_nodes base_nodes once inclusive => BipartiteGraphBuilder.build_spec once inclusive⟩
  next =>
    obtain ⟨drawn, ran, perm, _⟩ := uniform_draws id (by rwa [List.map_id])
      (fun node member => by rwa [List.map_id]) inclusive m
    exact ⟨drawn, ran, perm⟩
  next =>
    obtain ⟨drawn, ran, perm, _⟩ := uniform_draws Prod.fst (nodup_nodeIds once own)
      (fun node member => mem_nodeIds member) inclusive m
    exact ⟨drawn, ran, perm⟩

def twoEdges : EdgeDraws where
  num_edge _ := 2
  index _ _ := 0

theorem builders_draw_two_edges :
    (∃ built, UniformGraphBuilder.build twoEdges [⟨0, 0⟩, ⟨0, 1⟩, (⟨0, 2⟩ : Id 2)] = some built ∧
      DrawsOthers [⟨0, 0⟩, ⟨0, 1⟩, ⟨0, 2⟩] 2 ⟨0, 1⟩ (outTargets built.calls ⟨0, 1⟩)) ∧
    (∃ built, DistributedUniformGraphBuilder.build twoEdges
        (fun q : Fin 2 => [⟨q, 0⟩, ⟨q, 1⟩]) 0 [⟨0, 0⟩, ⟨0, 1⟩] = some built ∧
      DrawsOthers (concatAll fun q : Fin 2 => [⟨q, 0⟩, ⟨q, 1⟩]) 2 ⟨0, 1⟩
        (outTargets built.calls ⟨0, 1⟩)) ∧
    ∃ built, BipartiteGraphBuilder.build twoEdges [(⟨0, 0⟩ : Id 2)] [⟨0, 1⟩, ⟨0, 2⟩] = some built ∧
      DrawsBase [⟨0, 1⟩, ⟨0, 2⟩] 2 (outTargets built.calls ⟨0, 0⟩) := by
  obtain ⟨uniform, distributed, bipartite⟩ := builders_draw_without_replacement (n := 2) twoEdges
  refine ⟨?_, ?_, ?_⟩
  next =>
    obtain ⟨_, built, ran, _, each⟩ := uniform [⟨0, 0⟩, ⟨0, 1⟩, ⟨0, 2⟩] (by decide)
      fun _ _ _ _ => Nat.zero_le _
    exact ⟨built, ran, each 1 _ rfl⟩
  next =>
    obtain ⟨_, build⟩ := distributed (fun q => [⟨q, 0⟩, ⟨q, 1⟩]) (by decide) (by decide) 0
      fun _ _ _ _ => Nat.zero_le _
    obtain ⟨built, ran, _, each⟩ := build [⟨0, 0⟩, ⟨0, 1⟩]
    exact ⟨built, ran, each 1 _ rfl⟩
  next =>
    obtain ⟨built, ran, _, each⟩ := bipartite [⟨0, 0⟩] [⟨0, 1⟩, ⟨0, 2⟩] (by decide)
      (fun _ _ _ _ => Nat.zero_le _) 1
    exact ⟨built, ran, each 0 _ rfl⟩

end Builders

end Fpmas.Graph
