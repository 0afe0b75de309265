import Fpmas.Graph.DistributedGraph

set_option autoImplicit false

namespace Fpmas.Graph

variable {n : Nat}

/-- The addresses of the node objects that the maps of one process point to. -/
structure NodeObjects (n : Nat) where
  nodes : UnorderedMap (Id n) Nat
  localNodes : UnorderedMap (Id n) Nat
  distantNodes : UnorderedMap (Id n) Nat
  -- The map of the mutex server. A mutex has the address of the node that owns it.
  mutexMap : UnorderedMap (Id n) Nat
  nextAddress : Nat
  -- Nothing reads this: the ids of the nodes that have been deleted so far.
  erased : List (Id n)

namespace NodeObjects

variable (o : NodeObjects n)

def empty : NodeObjects n where
  nodes := ∅
  localNodes := ∅
  distantNodes := ∅
  mutexMap := ∅
  nextAddress := 0
  erased := []

def insert (id : Id n) : NodeObjects n :=
  { o with
    nodes := o.nodes.insertNew id o.nextAddress
    nextAddress := o.nextAddress + 1 }

def setLocal (id : Id n) (address : Nat) : NodeObjects n :=
  { o with
    localNodes := o.localNodes.insertNew id address
    distantNodes := o.distantNodes.erase id }

def setDistant (id : Id n) (address : Nat) : NodeObjects n :=
  { o with
    localNodes := o.localNodes.erase id
    distantNodes := o.distantNodes.insertNew id address }

-- `MutexServer::manage`, for the mutex of the node at `address`.
def buildMutex (id : Id n) (address : Nat) : NodeObjects n :=
  { o with mutexMap := o.mutexMap.insert id address }

def buildNode (id : Id n) : NodeObjects n :=
  ((o.insert id).setLocal id o.nextAddress).buildMutex id o.nextAddress

def importNode (id : Id n) : NodeObjects n :=
  match o.nodes.lookup id with
  | none => o.buildNode id
  | some address => o.setLocal id address

-- Also what `importEdge` does with one of the ends of a new edge.
def insertDistant (id : Id n) : NodeObjects n :=
  match o.nodes.lookup id with
  | none => ((o.insert id).setDistant id o.nextAddress).buildMutex id o.nextAddress
  | some _ => o

-- `erase(NodeType*)`: the callbacks tell the location manager, and nobody tells the mutex server.
def erase (id : Id n) (state : LocationState) : NodeObjects n :=
  match state with
  | .LOCAL =>
    { o with
      nodes := o.nodes.erase id
      localNodes := o.localNodes.erase id
      erased := id :: o.erased }
  | .DISTANT =>
    { o with
      nodes := o.nodes.erase id
      distantNodes := o.distantNodes.erase id
      erased := id :: o.erased }

end NodeObjects

/-- The maps of `o` point to the objects of the nodes, each on the side that its state tells, and the
mutex server has the mutexes of the nodes of the graph and of those that were deleted. -/
structure NodeObjects.Follow (o : NodeObjects n) (state : Id n → Option LocationState) : Prop where
  nodes : ∀ id, o.nodes.lookup id = none ↔ state id = none
  localNodes : ∀ id, o.localNodes.lookup id =
    if state id = some .LOCAL then o.nodes.lookup id else none
  distantNodes : ∀ id, o.distantNodes.lookup id =
    if state id = some .DISTANT then o.nodes.lookup id else none
  mutexes : ∀ id address, o.nodes.lookup id = some address → o.mutexMap.lookup id = some address
  stale : ∀ id, o.nodes.lookup id = none → (o.mutexMap.lookup id = none ↔ id ∉ o.erased)

namespace NodeObjects.Follow

variable {o : NodeObjects n} {state : Id n → Option LocationState} {id : Id n}

theorem absent (follow : o.Follow state) (none_ : state id = none) :
    o.nodes.lookup id = none ∧ o.localNodes.lookup id = none ∧ o.distantNodes.lookup id = none := by
  refine ⟨(follow.nodes id).mpr none_, ?_, ?_⟩
  · rw [follow.localNodes, none_, if_neg (by simp)]
  · rw [follow.distantNodes, none_, if_neg (by simp)]

theorem place (follow : o.Follow state) {o' : NodeObjects n} (address : Option Nat)
    {side : Option LocationState} (both : address = none ↔ side = none)
    (nodes : ∀ other, o'.nodes.lookup other = if other = id then address else o.nodes.lookup other)
    (locals : ∀ other, o'.localNodes.lookup other = if other = id then
      (if side = some .LOCAL then address else none) else o.localNodes.lookup other)
    (distants : ∀ other, o'.distantNodes.lookup other = if other = id then
      (if side = some .DISTANT then address else none) else o.distantNodes.lookup other)
    (mutexes : ∀ other, o'.mutexMap.lookup other =
      if other = id then address.or (o.mutexMap.lookup id) else o.mutexMap.lookup other)
    (erased : o'.erased = if address = none then id :: o.erased else o.erased)
    (held : address = none → ∃ before, o.nodes.lookup id = some before) :
    o'.Follow (Function.update state id side) := by
  refine ⟨fun other => ?_, fun other => ?_, fun other => ?_, fun other found at_ => ?_, fun other gone => ?_⟩
  · rw [nodes, Function.update_apply]
    split
    · exact both
    · exact follow.nodes other
  · rw [locals, nodes, Function.update_apply]
    split
    · rfl
    · exact follow.localNodes other
  · rw [distants, nodes, Function.update_apply]
    split
    · rfl
    · exact follow.distantNodes other
  · rw [nodes] at at_
    rw [mutexes]
    split at at_
    case isTrue same => rw [if_pos same, at_, Option.some_or]
    case isFalse differs =>
      rw [if_neg differs]
      exact follow.mutexes other found at_
  · rw [nodes] at gone
    rw [mutexes]
    split at gone
    case isTrue same =>
      obtain ⟨before, at_⟩ := held gone
      rw [if_pos same, gone, Option.none_or, follow.mutexes id before at_, erased, if_pos gone, same]
      simp
    case isFalse differs =>
      have listed : other ∈ o'.erased ↔ other ∈ o.erased := by
        rw [erased]
        split
        · exact List.mem_cons.trans (or_iff_right differs)
        · rfl
      rw [if_neg differs, listed]
      exact follow.stale other gone

theorem buildNode (follow : o.Follow state) (none_ : state id = none) :
    (o.buildNode id).Follow (Function.update state id (some .LOCAL)) := by
  obtain ⟨nodes, locals, _⟩ := follow.absent none_
  refine follow.place (some o.nextAddress) (by simp) (fun other => ?_) (fun other => ?_)
    (fun other => ?_) (fun other => ?_) rfl (by simp)
  · refine (UnorderedMap.lookup_insertNew _ _ _ _).trans ?_
    rw [nodes, Option.getD_none]
  · refine (UnorderedMap.lookup_insertNew o.localNodes _ _ _).trans ?_
    rw [locals, Option.getD_none, if_pos rfl]
  · exact UnorderedMap.lookup_erase' _ _ _
  · exact UnorderedMap.lookup_insert' _ _ _ _

theorem setLocal (follow : o.Follow state) {address : Nat} (at_ : o.nodes.lookup id = some address) :
    (o.setLocal id address).Follow (Function.update state id (some .LOCAL)) := by
  have stored : (o.localNodes.lookup id).getD address = address := by
    rw [follow.localNodes, at_]
    split <;> rfl
  refine follow.place (some address) (by simp) (fun other => ?_) (fun other => ?_)
    (fun other => ?_) (fun other => ?_) rfl (by simp)
  · split
    case isTrue same => exact same ▸ at_
    case isFalse => rfl
  · refine (UnorderedMap.lookup_insertNew _ _ _ _).trans ?_
    rw [stored, if_pos rfl]
  · exact UnorderedMap.lookup_erase' _ _ _
  · split
    case isTrue same => exact same ▸ follow.mutexes id address at_
    case isFalse => rfl

theorem setDistant (follow : o.Follow state) {address : Nat}
    (at_ : o.nodes.lookup id = some address) :
    (o.setDistant id address).Follow (Function.update state id (some .DISTANT)) := by
  have stored : (o.distantNodes.lookup id).getD address = address := by
    rw [follow.distantNodes, at_]
    split <;> rfl
  refine follow.place (some address) (by simp) (fun other => ?_) (fun other => ?_)
    (fun other => ?_) (fun other => ?_) rfl (by simp)
  · split
    case isTrue same => exact same ▸ at_
    case isFalse => rfl
  · exact UnorderedMap.lookup_erase' _ _ _
  · refine (UnorderedMap.lookup_insertNew _ _ _ _).trans ?_
    rw [stored, if_pos rfl]
  · split
    case isTrue same => exact same ▸ follow.mutexes id address at_
    case isFalse => rfl

theorem importNode (follow : o.Follow state) :
    (o.importNode id).Follow (Function.update state id (some .LOCAL)) := by
  unfold NodeObjects.importNode
  cases at_ : o.nodes.lookup id with
  | none => exact follow.buildNode ((follow.nodes id).mp at_)
  | some address => exact follow.setLocal at_

theorem insertDistant (follow : o.Follow state) (id : Id n) : (o.insertDistant id).Follow
    (if state id = none then Function.update state id (some .DISTANT) else state) := by
  unfold NodeObjects.insertDistant
  cases at_ : o.nodes.lookup id with
  | none =>
    have none_ := (follow.nodes id).mp at_
    obtain ⟨_, _, distants⟩ := follow.absent none_
    rw [if_pos none_]
    refine follow.place (some o.nextAddress) (by simp) (fun other => ?_) (fun other => ?_)
      (fun other => ?_) (fun other => ?_) rfl (by simp)
    · refine (UnorderedMap.lookup_insertNew _ _ _ _).trans ?_
      rw [at_, Option.getD_none]
    · exact UnorderedMap.lookup_erase' _ _ _
    · refine (UnorderedMap.lookup_insertNew o.distantNodes _ _ _).trans ?_
      rw [distants, Option.getD_none, if_pos rfl]
    · exact UnorderedMap.lookup_insert' _ _ _ _
  | some address =>
    rw [if_neg fun none_ => nomatch at_.symm.trans ((follow.nodes id).mpr none_)]
    exact follow

theorem erase (follow : o.Follow state) {before : LocationState} (found : state id = some before) :
    (o.erase id before).Follow (Function.update state id none) := by
  have locals := follow.localNodes id
  have distants := follow.distantNodes id
  have held : ∃ address, o.nodes.lookup id = some address :=
    Option.ne_none_iff_exists'.mp fun none_ => nomatch found.symm.trans ((follow.nodes id).mp none_)
  have mutexes : ∀ other, o.mutexMap.lookup other = if other = id then
      (none : Option Nat).or (o.mutexMap.lookup id) else o.mutexMap.lookup other := by
    intro other
    split
    case isTrue same => rw [same, Option.none_or]
    case isFalse => rfl
  rw [found] at locals distants
  cases before with
  | LOCAL =>
    refine follow.place none (by simp) (fun other => UnorderedMap.lookup_erase' _ _ _)
      (fun other => UnorderedMap.lookup_erase' _ _ _) (fun other => ?_) mutexes rfl fun _ => held
    split
    case isTrue same => exact same ▸ distants
    case isFalse => rfl
  | DISTANT =>
    refine follow.place none (by simp) (fun other => UnorderedMap.lookup_erase' _ _ _)
      (fun other => ?_) (fun other => UnorderedMap.lookup_erase' _ _ _) mutexes rfl fun _ => held
    split
    case isTrue same => exact same ▸ locals
    case isFalse => rfl

end NodeObjects.Follow

end Fpmas.Graph
