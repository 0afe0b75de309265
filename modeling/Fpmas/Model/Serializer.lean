import Fpmas.Library.UnorderedMap
import Fpmas.Model.AgentGroup

set_option autoImplicit false

namespace Fpmas.Model

-- `τ` is `std::type_index`: the type id of an agent stands for its concrete type.
variable {τ : Type} [DecidableEq τ]

inductive SerializationException (τ : Type) where
  | BadTypeException (bad_type : τ)
  | BadIdException (bad_id : Nat)
deriving DecidableEq

-- The static members of `adl_serializer<std::type_index>`.
structure TypeIndexSerializer (τ : Type) where
  id : Nat
  id_to_type : UnorderedMap Nat τ
  type_to_id : UnorderedMap τ Nat

namespace TypeIndexSerializer

def empty : TypeIndexSerializer τ where
  id := 0
  id_to_type := ∅
  type_to_id := ∅

variable (s : TypeIndexSerializer τ)

-- `insert` changes nothing for a type that has already an id.
def register_type (type : τ) : TypeIndexSerializer τ where
  id := s.id + 1
  id_to_type := s.id_to_type.insertNew s.id type
  type_to_id := s.type_to_id.insertNew type s.id

def register_types (types : List τ) : TypeIndexSerializer τ := types.foldl register_type s

def from_json (id : Nat) : Except (SerializationException τ) τ :=
  match s.id_to_type.lookup id with
  | some type => .ok type
  | none => .error (.BadIdException id)

def to_json (type : τ) : Except (SerializationException τ) Nat :=
  match s.type_to_id.lookup type with
  | some id => .ok id
  | none => .error (.BadTypeException type)

end TypeIndexSerializer

-- An agent of a known type: what the serializers read and write.
structure TypedAgent (Data : τ → Type) (type : τ) where
  groupIds : List GroupId
  data : Data type

-- An agent of any type.
structure AgentPtr (Data : τ → Type) where
  typeId : τ
  agent : TypedAgent Data typeId

-- The fields of the document of an agent, where `J` are the documents of the types.
structure AgentDocument (J : Type) where
  type : Nat
  gids : List GroupId
  agent : J

-- The serializer of each type, that its user provides.
structure TypedSerializer (Data : τ → Type) (J : Type) where
  to_json : ∀ type, TypedAgent Data type → J
  from_json : ∀ type, J → TypedAgent Data type

namespace AgentPtrSerializer

variable {Data : τ → Type} {J : Type} (registry : TypeIndexSerializer τ)
  (serializer : TypedSerializer Data J)

-- The recursion on the types of the list, that ends with `void`.
def to_json (ptr : AgentPtr Data) : List τ → Except (SerializationException τ) (AgentDocument J)
  | [] => .error (.BadTypeException ptr.typeId)
  | type :: agentTypes =>
    if ptr.typeId = type then
      (registry.to_json type).map fun id =>
        { type := id
          gids := ptr.agent.groupIds
          agent := serializer.to_json ptr.typeId ptr.agent }
    else to_json ptr agentTypes

def addGroupIds {type : τ} (agent : TypedAgent Data type) (gids : List GroupId) :
    TypedAgent Data type :=
  gids.foldl (fun agent gid => { agent with groupIds := agent.groupIds ++ [gid] }) agent

def from_json (j : AgentDocument J) : List τ → Except (SerializationException τ) (AgentPtr Data)
  | [] => .error (.BadIdException j.type)
  | type :: agentTypes =>
    (registry.from_json j.type).bind fun id =>
      if id = type then
        .ok { typeId := type, agent := addGroupIds (serializer.from_json type j.agent) j.gids }
      else from_json j agentTypes

end AgentPtrSerializer

section Registry

/-- After some registrations: the ids are their positions, and a type is written with its first one. -/
structure Registered (registrations : List τ) (s : TypeIndexSerializer τ) : Prop where
  next : s.id = registrations.length
  types : ∀ id, s.id_to_type.lookup id = registrations[id]?
  ids : ∀ type, s.type_to_id.lookup type = registrations.findIdx? (· = type)

theorem Registered.register_type {registrations : List τ} {s : TypeIndexSerializer τ}
    (registered : Registered registrations s) (type : τ) :
    Registered (registrations ++ [type]) (s.register_type type) where
  next := by simp [TypeIndexSerializer.register_type, registered.next]
  types := by
    intro id
    simp only [TypeIndexSerializer.register_type, UnorderedMap.lookup_insertNew, registered.types,
      registered.next]
    by_cases new : id = registrations.length
    next => simp [new]
    next =>
      rw [if_neg new]
      by_cases old : id < registrations.length
      next => rw [List.getElem?_append_left old]
      next => rw [List.getElem?_eq_none (by omega), List.getElem?_eq_none (by simp; omega)]
  ids := by
    intro other
    simp only [TypeIndexSerializer.register_type, UnorderedMap.lookup_insertNew, registered.ids,
      registered.next]
    rw [List.findIdx?_append]
    by_cases same : other = type
    next =>
      subst same
      cases List.findIdx? (fun x => decide (x = other)) registrations <;> simp
    next =>
      have apart : ¬type = other := fun same' => same same'.symm
      rw [if_neg same]
      cases List.findIdx? (fun x => decide (x = other)) registrations <;> simp [apart]

theorem registered (registrations : List τ) :
    Registered registrations (TypeIndexSerializer.empty.register_types registrations) := by
  have all : ∀ (later earlier : List τ) (s : TypeIndexSerializer τ), Registered earlier s →
      Registered (earlier ++ later) (s.register_types later) := by
    intro later
    induction later with
    | nil =>
      intro earlier s holds
      rwa [List.append_nil]
    | cons type rest ih =>
      intro earlier s holds
      have next := ih (earlier ++ [type]) _ (holds.register_type type)
      rwa [List.append_assoc] at next
  exact all registrations [] .empty
    { next := rfl
      types := fun id => by simp [TypeIndexSerializer.empty]
      ids := fun type => by simp [TypeIndexSerializer.empty] }

theorem Registered.type_round_trip {registrations : List τ} {s : TypeIndexSerializer τ}
    (registered : Registered registrations s) {type : τ} (member : type ∈ registrations) :
    ∃ id, s.to_json type = .ok id ∧ s.from_json id = .ok type := by
  have present : (registrations.findIdx? (· = type)).isSome = true := by
    rw [List.findIdx?_isSome, List.any_eq_true]
    exact ⟨type, member, decide_eq_true rfl⟩
  obtain ⟨id, found⟩ := Option.isSome_iff_exists.mp present
  obtain ⟨inside, same, _⟩ := List.findIdx?_eq_some_iff_getElem.mp found
  refine ⟨id, by rw [TypeIndexSerializer.to_json, registered.ids, found], ?_⟩
  rw [TypeIndexSerializer.from_json, registered.types, List.getElem?_eq_getElem inside,
    of_decide_eq_true same]

end Registry

namespace AgentPtrSerializer

variable {Data : τ → Type} {J : Type} {registry : TypeIndexSerializer τ}
  {serializer : TypedSerializer Data J}

omit [DecidableEq τ] in
theorem addGroupIds_eq {type : τ} (agent : TypedAgent Data type) (gids : List GroupId) :
    addGroupIds agent gids = { agent with groupIds := agent.groupIds ++ gids } := by
  unfold addGroupIds
  induction gids generalizing agent with
  | nil => simp
  | cons gid rest ih =>
    rw [List.foldl_cons, ih, List.append_assoc]
    rfl

theorem to_json_of_mem {ptr : AgentPtr Data} {types : List τ} (member : ptr.typeId ∈ types) :
    to_json registry serializer ptr types =
      (registry.to_json ptr.typeId).map fun id =>
        { type := id
          gids := ptr.agent.groupIds
          agent := serializer.to_json ptr.typeId ptr.agent } := by
  induction types with
  | nil => cases member
  | cons type rest ih =>
    rw [to_json]
    by_cases same : ptr.typeId = type
    next => rw [if_pos same, ← same]
    next =>
      rw [if_neg same]
      exact ih ((List.mem_cons.mp member).resolve_left same)

theorem to_json_of_not_mem {ptr : AgentPtr Data} {types : List τ} (outside : ptr.typeId ∉ types) :
    to_json registry serializer ptr types = .error (.BadTypeException ptr.typeId) := by
  induction types with
  | nil => rfl
  | cons type rest ih =>
    rw [List.mem_cons, not_or] at outside
    rw [to_json, if_neg outside.1, ih outside.2]

theorem from_json_of_mem {j : AgentDocument J} {type : τ} {types : List τ}
    (designates : registry.from_json j.type = .ok type) (member : type ∈ types) :
    from_json registry serializer j types =
      .ok { typeId := type, agent := addGroupIds (serializer.from_json type j.agent) j.gids } := by
  induction types with
  | nil => cases member
  | cons first rest ih =>
    rw [from_json, designates]
    by_cases same : type = first
    next =>
      subst same
      exact if_pos rfl
    next => exact (if_neg same).trans (ih ((List.mem_cons.mp member).resolve_left same))

theorem from_json_of_not_mem {j : AgentDocument J} {types : List τ}
    (none_ : ∀ type ∈ types, registry.from_json j.type ≠ .ok type) :
    from_json registry serializer j types = .error (.BadIdException j.type) := by
  induction types with
  | nil => rfl
  | cons first rest ih =>
    have later := ih fun type member => none_ type (List.mem_cons_of_mem first member)
    have apart := none_ first List.mem_cons_self
    rw [from_json]
    -- An id that is not registered is refused before the end of the list.
    cases read : registry.from_json j.type with
    | error e =>
      unfold TypeIndexSerializer.from_json at read
      split at read
      next => cases read
      next =>
        cases read
        rfl
    | ok type =>
      rw [read] at apart
      exact (if_neg fun same => apart (congrArg Except.ok same)).trans later

end AgentPtrSerializer

theorem serialization_round_trip {Data : τ → Type} {J : Type} (types registrations : List τ)
    (registers : ∀ type ∈ types, type ∈ registrations) (serializer : TypedSerializer Data J)
    (roundTrips : ∀ type ∈ types, ∀ agent : TypedAgent Data type,
      serializer.from_json type (serializer.to_json type agent) =
        { groupIds := [], data := agent.data }) :
    let registry := TypeIndexSerializer.empty.register_types registrations
    (∀ ptr : AgentPtr Data, ptr.typeId ∈ types →
      ∃ j, AgentPtrSerializer.to_json registry serializer ptr types = .ok j ∧
        AgentPtrSerializer.from_json registry serializer j types = .ok ptr) ∧
    (∀ ptr : AgentPtr Data, ptr.typeId ∉ types →
      AgentPtrSerializer.to_json registry serializer ptr types =
        .error (.BadTypeException ptr.typeId)) ∧
    ∀ j : AgentDocument J, (∀ type ∈ types, registrations[j.type]? ≠ some type) →
      AgentPtrSerializer.from_json registry serializer j types = .error (.BadIdException j.type) := by
  intro registry
  have all := registered registrations
  refine ⟨fun ptr member => ?_, fun ptr outside => AgentPtrSerializer.to_json_of_not_mem outside,
    fun j none_ => AgentPtrSerializer.from_json_of_not_mem fun type member read => ?_⟩
  next =>
    obtain ⟨id, written, read⟩ := all.type_round_trip (registers ptr.typeId member)
    refine ⟨{ type := id, gids := ptr.agent.groupIds, agent := serializer.to_json ptr.typeId ptr.agent },
      ?_, ?_⟩
    next =>
      rw [AgentPtrSerializer.to_json_of_mem member, written]
      rfl
    next =>
      rw [AgentPtrSerializer.from_json_of_mem read member, AgentPtrSerializer.addGroupIds_eq,
        roundTrips ptr.typeId member]
      rfl
  next =>
    refine none_ type member ?_
    rw [← all.types]
    unfold TypeIndexSerializer.from_json at read
    split at read
    next found =>
      cases read
      exact found
    next => cases read

def numbers : TypedSerializer (fun isPair : Bool => if isPair then Nat × Nat else Nat) (List Nat) where
  to_json
    | true, agent => [agent.data.1, agent.data.2]
    | false, agent => [agent.data]
  from_json
    | true, j => { groupIds := [], data := (j.headD 0, j.getLastD 0) }
    | false, j => { groupIds := [], data := j.headD 0 }

theorem serialization_round_trip_numbers :
    ∃ j, AgentPtrSerializer.to_json (TypeIndexSerializer.empty.register_types [true, false, true]) numbers
        { typeId := true, agent := { groupIds := [7, 4], data := (3, 5) } } [false, true] = .ok j ∧
      AgentPtrSerializer.from_json (TypeIndexSerializer.empty.register_types [true, false, true]) numbers
        j [false, true] = .ok { typeId := true, agent := { groupIds := [7, 4], data := (3, 5) } } :=
  (serialization_round_trip [false, true] [true, false, true] (by decide) numbers fun type _ agent => by
    cases type <;> rfl).1 _ (by decide)

end Fpmas.Model
