import Mathlib.Data.List.AList
import Mathlib.Data.Fintype.Basic
import Mathlib.Data.List.FinRange

set_option autoImplicit false

/-- A hash map; its entries are listed in no meaningful order. -/
abbrev UnorderedMap (K V : Type) := AList fun _ : K => V

/-- The orders in which one process happens to iterate over its hash maps and sets. -/
structure HashOrder where
  of : {α : Type} → List α → List α
  perm : ∀ {α : Type} (l : List α), (of l).Perm l

namespace HashOrder

def insertion : HashOrder where
  of l := l
  perm _ := .refl _

variable {α : Type} (order : HashOrder)

@[simp] theorem mem_of {l : List α} {x : α} : x ∈ order.of l ↔ x ∈ l :=
  (order.perm l).mem_iff

@[simp] theorem nodup_of {l : List α} : (order.of l).Nodup ↔ l.Nodup :=
  (order.perm l).nodup_iff

end HashOrder

theorem List.mapM_some {α β : Type} {f : α → Option β} {l : List α} (each : ∀ x ∈ l, ∃ y, f x = some y) :
    ∃ l', l.mapM f = some l' ∧ ∀ y, y ∈ l' ↔ ∃ x ∈ l, f x = some y := by
  induction l with
  | nil => exact ⟨[], rfl, by simp⟩
  | cons x rest ih =>
    obtain ⟨y, image⟩ := each x List.mem_cons_self
    obtain ⟨images, result, member⟩ := ih fun z inside => each z (List.mem_cons_of_mem x inside)
    refine ⟨y :: images, ?_, fun z => ?_⟩
    · rw [List.mapM_cons, image, result]
      rfl
    · rw [List.mem_cons, member]
      constructor
      · rintro (rfl | ⟨x', inside, image'⟩)
        · exact ⟨x, List.mem_cons_self, image⟩
        · exact ⟨x', List.mem_cons_of_mem x inside, image'⟩
      · rintro ⟨x', inside, image'⟩
        rcases List.mem_cons.mp inside with rfl | later
        · exact .inl (Option.some.inj (image'.symm.trans image))
        · exact .inr ⟨x', later, image'⟩

theorem List.mapM_each {α β : Type} {f : α → Option β} {g : α → β} {l : List α}
    (each : ∀ x ∈ l, f x = some (g x)) : l.mapM f = some (l.map g) := by
  induction l with
  | nil => rfl
  | cons x rest ih =>
    rw [List.mapM_cons, each x List.mem_cons_self,
      ih fun y inside => each y (List.mem_cons_of_mem x inside)]
    rfl

theorem List.mapM_self {α : Type} {f : α → Option α} {l : List α} (each : ∀ x ∈ l, f x = some x) :
    l.mapM f = some l := by
  rw [List.mapM_each each, List.map_id']

theorem List.each_some {α β : Type} {f : α → Option β} {l : List α} {l' : List β}
    (result : l.mapM f = some l') : ∀ x ∈ l, ∃ y, f x = some y := by
  induction l generalizing l' with
  | nil => simp
  | cons x rest ih =>
    rw [List.mapM_cons] at result
    obtain ⟨y, image, result⟩ := Option.bind_eq_some_iff.mp result
    obtain ⟨images, later, _⟩ := Option.bind_eq_some_iff.mp result
    intro z member
    rcases List.mem_cons.mp member with rfl | inside
    · exact ⟨y, image⟩
    · exact ih later z inside

theorem List.foldlM_kept {σ α : Type} {f : σ → α → Option σ} {P : σ → Prop} {l : List α}
    (kept : ∀ s x t, x ∈ l → P s → f s x = some t → P t) {s t : σ} (initial : P s)
    (result : l.foldlM f s = some t) : P t := by
  induction l generalizing s with
  | nil =>
    cases result
    exact initial
  | cons x rest ih =>
    rw [List.foldlM_cons] at result
    obtain ⟨middle, first, later⟩ := Option.bind_eq_some_iff.mp result
    exact ih (fun s y t inside => kept s y t (List.mem_cons_of_mem x inside))
      (kept s x middle List.mem_cons_self initial first) later

theorem List.foldlM_view {σ τ α : Type} {f : σ → α → Option σ} {h : τ → α → Option τ} (view : σ → τ)
    {l : List α} (each : ∀ s x t, f s x = some t → h (view s) x = some (view t)) {s t : σ}
    (result : l.foldlM f s = some t) : l.foldlM h (view s) = some (view t) := by
  induction l generalizing s with
  | nil =>
    cases result
    rfl
  | cons x rest ih =>
    rw [List.foldlM_cons] at result ⊢
    obtain ⟨middle, first, later⟩ := Option.bind_eq_some_iff.mp result
    rw [each s x middle first]
    exact ih later

namespace UnorderedMap

variable {K V : Type} [DecidableEq K]

-- `insert({key, value})`: an entry that exists already is kept.
def insertNew (m : UnorderedMap K V) (key : K) (value : V) : UnorderedMap K V :=
  if key ∈ m then m else m.insert key value

-- `m[key].push_back(value)` on a map of vectors.
def push (m : UnorderedMap K (List V)) (key : K) (value : V) : UnorderedMap K (List V) :=
  m.insert key ((m.lookup key).getD [] ++ [value])

-- The vector stored under a key, empty when there is none.
def valuesAt (m : UnorderedMap K (List V)) (key : K) : List V :=
  (m.lookup key).getD []

def pushAll (m : UnorderedMap K (List V)) (items : List (K × V)) : UnorderedMap K (List V) :=
  items.foldl (fun m item => push m item.1 item.2) m

def toList (order : HashOrder) (m : UnorderedMap K V) : List (K × V) :=
  (order.of m.entries).map fun entry => (entry.1, entry.2)

def flatten (order : HashOrder) (m : UnorderedMap K (List V)) : List V :=
  (m.toList order).flatMap (·.2)

theorem lookup_insert' (m : UnorderedMap K V) (key k : K) (value : V) :
    (m.insert key value).lookup k = if k = key then some value else m.lookup k := by
  split
  case isTrue same =>
    subst same
    exact AList.lookup_insert m
  case isFalse other => exact AList.lookup_insert_ne other

theorem lookup_erase' (m : UnorderedMap K V) (key k : K) :
    (m.erase key).lookup k = if k = key then none else m.lookup k := by
  split
  case isTrue same =>
    subst same
    exact AList.lookup_erase k m
  case isFalse other => exact AList.lookup_erase_ne other

theorem lookup_insertNew (m : UnorderedMap K V) (key k : K) (value : V) :
    (insertNew m key value).lookup k =
      if k = key then some ((m.lookup key).getD value) else m.lookup k := by
  unfold insertNew
  split
  case isTrue present =>
    split
    case isTrue same =>
      subst same
      obtain ⟨old, found⟩ := Option.isSome_iff_exists.mp (AList.lookup_isSome.mpr present)
      rw [found, Option.getD_some]
    case isFalse => rfl
  case isFalse absent =>
    rw [lookup_insert', AList.lookup_eq_none.mpr absent, Option.getD_none]

theorem mem_iff_lookup (m : UnorderedMap K V) (k : K) : k ∈ m ↔ ∃ v, m.lookup k = some v := by
  rw [← AList.lookup_isSome, Option.isSome_iff_exists]

theorem mem_insertNew (m : UnorderedMap K V) (key k : K) (value : V) :
    k ∈ insertNew m key value ↔ k = key ∨ k ∈ m := by
  unfold insertNew
  split
  case isTrue present =>
    constructor
    · exact Or.inr
    · rintro (same | old)
      · exact same ▸ present
      · exact old
  case isFalse => exact AList.mem_insert m

@[simp] theorem mem_toList (order : HashOrder) (m : UnorderedMap K V) {k : K} {v : V} :
    (k, v) ∈ m.toList order ↔ m.lookup k = some v := by
  unfold toList
  rw [List.mem_map]
  constructor
  · rintro ⟨⟨k', v'⟩, member, same⟩
    cases same
    exact AList.mem_lookup_iff.mpr (order.mem_of.mp member)
  · intro found
    exact ⟨⟨k, v⟩, order.mem_of.mpr (AList.mem_lookup_iff.mp found), rfl⟩

omit [DecidableEq K] in
theorem nodup_toList (order : HashOrder) (m : UnorderedMap K V) :
    ((m.toList order).map Prod.fst).Nodup := by
  have keys : (m.toList order).map Prod.fst = (order.of m.entries).map Sigma.fst := by
    simp [toList, Function.comp_def]
  rw [keys]
  exact ((order.perm m.entries).map Sigma.fst).nodup_iff.mpr m.nodupKeys

theorem lookup_foldl_insert {items : List (K × V)} (once : (items.map Prod.fst).Nodup)
    (m : UnorderedMap K V) (k : K) (v : V) :
    (items.foldl (fun m item => m.insert item.1 item.2) m).lookup k = some v ↔
      (k, v) ∈ items ∨ k ∉ items.map Prod.fst ∧ m.lookup k = some v := by
  induction items generalizing m with
  | nil => simp
  | cons item rest ih =>
    rw [List.map_cons, List.nodup_cons] at once
    rw [List.foldl_cons, ih once.2, lookup_insert', List.map_cons, List.mem_cons, List.mem_cons]
    by_cases same : k = item.1
    · subst same
      obtain ⟨key, value⟩ := item
      have other : (key, v) ∉ rest := fun inside =>
        once.1 (List.mem_map.mpr ⟨(key, v), inside, rfl⟩)
      simp [other, once.1, eq_comm]
    · have different : (k, v) ≠ item := fun equal => same (congrArg Prod.fst equal)
      simp [same, different]

theorem valuesAt_push (m : UnorderedMap K (List V)) (key k : K) (value : V) :
    valuesAt (push m key value) k = if k = key then valuesAt m k ++ [value] else valuesAt m k := by
  unfold valuesAt push
  rw [lookup_insert']
  split
  case isTrue same => rw [same, Option.getD_some]
  case isFalse => rfl

theorem mem_pushAll (m : UnorderedMap K (List V)) (items : List (K × V)) (k : K) (v : V) :
    v ∈ valuesAt (pushAll m items) k ↔ v ∈ valuesAt m k ∨ (k, v) ∈ items := by
  induction items generalizing m with
  | nil => simp [pushAll]
  | cons item rest ih =>
    have step : pushAll m (item :: rest) = pushAll (push m item.1 item.2) rest := rfl
    rw [step, ih, valuesAt_push, List.mem_cons]
    by_cases same : k = item.1
    · subst same
      rw [if_pos rfl, List.mem_append, List.mem_singleton, or_assoc]
      refine or_congr_right (or_congr_left ?_)
      exact ⟨fun value => by rw [value], fun pair => congrArg Prod.snd pair⟩
    · rw [if_neg same]
      have other : (k, v) ≠ item := fun pair => same (congrArg Prod.fst pair)
      simp [other]

@[simp] theorem valuesAt_empty (k : K) : valuesAt (∅ : UnorderedMap K (List V)) k = [] := rfl

theorem mem_flatten (order : HashOrder) (m : UnorderedMap K (List V)) (v : V) :
    v ∈ m.flatten order ↔ ∃ k, v ∈ valuesAt m k := by
  unfold flatten
  rw [List.mem_flatMap]
  constructor
  · rintro ⟨⟨k, values⟩, member, inside⟩
    refine ⟨k, ?_⟩
    rw [valuesAt, (mem_toList order m).mp member]
    exact inside
  · rintro ⟨k, inside⟩
    unfold valuesAt at inside
    cases found : m.lookup k with
    | none =>
      rw [found] at inside
      cases inside
    | some values =>
      rw [found] at inside
      exact ⟨(k, values), (mem_toList order m).mpr found, inside⟩

theorem pushAll_mapM {α : Type} {f : α → Option (K × V)} {l : List α}
    (each : ∀ x ∈ l, ∃ y, f x = some y) :
    ∃ m, (l.mapM f).map (pushAll ∅) = some m ∧
      ∀ k v, v ∈ valuesAt m k ↔ ∃ x ∈ l, f x = some (k, v) := by
  obtain ⟨items, result, member⟩ := List.mapM_some each
  refine ⟨pushAll ∅ items, by rw [result, Option.map_some], fun k v => ?_⟩
  rw [mem_pushAll, member]
  simp

-- The values of a map of vectors with their keys, in the order of two nested loops.
def messages (order : HashOrder) (m : UnorderedMap K (List V)) : List (K × V) :=
  (m.toList order).flatMap fun entry => entry.2.map fun value => (entry.1, value)

theorem mem_messages (order : HashOrder) (m : UnorderedMap K (List V)) (k : K) (v : V) :
    (k, v) ∈ m.messages order ↔ v ∈ valuesAt m k := by
  unfold messages
  rw [List.mem_flatMap]
  constructor
  · rintro ⟨⟨k', values⟩, member, inside⟩
    obtain ⟨v', listed, same⟩ := List.mem_map.mp inside
    cases same
    rw [valuesAt, (mem_toList order m).mp member]
    exact listed
  · intro inside
    unfold valuesAt at inside
    cases found : m.lookup k with
    | none =>
      rw [found] at inside
      cases inside
    | some values =>
      rw [found] at inside
      exact ⟨(k, values), (mem_toList order m).mpr found, List.mem_map.mpr ⟨v, inside, rfl⟩⟩

theorem nodup_flatten (order : HashOrder) (m : UnorderedMap K (List V))
    (each : ∀ k, (valuesAt m k).Nodup) (apart : ∀ k k' v, v ∈ valuesAt m k → v ∈ valuesAt m k' → k = k') :
    (m.flatten order).Nodup := by
  have stored : ∀ entry ∈ m.toList order, valuesAt m entry.1 = entry.2 := by
    intro entry member
    rw [valuesAt, (mem_toList order m).mp member]
    rfl
  unfold flatten
  rw [List.nodup_flatMap]
  constructor
  · intro entry member
    rw [← stored entry member]
    exact each entry.1
  · have keys := nodup_toList order m
    rw [List.Nodup, List.pairwise_map] at keys
    refine (keys.imp_of_mem ?_)
    intro a b inA inB other v left right
    have inLeft : v ∈ valuesAt m a.1 := (stored a inA).symm ▸ left
    have inRight : v ∈ valuesAt m b.1 := (stored b inB).symm ▸ right
    exact other (apart _ _ v inLeft inRight)

theorem apart_of_nodup_flatten {order : HashOrder} {m : UnorderedMap K (List V)}
    (once : (m.flatten order).Nodup) {k k' : K} {v : V} (left : v ∈ valuesAt m k)
    (right : v ∈ valuesAt m k') : k = k' := by
  have stored : ∀ key, v ∈ valuesAt m key → (key, valuesAt m key) ∈ m.toList order := by
    intro key inside
    rw [mem_toList]
    unfold valuesAt at inside ⊢
    cases found : m.lookup key with
    | none =>
      rw [found] at inside
      cases inside
    | some values => rfl
  by_contra other
  have apart := (List.nodup_flatMap.mp once).2
  have symmetric : Std.Symm (Function.onFun List.Disjoint fun entry : K × List V => entry.2) :=
    ⟨fun _ _ disjoint => disjoint.symm⟩
  have disjoint := apart.forall (stored k left) (stored k' right)
    fun same => other (congrArg Prod.fst same)
  exact disjoint left right

end UnorderedMap

-- What each process computes, when no process fails.
def collect {P : Type} [Fintype P] {β : P → Type} (f : ∀ p, Option (β p)) : Option (∀ p, β p) :=
  if ready : ∀ p, (f p).isSome then some fun p => (f p).get (ready p) else none

theorem collect_eq_some {P : Type} [Fintype P] {β : P → Type} {f : ∀ p, Option (β p)}
    {g : ∀ p, β p} : collect f = some g ↔ ∀ p, f p = some (g p) := by
  unfold collect
  split
  case isTrue ready =>
    rw [Option.some.injEq]
    constructor
    · rintro rfl p
      exact (Option.some_get (ready p)).symm
    · intro each
      funext p
      exact Option.some.inj ((Option.some_get (ready p)).trans (each p))
  case isFalse unready =>
    constructor
    · intro absurd
      cases absurd
    · intro each
      exact absurd (fun p => by rw [each p]; rfl) unready

theorem collect_some {P : Type} [Fintype P] {β : P → Type} {f : ∀ p, Option (β p)}
    {good : ∀ p, β p → Prop} (each : ∀ p, ∃ y, f p = some y ∧ good p y) :
    ∃ g, collect f = some g ∧ ∀ p, good p (g p) := by
  choose g result holds using each
  exact ⟨g, collect_eq_some.mpr result, holds⟩

-- The processes do not read each other's states, so they may be thought to run one after another.
theorem collect_sequential {P S : Type} [Fintype P] [DecidableEq P] {f : P → S → Option S}
    (inv : Finset P → (P → S) → Prop)
    (step : ∀ done p s, p ∉ done → inv done s →
      ∃ y, f p (s p) = some y ∧ inv (insert p done) (Function.update s p y))
    {s : P → S} (start : inv ∅ s) :
    ∃ s', collect (fun p => f p (s p)) = some s' ∧ inv Finset.univ s' := by
  have upTo : ∀ done : Finset P, ∃ s', inv done s' ∧ (∀ p ∈ done, f p (s p) = some (s' p)) ∧
      ∀ p ∉ done, s' p = s p := by
    intro done
    induction done using Finset.induction_on with
    | empty => exact ⟨s, start, by simp, fun _ _ => rfl⟩
    | insert p done fresh ih =>
      obtain ⟨s', holds, ran, idle⟩ := ih
      obtain ⟨y, result, holds'⟩ := step done p s' fresh holds
      refine ⟨Function.update s' p y, holds', fun q member => ?_, fun q outside => ?_⟩
      · by_cases same : q = p
        · subst same
          rw [Function.update_self, ← idle q fresh, result]
        · rw [Function.update_of_ne same]
          exact ran q (Finset.mem_of_mem_insert_of_ne member same)
      · rw [Finset.mem_insert, not_or] at outside
        rw [Function.update_of_ne outside.1]
        exact idle q outside.2
  obtain ⟨s', holds, ran, _⟩ := upTo Finset.univ
  exact ⟨s', collect_eq_some.mpr fun p => ran p (Finset.mem_univ p), holds⟩

-- `migrate`: each process receives what the others exported to it, by source.
def migrate {n : Nat} {V : Type} (exported : Fin n → UnorderedMap (Fin n) (List V))
    (q : Fin n) : UnorderedMap (Fin n) (List V) where
  entries := (List.finRange n).filterMap fun p =>
    ((exported p).lookup q).map fun values => ⟨p, values⟩
  nodupKeys := by
    rw [List.NodupKeys, List.keys, List.map_filterMap]
    have sources : ∀ p : Fin n, (((exported p).lookup q).map fun values =>
        (⟨p, values⟩ : Sigma fun _ : Fin n => List V)).map Sigma.fst =
          if ((exported p).lookup q).isSome then some p else none := by
      intro p
      cases (exported p).lookup q <;> rfl
    simp only [sources]
    refine (List.nodup_finRange n).filterMap ?_
    intro p p' source
    simp only [Option.mem_def, Option.ite_none_right_eq_some, Option.some.injEq]
    rintro ⟨_, rfl⟩ ⟨_, rfl⟩
    rfl

theorem lookup_migrate {n : Nat} {V : Type} (exported : Fin n → UnorderedMap (Fin n) (List V))
    (p q : Fin n) : (migrate exported q).lookup p = (exported p).lookup q := by
  ext values
  rw [← Option.mem_def, AList.mem_lookup_iff]
  simp only [migrate, List.mem_filterMap, List.mem_finRange, true_and, Option.map_eq_some_iff]
  constructor
  · rintro ⟨p', values', found, same⟩
    cases same
    exact found
  · intro found
    exact ⟨p, values, found, rfl⟩

theorem valuesAt_migrate {n : Nat} {V : Type} (exported : Fin n → UnorderedMap (Fin n) (List V))
    (p q : Fin n) : UnorderedMap.valuesAt (migrate exported q) p = UnorderedMap.valuesAt (exported p) q := by
  rw [UnorderedMap.valuesAt, lookup_migrate, UnorderedMap.valuesAt]
