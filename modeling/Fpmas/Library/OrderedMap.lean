import Mathlib.Data.List.Perm.Basic
import Mathlib.Order.Lattice

set_option autoImplicit false

-- The sorted map of vectors that `std::map<K, std::vector<V>>` is.
structure OrderedMap (K V : Type) [LinearOrder K] where
  entries : List (K × List V)
  sorted : (entries.map Prod.fst).Pairwise (· < ·)

namespace OrderedMap

variable {K V : Type} [LinearOrder K]

def empty : OrderedMap K V where
  entries := []
  sorted := List.Pairwise.nil

def pushEntry (key : K) (value : V) : List (K × List V) → List (K × List V)
  | [] => [(key, [value])]
  | (k, values) :: rest =>
    if key < k then (key, [value]) :: (k, values) :: rest
    else if k = key then (k, values ++ [value]) :: rest
    else (k, values) :: pushEntry key value rest

theorem mem_pushEntry (key k : K) (value : V) (entries : List (K × List V)) :
    k ∈ (pushEntry key value entries).map Prod.fst → k = key ∨ k ∈ entries.map Prod.fst := by
  induction entries with
  | nil => simp [pushEntry]
  | cons entry rest ih =>
    obtain ⟨k', values⟩ := entry
    unfold pushEntry
    split
    next => simp
    next =>
      split
      next => simp +contextual
      next =>
        intro member
        simp only [List.map_cons, List.mem_cons] at member ⊢
        rcases member with here | later
        · exact .inr (.inl here)
        · exact (ih later).imp_right .inr

theorem pushEntry_sorted (key : K) (value : V) (entries : List (K × List V))
    (sorted : (entries.map Prod.fst).Pairwise (· < ·)) :
    ((pushEntry key value entries).map Prod.fst).Pairwise (· < ·) := by
  induction entries with
  | nil => simp [pushEntry]
  | cons entry rest ih =>
    obtain ⟨k, values⟩ := entry
    simp only [List.map_cons, List.pairwise_cons] at sorted
    unfold pushEntry
    split
    next before =>
      simp only [List.map_cons, List.pairwise_cons]
      refine ⟨fun k' member => ?_, sorted⟩
      rcases List.mem_cons.mp member with rfl | later
      · exact before
      · exact lt_trans before (sorted.1 k' later)
    next notBefore =>
      split
      next => simpa using sorted
      next other =>
        simp only [List.map_cons, List.pairwise_cons]
        refine ⟨fun k' member => ?_, ih sorted.2⟩
        rcases mem_pushEntry key k' value rest member with rfl | later
        · exact lt_of_le_of_ne (not_lt.mp notBefore) other
        · exact sorted.1 k' later

-- `map[key].push_back(value)`
def push (m : OrderedMap K V) (key : K) (value : V) : OrderedMap K V where
  entries := pushEntry key value m.entries
  sorted := pushEntry_sorted key value m.entries m.sorted

-- The index of the first entry whose key is not below `key`.
def lowerBound (key : K) (entries : List (K × List V)) : Nat :=
  (entries.takeWhile fun entry => entry.1 < key).length

def items (entries : List (K × List V)) : List (K × V) :=
  entries.flatMap fun entry => entry.2.map fun value => (entry.1, value)

theorem items_pushEntry (key : K) (value : V) (entries : List (K × List V)) :
    (items (pushEntry key value entries)).Perm ((key, value) :: items entries) := by
  induction entries with
  | nil => simp [pushEntry, items]
  | cons entry rest ih =>
    obtain ⟨k, values⟩ := entry
    unfold pushEntry
    split
    next => simp [items]
    next =>
      split
      next same =>
        subst same
        simp only [items, List.flatMap_cons, List.map_append, List.map_cons, List.map_nil,
          List.append_assoc, List.singleton_append]
        exact List.perm_middle
      next =>
        have later := ih.append_left (values.map fun value => (k, value))
        simp only [items, List.flatMap_cons] at later ⊢
        exact later.trans List.perm_middle

-- The loops over a sorted map stop after the entry of `key`, if it has one.
def upTo (m : OrderedMap K V) (key : K) : List (K × List V) :=
  let bound := lowerBound key m.entries
  m.entries.take (if m.entries[bound]?.any (·.1 = key) then bound + 1 else bound)

theorem upTo_eq_filter (m : OrderedMap K V) (key : K) :
    m.upTo key = m.entries.filter fun entry => entry.1 ≤ key := by
  unfold upTo
  have sorted := m.sorted
  generalize m.entries = entries at sorted
  induction entries with
  | nil => simp
  | cons entry rest ih =>
    simp only [List.map_cons, List.pairwise_cons] at sorted
    have above : ∀ other ∈ rest, entry.1 < other.1 :=
      fun other member => sorted.1 other.1 (List.mem_map_of_mem member)
    rcases lt_trichotomy entry.1 key with below | same | beyond
    · have later : rest.take (if rest[lowerBound key rest]?.any (·.1 = key) then
          lowerBound key rest + 1 else lowerBound key rest) =
            rest.filter fun entry => entry.1 ≤ key := ih sorted.2
      have further : lowerBound key (entry :: rest) = lowerBound key rest + 1 := by
        simp [lowerBound, below]
      simp only [further, List.getElem?_cons_succ, List.filter_cons, le_of_lt below, decide_true,
        if_true]
      rw [← later]
      by_cases found : rest[lowerBound key rest]?.any (·.1 = key) = true
      · simp [found]
      · simp [found]
    · have none_ : rest.filter (fun other => other.1 ≤ key) = [] := by
        simpa [← same] using above
      simp [lowerBound, same, none_]
    · have none_ : rest.filter (fun other => other.1 ≤ key) = [] := by
        simpa using fun a b member => lt_trans beyond (above (a, b) member)
      simp [lowerBound, ne_of_gt beyond, not_lt_of_gt beyond, not_le_of_gt beyond, none_]

-- A loop over the entries up to `key`, with a loop over the values of each.
theorem flatMap_upTo {A : Type} (m : OrderedMap K V) (key : K) (f : K → V → List A) :
    ((m.upTo key).flatMap fun entry => entry.2.flatMap (f entry.1)) =
      (items m.entries).flatMap fun item => if item.1 ≤ key then f item.1 item.2 else [] := by
  rw [upTo_eq_filter]
  induction m.entries with
  | nil => rfl
  | cons entry rest ih =>
    simp only [items, List.flatMap_cons, List.flatMap_append, List.flatMap_map] at ih ⊢
    by_cases reached : entry.1 ≤ key
    next =>
      simp only [List.filter_cons, reached, decide_true, if_true, List.flatMap_cons, ih]
    next =>
      have none_ : (entry.2.flatMap fun _ => ([] : List A)) = [] := by simp
      simp only [List.filter_cons, reached, decide_false, if_false, ih, none_, List.nil_append,
        Bool.false_eq_true]

end OrderedMap
