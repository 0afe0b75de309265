import Mathlib.Data.List.Sort
import Mathlib.Data.List.Perm.Basic

set_option autoImplicit false

universe u v

namespace List

variable {α : Type u} (comp : α → α → Bool)

def insertBefore (item : α) : List α → List α
  | [] => [item]
  | other :: rest =>
    if comp other item then other :: insertBefore item rest else item :: other :: rest

def replaceLast (nearest : List α) (item : α) : List α :=
  if nearest.all fun other => comp other item then nearest
  else (insertBefore comp item nearest).dropLast

def fillNearest (skip : α → Bool) (count : Nat) : List α → List α → Option (List α × List α)
  | [], nearest => if nearest.length < count then none else some (nearest, [])
  | item :: rest, nearest =>
    if nearest.length < count then
      fillNearest skip count rest (if skip item then nearest else insertBefore comp item nearest)
    else some (nearest, item :: rest)

variable {comp}

theorem insertBefore_perm (item : α) (nearest : List α) :
    (insertBefore comp item nearest).Perm (item :: nearest) := by
  induction nearest with
  | nil => rfl
  | cons other rest ih =>
    rw [insertBefore]
    split
    next => exact (ih.cons other).trans (.swap item other rest)
    next => rfl

section Map

variable {β : Type v} {f : α → β} {comp' : β → β → Bool}
  (same : ∀ first second, comp' (f first) (f second) = comp first second)

include same

theorem insertBefore_map (item : α) (nearest : List α) :
    insertBefore comp' (f item) (nearest.map f) = (insertBefore comp item nearest).map f := by
  induction nearest with
  | nil => rfl
  | cons other rest ih =>
    rw [List.map_cons, insertBefore, insertBefore, same, ih]
    split <;> rfl

theorem replaceLast_map (item : α) (nearest : List α) :
    replaceLast comp' (nearest.map f) (f item) = (replaceLast comp nearest item).map f := by
  unfold replaceLast
  rw [insertBefore_map same, List.all_map]
  simp only [Function.comp_def, same]
  split
  next => rfl
  next => rw [List.map_dropLast]

theorem fillNearest_map {skip : α → Bool} {skip' : β → Bool} (skips : ∀ item, skip' (f item) = skip item)
    (count : Nat) (rest nearest : List α) :
    fillNearest comp' skip' count (rest.map f) (nearest.map f) =
      (fillNearest comp skip count rest nearest).map fun filled => (filled.1.map f, filled.2.map f) := by
  induction rest generalizing nearest with
  | nil =>
    rw [List.map_nil, fillNearest, fillNearest, List.length_map]
    split <;> rfl
  | cons item rest ih =>
    rw [List.map_cons, fillNearest, fillNearest, List.length_map, skips, insertBefore_map same,
      ← apply_ite (List.map f), ih]
    split <;> rfl

theorem foldl_replaceLast_map {skip : α → Bool} {skip' : β → Bool}
    (skips : ∀ item, skip' (f item) = skip item) (rest nearest : List α) :
    (rest.map f).foldl (fun nearest item => if skip' item then nearest else replaceLast comp' nearest item)
        (nearest.map f) =
      (rest.foldl (fun nearest item => if skip item then nearest else replaceLast comp nearest item)
        nearest).map f := by
  induction rest generalizing nearest with
  | nil => rfl
  | cons item rest ih =>
    rw [List.map_cons, List.foldl_cons, List.foldl_cons, ← ih, skips, replaceLast_map same,
      apply_ite (List.map f)]

end Map

section Order

variable {D : Type v} [LinearOrder D] {key : α → D}
  (orders : ∀ first second, comp first second = true ↔ key first < key second)

include orders

theorem insertBefore_sorted {item : α} {nearest : List α}
    (sorted : nearest.Pairwise fun first second => key first ≤ key second) :
    (insertBefore comp item nearest).Pairwise fun first second => key first ≤ key second := by
  induction nearest with
  | nil => exact List.pairwise_singleton _ _
  | cons other rest ih =>
    obtain ⟨least, sorted'⟩ := List.pairwise_cons.mp sorted
    rw [insertBefore]
    split
    next before =>
      refine List.pairwise_cons.mpr ⟨fun later member => ?_, ih sorted'⟩
      rcases List.mem_cons.mp ((insertBefore_perm item rest).mem_iff.mp member) with rfl | older
      next => exact le_of_lt ((orders _ _).mp before)
      next => exact least later older
    next after =>
      have first : key item ≤ key other := not_lt.mp fun before => after ((orders _ _).mpr before)
      refine List.pairwise_cons.mpr ⟨fun later member => ?_, sorted⟩
      rcases List.mem_cons.mp member with rfl | older
      next => exact first
      next => exact first.trans (least later older)

variable (key) in
omit orders in
/-- The list holds the nearest of the items seen so far, and `left` the others. -/
structure Nearest (seen nearest left : List α) : Prop where
  all : (nearest ++ left).Perm seen
  sorted : nearest.Pairwise fun first second => key first ≤ key second
  farther : ∀ other ∈ left, ∀ item ∈ nearest, key item ≤ key other

theorem Nearest.insert {seen nearest : List α} (holds : Nearest key seen nearest []) (item : α) :
    Nearest key (item :: seen) (insertBefore comp item nearest) [] where
  all := by
    rw [List.append_nil]
    exact (insertBefore_perm item nearest).trans ((List.append_nil nearest ▸ holds.all).cons item)
  sorted := insertBefore_sorted orders holds.sorted
  farther := fun _ member => nomatch member

theorem Nearest.replace {seen nearest left : List α} (holds : Nearest key seen nearest left) (item : α) :
    ∃ left', Nearest key (item :: seen) (replaceLast comp nearest item) left' ∧
      (replaceLast comp nearest item).length = nearest.length := by
  unfold replaceLast
  by_cases all : (nearest.all fun other => comp other item) = true
  next =>
    rw [if_pos all]
    have before := List.all_eq_true.mp all
    refine ⟨item :: left, ⟨List.perm_middle.trans (holds.all.cons item), holds.sorted, ?_⟩, rfl⟩
    intro other member kept inside
    rcases List.mem_cons.mp member with rfl | older
    next => exact le_of_lt ((orders _ _).mp (before kept inside))
    next => exact holds.farther other older kept inside
  next =>
    rw [if_neg all]
    -- The new item is not after all of the list, and its last item goes.
    obtain ⟨far, farIn, notBefore⟩ : ∃ far ∈ nearest, key item ≤ key far := by
      simp only [List.all_eq_true, not_forall] at all
      obtain ⟨far, farIn, notBefore⟩ := all
      exact ⟨far, farIn, not_lt.mp fun before => notBefore ((orders _ _).mpr before)⟩
    have perm : (insertBefore comp item nearest).Perm (item :: nearest) :=
      insertBefore_perm item nearest
    have some_ : insertBefore comp item nearest ≠ [] := fun none_ => by
      rw [none_] at perm
      exact absurd perm.length_eq (by simp)
    have split := List.dropLast_append_getLast some_
    generalize (insertBefore comp item nearest).getLast some_ = last at split
    have sorted : (insertBefore comp item nearest).Pairwise
        fun first second => key first ≤ key second := insertBefore_sorted orders holds.sorted
    rw [← split] at sorted perm
    obtain ⟨sorted', _, greatest⟩ := List.pairwise_append.mp sorted
    refine ⟨last :: left, ⟨?_, sorted', ?_⟩, ?_⟩
    next =>
      refine List.Perm.trans ?_ ((perm.append_right left).trans (holds.all.cons item))
      rw [List.append_assoc, List.singleton_append]
    next =>
      intro other member kept inside
      rcases List.mem_cons.mp member with rfl | older
      next => exact greatest kept inside other (List.mem_singleton.mpr rfl)
      next =>
        rcases List.mem_cons.mp (perm.mem_iff.mp (List.mem_append_left _ inside)) with rfl | before
        next => exact notBefore.trans (holds.farther other older far farIn)
        next => exact holds.farther other older kept before
    next =>
      have length := perm.length_eq
      rw [List.length_append, List.length_singleton, List.length_cons] at length
      omega

theorem Nearest.foldl {skip : α → Bool} (rest : List α) {seen nearest left : List α}
    (holds : Nearest key seen nearest left) :
    let best := rest.foldl (fun nearest item => if skip item then nearest else replaceLast comp nearest item)
      nearest
    ∃ left', Nearest key ((rest.filter fun item => !skip item).reverse ++ seen) best left' ∧
      best.length = nearest.length := by
  induction rest generalizing seen nearest left with
  | nil => exact ⟨left, holds, rfl⟩
  | cons item rest ih =>
    rw [List.foldl_cons]
    by_cases skipped : skip item = true
    next =>
      rw [if_pos skipped, List.filter_cons_of_neg (by simp [skipped])]
      exact ih holds
    next =>
      rw [if_neg skipped, List.filter_cons_of_pos (by simp [skipped]), List.reverse_cons, List.append_assoc]
      obtain ⟨left₁, holds₁, length₁⟩ := holds.replace orders item
      obtain ⟨left₂, holds₂, length₂⟩ := ih holds₁
      exact ⟨left₂, holds₂, length₂.trans length₁⟩

theorem Nearest.fill {skip : α → Bool} {count : Nat} (rest : List α) {seen nearest : List α}
    (holds : Nearest key seen nearest []) (few : nearest.length ≤ count)
    (enough : count ≤ nearest.length + (rest.filter fun item => !skip item).length) :
    ∃ best later before, fillNearest comp skip count rest nearest = some (best, later) ∧
      rest = before ++ later ∧ best.length = count ∧
      Nearest key ((before.filter fun item => !skip item).reverse ++ seen) best [] := by
  induction rest generalizing seen nearest with
  | nil =>
    simp only [List.filter_nil, List.length_nil, Nat.add_zero] at enough
    refine ⟨nearest, [], [], ?_, rfl, by omega, holds⟩
    rw [fillNearest, if_neg (by omega)]
  | cons item rest ih =>
    rw [fillNearest]
    by_cases more : nearest.length < count
    next =>
      rw [if_pos more]
      by_cases skipped : skip item = true
      next =>
        rw [List.filter_cons_of_neg (by simp [skipped])] at enough
        obtain ⟨best, later, before, filled, split, length, holds'⟩ := ih holds few enough
        refine ⟨best, later, item :: before, ?_, by rw [split, List.cons_append], length, ?_⟩
        next => rw [if_pos skipped, filled]
        next =>
          rw [List.filter_cons_of_neg (by simp [skipped])]
          exact holds'
      next =>
        rw [List.filter_cons_of_pos (by simp [skipped]), List.length_cons] at enough
        have perm : (insertBefore comp item nearest).Perm (item :: nearest) :=
          insertBefore_perm item nearest
        have size := perm.length_eq
        rw [List.length_cons] at size
        obtain ⟨best, later, before, filled, split, length, holds'⟩ :=
          ih (holds.insert orders item) (by omega) (by omega)
        refine ⟨best, later, item :: before, ?_, by rw [split, List.cons_append], length, ?_⟩
        next => rw [if_neg skipped, filled]
        next =>
          rw [List.filter_cons_of_pos (by simp [skipped]), List.reverse_cons, List.append_assoc]
          exact holds'
    next =>
      rw [if_neg more]
      exact ⟨nearest, item :: rest, [], rfl, rfl, by omega, holds⟩

end Order

end List
