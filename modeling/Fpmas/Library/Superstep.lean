import Mathlib.Data.List.Basic
import Mathlib.Data.List.Count
import Mathlib.Logic.Function.Basic

set_option autoImplicit false

universe u

-- Processes that share a list of links. Each of them sees its own calls at once, and those of the
-- others when all of them synchronize.
namespace Superstep

variable {P E I σ : Type u} [DecidableEq P] [DecidableEq E] [DecidableEq I]

-- What an item reads of the links: those that it selects, under another name.
section Selection

variable {V : Type u} [DecidableEq V] {select : E → Option V}

theorem count_filterMap (name : V → E) (named : ∀ edge v, select edge = some v ↔ edge = name v)
    (links : List E) (v : V) : (links.filterMap select).count v = links.count (name v) := by
  induction links with
  | nil => rfl
  | cons edge rest ih =>
    by_cases here : edge = name v
    next => simp [here, (named (name v) v).mpr rfl, ih]
    next =>
      rw [List.count_cons_of_ne here, ← ih]
      cases chosen : select edge with
      | none => simp [chosen]
      | some other =>
        have apart : other ≠ v := fun same => here ((named edge v).mp (same ▸ chosen))
        simp [chosen, apart]

omit [DecidableEq E] [DecidableEq V] in
theorem filterMap_congr {sees : E → Bool} (kept : ∀ edge, (select edge).isSome → sees edge = true)
    {links links' : List E} (same : links.filter sees = links'.filter sees) :
    links.filterMap select = links'.filterMap select := by
  suffices filtered : ∀ list : List E, (list.filter sees).filterMap select = list.filterMap select by
    rw [← filtered, same, filtered]
  intro list
  rw [List.filterMap_filter]
  congr 1
  funext edge
  cases chosen : select edge with
  | none => simp
  | some v => simp [kept edge (by simp [chosen])]

theorem count_flatMap {calls : V → List E} {edge : E} {v : V} {k : Nat}
    (each : ∀ item, (calls item).count edge = if item = v then k else 0) (items : List V) :
    (items.flatMap calls).count edge = items.count v * k := by
  induction items with
  | nil => simp
  | cons item rest ih =>
    rw [List.flatMap_cons, List.count_append, each, ih]
    by_cases here : item = v
    next =>
      rw [if_pos here, here, List.count_cons_self, Nat.succ_mul, Nat.add_comm]
    next => simp [here]

end Selection

inductive Call (E : Type u) where
  | link (edge : E)
  | unlink (edge : E)
deriving DecidableEq

namespace Call

def edge : Call E → E
  | link edge => edge
  | unlink edge => edge

def apply (links : List E) : Call E → List E
  | link edge => links ++ [edge]
  | unlink edge => links.erase edge

def applyAll (calls : List (Call E)) (links : List E) : List E := calls.foldl apply links

theorem filter_applyAll (sees : E → Bool) (calls : List (Call E)) (links : List E)
    (unseen : ∀ call ∈ calls, sees call.edge = false) :
    (applyAll calls links).filter sees = links.filter sees := by
  induction calls generalizing links with
  | nil => rfl
  | cons call rest ih =>
    have first := unseen call List.mem_cons_self
    have later := ih (call.apply links) fun c member => unseen c (List.mem_cons_of_mem call member)
    refine later.trans ?_
    cases call with
    | link edge =>
      have hidden : sees edge = false := first
      simp [apply, hidden]
    | unlink edge =>
      have hidden : sees edge = false := first
      rw [apply, ← List.erase_filter, List.erase_of_not_mem (by simp [hidden])]

theorem applyAll_append (calls calls' : List (Call E)) (links : List E) :
    applyAll (calls ++ calls') links = applyAll calls' (applyAll calls links) :=
  List.foldl_append

theorem count_congr {edge : E} (calls : List (Call E)) {links links' : List E}
    (same : links.count edge = links'.count edge) :
    (applyAll calls links).count edge = (applyAll calls links').count edge := by
  induction calls generalizing links links' with
  | nil => exact same
  | cons call rest ih =>
    refine ih ?_
    cases call with
    | link other => simp [apply, same]
    | unlink other =>
      by_cases here : edge = other
      next =>
        subst here
        simp [apply, same]
      next => simp [apply, List.count_erase_of_ne here, same]

theorem count_untouched {edge : E} {calls : List (Call E)} (links : List E)
    (untouched : ∀ call ∈ calls, call.edge ≠ edge) :
    (applyAll calls links).count edge = links.count edge := by
  have kept := filter_applyAll (fun e => decide (e = edge)) calls links fun call member =>
    decide_eq_false (untouched call member)
  have here : ∀ list : List E, list.count edge = (list.filter fun e => decide (e = edge)).count edge :=
    fun list => (List.count_filter (by simp)).symm
  rw [here, kept, ← here]

theorem count_of_linked {calls : List (Call E)} {edge : E} (links : List E)
    (kept : unlink edge ∉ calls) :
    (applyAll calls links).count edge = links.count edge + calls.count (link edge) := by
  induction calls generalizing links with
  | nil => rfl
  | cons call rest ih =>
    rw [List.mem_cons, not_or] at kept
    refine (ih (call.apply links) kept.2).trans ?_
    cases call with
    | link other =>
      by_cases same : other = edge
      next =>
        subst same
        simp [apply]
        omega
      next => simp [apply, same]
    | unlink other =>
      have apart : other ≠ edge := fun same => kept.1 (by rw [same])
      simp [apply, List.count_erase_of_ne (Ne.symm apart)]

theorem count_of_unlinked {calls : List (Call E)} {edge : E} (links : List E)
    (fresh : link edge ∉ calls) :
    (applyAll calls links).count edge = links.count edge - calls.count (unlink edge) := by
  induction calls generalizing links with
  | nil => rfl
  | cons call rest ih =>
    rw [List.mem_cons, not_or] at fresh
    refine (ih (call.apply links) fresh.2).trans ?_
    cases call with
    | link other =>
      have apart : other ≠ edge := fun same => fresh.1 (by rw [same])
      simp [apply, apart]
    | unlink other =>
      by_cases same : other = edge
      next =>
        subst same
        simp [apply]
        omega
      next => simp [apply, same, List.count_erase_of_ne (Ne.symm same)]

omit [DecidableEq I] in
theorem count_of_owner {edge : E} {calls : I → List (Call E)} {items : List I} {owner : I}
    (links : List E) (once : items.Nodup) (listed : owner ∈ items)
    (others : ∀ i ∈ items, i ≠ owner → ∀ call ∈ calls i, call.edge ≠ edge) :
    (applyAll (items.flatMap calls) links).count edge = (applyAll (calls owner) links).count edge := by
  obtain ⟨before, after, split⟩ := List.append_of_mem listed
  have apart : owner ∉ before ∧ owner ∉ after := by
    rw [split, List.nodup_append, List.nodup_cons] at once
    exact ⟨fun met => once.2.2 owner met owner List.mem_cons_self rfl, once.2.1.1⟩
  have earlier : ∀ call ∈ before.flatMap calls, call.edge ≠ edge := by
    intro call made
    obtain ⟨i, member, made⟩ := List.mem_flatMap.mp made
    exact others i (by simp [split, member]) (fun same => apart.1 (same ▸ member)) call made
  have later : ∀ call ∈ after.flatMap calls, call.edge ≠ edge := by
    intro call made
    obtain ⟨i, member, made⟩ := List.mem_flatMap.mp made
    exact others i (by simp [split, member]) (fun same => apart.2 (same ▸ member)) call made
  rw [split, List.flatMap_append, List.flatMap_cons, applyAll_append, applyAll_append,
    count_untouched _ later]
  exact count_congr _ (count_untouched _ earlier)

end Call

/-- What an item does with its own state and with the links that its process sees; `none` when it
fails. -/
abbrev Handler (σ E : Type u) := σ → List E → Option (σ × List (Call E))

-- The second handler sees the calls of the first one.
def Handler.andThen (first second : Handler σ E) : Handler σ E := fun state links => do
  let (state, calls) ← first state links
  let (state, calls') ← second state (Call.applyAll calls links)
  some (state, calls ++ calls')

structure Shared (P E : Type u) where
  committed : List E
  calls : List (P × Call E)

namespace Shared

def view (s : Shared P E) (p : P) : List E :=
  Call.applyAll ((s.calls.filter fun call => call.1 = p).map Prod.snd) s.committed

def synchronize (s : Shared P E) : Shared P E where
  committed := Call.applyAll (s.calls.map Prod.snd) s.committed
  calls := []

end Shared

def execute (rank : I → P) (handler : I → Handler σ E) (s : Shared P E × (I → σ)) (i : I) :
    Option (Shared P E × (I → σ)) := do
  let (state, calls) ← handler i (s.2 i) (s.1.view (rank i))
  some ({ s.1 with calls := s.1.calls ++ calls.map fun call => (rank i, call) },
    Function.update s.2 i state)

-- The items run, those of a process one after another, and the processes synchronize.
def phase (rank : I → P) (handler : I → Handler σ E) (items : List I) (links : List E)
    (states : I → σ) : Option (List E × (I → σ)) := do
  let (s, states) ← items.foldlM (execute rank handler) ({ committed := links, calls := [] }, states)
  some (s.synchronize.committed, states)

/-- No item sees what another one does before they synchronize. -/
structure Separate (handler : I → Handler σ E) (sees : I → E → Bool) : Prop where
  reads : ∀ i state links links', links.filter (sees i) = links'.filter (sees i) →
    handler i state links = handler i state links'
  apart : ∀ i j state links result, i ≠ j → handler j state links = some result →
    ∀ call ∈ result.2, sees i call.edge = false

def madeBy (rank : I → P) (calls : I → List (Call E)) (items : List I) : List (P × Call E) :=
  items.flatMap fun i => (calls i).map fun call => (rank i, call)

omit [DecidableEq P] [DecidableEq E] [DecidableEq I] in
theorem snd_madeBy (rank : I → P) (calls : I → List (Call E)) (items : List I) :
    (madeBy rank calls items).map Prod.snd = items.flatMap calls := by
  simp [madeBy, List.map_flatMap, Function.comp_def]

section

variable (rank : I → P) {handler : I → Handler σ E} {sees : I → E → Bool} {items : List I}
  {links : List E} {states next : I → σ} {calls : I → List (Call E)}

omit [DecidableEq I] in
theorem view_unseen (separate : Separate handler sees) {done : List I} {i : I}
    (ran : ∀ j ∈ done, handler j (states j) links = some (next j, calls j)) (fresh : i ∉ done) (p : P) :
    (Shared.view { committed := links, calls := madeBy rank calls done } p).filter (sees i) =
      links.filter (sees i) := by
  refine Call.filter_applyAll _ _ _ fun call member => ?_
  obtain ⟨⟨q, made⟩, listed, rfl⟩ := List.mem_map.mp member
  obtain ⟨j, earlier, listed⟩ := List.mem_flatMap.mp (List.mem_of_mem_filter listed)
  have other : i ≠ j := fun same => fresh (same ▸ earlier)
  refine separate.apart i j (states j) links _ other (ran j earlier) made ?_
  simpa using (List.mem_map.mp listed).elim fun made' mine => (Prod.mk.inj mine.2).2 ▸ mine.1

theorem execute_all (separate : Separate handler sees) (once : items.Nodup)
    (each : ∀ i ∈ items, handler i (states i) links = some (next i, calls i)) :
    items.foldlM (execute rank handler) ({ committed := links, calls := [] }, states) =
      some ({ committed := links, calls := madeBy rank calls items },
        fun i => if i ∈ items then next i else states i) := by
  suffices general : ∀ done rest, items = done ++ rest →
      rest.foldlM (execute rank handler) ({ committed := links, calls := madeBy rank calls done },
        fun i => if i ∈ done then next i else states i) =
      some ({ committed := links, calls := madeBy rank calls items },
        fun i => if i ∈ items then next i else states i) by
    simpa [madeBy] using general [] items rfl
  intro done rest
  induction rest generalizing done with
  | nil =>
    intro all
    simp [all]
  | cons i rest ih =>
    intro all
    have fresh : i ∉ done := by
      rw [all] at once
      exact fun met => (List.nodup_append.mp once).2.2 i met i List.mem_cons_self rfl
    have same := separate.reads i (states i) _ _ (view_unseen rank separate
      (fun j earlier => each j (by simp [all, earlier])) fresh (rank i))
    have ran : execute rank handler ({ committed := links, calls := madeBy rank calls done },
        fun i => if i ∈ done then next i else states i) i =
      some ({ committed := links, calls := madeBy rank calls (done ++ [i]) },
        fun j => if j ∈ done ++ [i] then next j else states j) := by
      unfold execute
      dsimp only
      rw [if_neg fresh, same, each i (by simp [all])]
      simp only [Option.bind_eq_bind, Option.bind_some, Option.some.injEq, Prod.mk.injEq]
      constructor
      next => simp [madeBy]
      next =>
        funext j
        by_cases here : j = i
        next => simp [here]
        next => simp [here]
    rw [List.foldlM_cons, ran]
    exact ih (done ++ [i]) (by simp [all])

theorem phase_eq (separate : Separate handler sees) (once : items.Nodup)
    (each : ∀ i ∈ items, handler i (states i) links = some (next i, calls i)) :
    phase rank handler items links states =
      some (Call.applyAll (items.flatMap calls) links,
        fun i => if i ∈ items then next i else states i) := by
  unfold phase
  rw [execute_all rank separate once each]
  simp [Shared.synchronize, snd_madeBy]

theorem isSome_of_phase (separate : Separate handler sees) (once : items.Nodup)
    (ended : (phase rank handler items links states).isSome) :
    ∀ i ∈ items, (handler i (states i) links).isSome := by
  have outcome : ∀ i, (handler i (states i) links).isSome →
      handler i (states i) links = some (((handler i (states i) links).getD (states i, [])).1,
        ((handler i (states i) links).getD (states i, [])).2) := by
    intro i good
    obtain ⟨result, made⟩ := Option.isSome_iff_exists.mp good
    rw [made]
    rfl
  by_contra failing
  have bad : ∃ before i after, items = before ++ i :: after ∧
      (∀ j ∈ before, (handler j (states j) links).isSome) ∧ handler i (states i) links = none := by
    clear ended once
    induction items with
    | nil => exact absurd (fun _ member => absurd member List.not_mem_nil) failing
    | cons head rest ih =>
      cases first : handler head (states head) links with
      | none => exact ⟨[], head, rest, rfl, fun _ member => absurd member List.not_mem_nil, first⟩
      | some result =>
        obtain ⟨before, i, after, split, good, fails⟩ := ih fun good => failing fun j member => by
          rcases List.mem_cons.mp member with here | there
          next => simp [here, first]
          next => exact good j there
        refine ⟨head :: before, i, after, by simp [split], fun j member => ?_, fails⟩
        rcases List.mem_cons.mp member with here | there
        next => simp [here, first]
        next => exact good j there
  obtain ⟨before, i, after, split, good, fails⟩ := bad
  rw [split] at once
  have fresh : i ∉ before :=
    fun met => (List.nodup_append.mp once).2.2 i met i List.mem_cons_self rfl
  have ran := execute_all rank separate (List.nodup_append.mp once).1
    fun j member => outcome j (good j member)
  have same := separate.reads i (states i) _ _ (view_unseen rank separate
    (fun j member => outcome j (good j member)) fresh (rank i))
  have stuck : phase rank handler items links states = none := by
    unfold phase
    rw [split, List.foldlM_append, ran]
    simp [execute, fresh, same, fails]
  simp [stuck] at ended

end

end Superstep
