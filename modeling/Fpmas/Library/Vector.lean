import Mathlib.Data.List.Dedup
import Mathlib.Data.List.Nodup

set_option autoImplicit false

universe u v

namespace List

variable {α : Type u} [DecidableEq α]

-- `l.erase(std::remove(l.begin(), l.end(), value))`: `remove` moves the kept values to the front, and a
-- single slot is erased after them.
def eraseRemoved (l : List α) (value : α) : List α :=
  let kept := l.filter (· ≠ value)
  kept ++ l.drop (kept.length + 1)

theorem Nodup.eraseRemoved {l : List α} (once : l.Nodup) (value : α) :
    l.eraseRemoved value = l.erase value := by
  have kept : l.filter (· ≠ value) = l.erase value := by
    rw [once.erase_eq_filter]
    congr 1
    funext other
    simp [bne, Bool.beq_eq_decide_eq]
  have none_left : l.drop ((l.erase value).length + 1) = [] := by
    rw [List.drop_eq_nil_iff, List.length_erase]
    split <;> omega
  simp only [List.eraseRemoved, kept, none_left, List.append_nil]

theorem Nodup.mem_eraseRemoved {l : List α} (once : l.Nodup) (value other : α) :
    other ∈ l.eraseRemoved value ↔ other ∈ l ∧ other ≠ value := by
  rw [once.eraseRemoved, once.mem_erase_iff]
  exact and_comm

theorem Nodup.eraseRemoved_nodup {l : List α} (once : l.Nodup) (value : α) :
    (l.eraseRemoved value).Nodup := by
  rw [once.eraseRemoved]
  exact once.erase value

theorem foldlM_done {α : Type u} {β : Type v} {f : β → α → Option β} {motive : List α → β → Prop}
    {l : List α} {b b' : β} (start : motive [] b)
    (step : ∀ done a rest b b', l = done ++ a :: rest → motive done b → f b a = some b' →
      motive (done ++ [a]) b')
    (ran : l.foldlM f b = some b') : motive l b' := by
  suffices general : ∀ done rest b, l = done ++ rest → motive done b →
      rest.foldlM f b = some b' → motive l b' from general [] l b rfl start ran
  intro done rest
  induction rest generalizing done with
  | nil =>
    intro b split held ran
    cases ran
    rwa [split, List.append_nil]
  | cons a rest ih =>
    intro b split held ran
    rw [List.foldlM_cons] at ran
    obtain ⟨middle, first, others⟩ := Option.bind_eq_some_iff.mp ran
    exact ih (done ++ [a]) middle (by simp [split]) (step done a rest b middle split held first)
      others

theorem foldlM_returns {α : Type u} {β : Type v} {f : β → α → Option β}
    {motive : List α → β → Prop} {l : List α} {b : β} (start : motive [] b)
    (step : ∀ done a rest b, l = done ++ a :: rest → motive done b →
      ∃ b', f b a = some b' ∧ motive (done ++ [a]) b') :
    ∃ b', l.foldlM f b = some b' ∧ motive l b' := by
  suffices general : ∀ done rest b, l = done ++ rest → motive done b →
      ∃ b', rest.foldlM f b = some b' ∧ motive l b' from general [] l b rfl start
  intro done rest
  induction rest generalizing done with
  | nil =>
    intro b split held
    rw [List.append_nil] at split
    exact ⟨b, rfl, split ▸ held⟩
  | cons a rest ih =>
    intro b split held
    obtain ⟨middle, first, held⟩ := step done a rest b split held
    obtain ⟨last, others, held⟩ := ih (done ++ [a]) middle (by simp [split]) held
    refine ⟨last, ?_, held⟩
    rw [List.foldlM_cons, first]
    exact others

end List
