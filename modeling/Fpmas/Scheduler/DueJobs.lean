import Fpmas.Scheduler.Scheduler

set_option autoImplicit false
set_option linter.dupNamespace false

namespace Fpmas.Scheduler

variable {Job : Type}

abbrev Block (Job : Type) := SubTimeStep × List Job

namespace Epoch

/-- The blocks follow each other by sub-step, and none of them is split. -/
structure Holds (epoch : Epoch Job) (blocks : List (Block Job)) : Prop where
  jobs : epoch.jobs = blocks.flatMap (·.2)
  ordering : epoch.jobOrdering = blocks.flatMap fun block => block.2.map fun _ => block.1
  sorted : blocks.Pairwise (·.1 ≤ ·.1)

theorem clear_holds (epoch : Epoch Job) : epoch.clear.Holds [] :=
  ⟨rfl, rfl, List.Pairwise.nil⟩

theorem sorted_split (blocks : List (Block Job)) (sorted : blocks.Pairwise (·.1 ≤ ·.1))
    (subStep : SubTimeStep) :
    blocks = blocks.filter (·.1 ≤ subStep) ++ blocks.filter fun block => ¬ block.1 ≤ subStep := by
  induction blocks with
  | nil => rfl
  | cons block rest ih =>
    rw [List.pairwise_cons] at sorted
    by_cases before : block.1 ≤ subStep
    next =>
      have later := ih sorted.2
      simpa [before] using later
    next =>
      have after : ∀ other ∈ rest, ¬ other.1 ≤ subStep := by
        intro other member below
        exact before (le_trans (sorted.1 other member) below)
      have none_ : rest.filter (·.1 ≤ subStep) = [] := by simpa using after
      have all : rest.filter (fun other => ¬ other.1 ≤ subStep) = rest :=
        List.filter_eq_self.mpr fun other member => decide_eq_true (after other member)
      simp only [List.filter_cons, before, decide_false, none_, all]
      simp

theorem takeWhile_sorted (blocks : List (Block Job)) (sorted : blocks.Pairwise (·.1 ≤ ·.1))
    (subStep : SubTimeStep) :
    ((blocks.flatMap fun block => block.2.map fun _ => block.1).takeWhile (subStep ≥ ·)).length =
      ((blocks.filter (·.1 ≤ subStep)).flatMap (·.2)).length := by
  let ordering (blocks : List (Block Job)) := blocks.flatMap fun block => block.2.map fun _ => block.1
  have before : ∀ sub ∈ ordering (blocks.filter (·.1 ≤ subStep)), sub ≤ subStep := by
    intro sub member
    obtain ⟨block, kept, inside⟩ := List.mem_flatMap.mp member
    obtain ⟨_, _, rfl⟩ := List.mem_map.mp inside
    simpa using (List.mem_filter.mp kept).2
  have after : ∀ sub ∈ ordering (blocks.filter fun block => ¬ block.1 ≤ subStep), ¬ sub ≤ subStep := by
    intro sub member
    obtain ⟨block, kept, inside⟩ := List.mem_flatMap.mp member
    obtain ⟨_, _, rfl⟩ := List.mem_map.mp inside
    simpa using (List.mem_filter.mp kept).2
  have split : ordering blocks = ordering (blocks.filter (·.1 ≤ subStep)) ++
      ordering (blocks.filter fun block => ¬ block.1 ≤ subStep) := by
    simp only [ordering, ← List.flatMap_append, ← sorted_split blocks sorted subStep]
  have prefix_ : (ordering blocks).takeWhile (subStep ≥ ·) = ordering (blocks.filter (·.1 ≤ subStep)) := by
    rw [split, List.takeWhile_append_of_pos fun sub member => decide_eq_true (before sub member)]
    have stops : (ordering (blocks.filter fun block => ¬ block.1 ≤ subStep)).takeWhile (subStep ≥ ·) =
        [] := by
      cases rest : ordering (blocks.filter fun block => ¬ block.1 ≤ subStep) with
      | nil => rfl
      | cons sub others =>
        have first := after sub (by rw [rest]; exact List.mem_cons_self)
        simp [first]
    rw [stops, List.append_nil]
  show ((ordering blocks).takeWhile (subStep ≥ ·)).length = _
  rw [prefix_]
  simp [ordering, List.length_flatMap]

theorem Holds.submit {epoch : Epoch Job} {blocks : List (Block Job)} (holds : epoch.Holds blocks)
    (jobList : List Job) (subStep : SubTimeStep) :
    ∃ blocks', (epoch.submit jobList subStep).Holds blocks' ∧
      blocks'.Perm (blocks ++ [(subStep, jobList)]) := by
  let before := blocks.filter (·.1 ≤ subStep)
  let after := blocks.filter fun block => ¬ block.1 ≤ subStep
  have split : blocks = before ++ after := sorted_split blocks holds.sorted subStep
  have position : (epoch.jobOrdering.takeWhile (subStep ≥ ·)).length =
      (before.flatMap (·.2)).length := by
    rw [holds.ordering]
    exact takeWhile_sorted blocks holds.sorted subStep
  have sizes : (before.flatMap fun block => block.2.map fun _ => block.1).length =
      (before.flatMap (·.2)).length := by
    simp [List.length_flatMap]
  refine ⟨before ++ [(subStep, jobList)] ++ after, ⟨?_, ?_, ?_⟩, ?_⟩
  · have jobs : epoch.jobs = before.flatMap (·.2) ++ after.flatMap (·.2) := by
      rw [holds.jobs, ← List.flatMap_append, ← split]
    unfold Epoch.submit
    simp only [position]
    rw [jobs, List.take_left, List.drop_left]
    simp
  · have ordering : epoch.jobOrdering = (before.flatMap fun block => block.2.map fun _ => block.1) ++
        after.flatMap fun block => block.2.map fun _ => block.1 := by
      rw [holds.ordering, ← List.flatMap_append, ← split]
    unfold Epoch.submit
    simp only [position, ← sizes]
    rw [ordering, List.take_left, List.drop_left]
    simp
  · have sorted := holds.sorted
    rw [split, List.pairwise_append] at sorted
    rw [List.append_assoc, List.pairwise_append, List.singleton_append, List.pairwise_cons]
    refine ⟨sorted.1, ⟨fun block member => ?_, sorted.2.1⟩, fun block member other later => ?_⟩
    · have beyond : ¬ block.1 ≤ subStep := by simpa using (List.mem_filter.mp member).2
      exact le_of_not_ge beyond
    · have reached : block.1 ≤ subStep := by simpa using (List.mem_filter.mp member).2
      rcases List.mem_cons.mp later with rfl | further
      · exact reached
      · exact sorted.2.2 block member other further
  · rw [split, List.append_assoc, List.append_assoc]
    exact (List.perm_append_comm).append_left before

theorem Holds.loop {α : Type} {f : Epoch Job → α → Epoch Job} {submitted : α → List (Block Job)}
    (once : ∀ epoch blocks item, epoch.Holds blocks → ∃ blocks', (f epoch item).Holds blocks' ∧
      blocks'.Perm (blocks ++ submitted item)) (items : List α) {epoch : Epoch Job}
    {blocks : List (Block Job)} (holds : epoch.Holds blocks) :
    ∃ blocks', (items.foldl f epoch).Holds blocks' ∧
      blocks'.Perm (blocks ++ items.flatMap submitted) := by
  induction items generalizing epoch blocks with
  | nil => exact ⟨blocks, holds, by simp⟩
  | cons item rest ih =>
    obtain ⟨middle, first, added⟩ := once epoch blocks item holds
    obtain ⟨final, later, more⟩ := ih first
    refine ⟨final, later, more.trans ?_⟩
    rw [List.flatMap_cons, ← List.append_assoc]
    exact added.append_right _

end Epoch

namespace Request

def block : Request Job → Block Job
  | unique date jobList => (subTimeStep date, jobList)
  | recurring start _ jobList => (subTimeStep start, jobList)
  | limited start _ _ jobList => (subTimeStep start, jobList)

/-- The jobs of the request are to be executed during the step. -/
def Due (step : TimeStep) : Request Job → Prop
  | unique date _ => timeStep date = step
  | recurring start period _ => ∃ occurrence : Nat, step = timeStep start + occurrence * period
  | limited start end_ period _ => ∃ occurrence : Nat,
      step = timeStep start + occurrence * period ∧ start + occurrence * (period : ℕ) < end_

end Request

theorem repeats {start step : TimeStep} {period : Period} :
    (start ≤ step ∧ (step - start) % period = 0) ↔ ∃ occurrence : Nat, step = start + occurrence * period := by
  constructor
  · rintro ⟨started, multiple⟩
    obtain ⟨occurrence, same⟩ := Nat.dvd_of_mod_eq_zero multiple
    refine ⟨occurrence, ?_⟩
    rw [Nat.mul_comm, ← same]
    exact (Nat.add_sub_cancel' started).symm
  · rintro ⟨occurrence, rfl⟩
    simp

theorem timeStep_add_subTimeStep (date : Date) : (timeStep date : ℚ≥0) + subTimeStep date = date := by
  unfold timeStep subTimeStep
  exact add_tsub_cancel_of_le (Nat.floor_le (by simp))

theorem limited_due {step : TimeStep} {start end_ : Date} {period : Period} {jobList : List Job} :
    (Request.limited start end_ period jobList).Due step ↔
      (timeStep start ≤ step ∧ (step - timeStep start) % period = 0) ∧
        step + subTimeStep start < end_ := by
  -- The date of the occurrence has the sub-step of the start.
  have date : ∀ occurrence : Nat, ((timeStep start + occurrence * period : ℕ) : ℚ≥0) +
      subTimeStep start = start + occurrence * (period : ℕ) := by
    intro occurrence
    push_cast
    rw [add_right_comm, timeStep_add_subTimeStep]
  rw [repeats]
  constructor
  next =>
    rintro ⟨occurrence, rfl, before⟩
    exact ⟨⟨occurrence, rfl⟩, (date occurrence).symm ▸ before⟩
  next =>
    rintro ⟨⟨occurrence, rfl⟩, before⟩
    exact ⟨occurrence, rfl, date occurrence ▸ before⟩

instance (step : TimeStep) (request : Request Job) : Decidable (request.Due step) :=
  match request with
  | .unique date _ => inferInstanceAs (Decidable (timeStep date = step))
  | .recurring start period _ =>
    decidable_of_iff (timeStep start ≤ step ∧ (step - timeStep start) % period = 0) repeats
  | .limited start end_ period _ =>
    decidable_of_iff ((timeStep start ≤ step ∧ (step - timeStep start) % period = 0) ∧
      step + subTimeStep start < end_) limited_due.symm

def SchedulerItem.block (item : SchedulerItem Job) : Block Job := (item.subStep, item.jobList)

def recurringBlocks (step start : TimeStep) (entry : Period × SchedulerItem Job) : List (Block Job) :=
  if (step - start) % entry.1 = 0 then [entry.2.block] else []

def limitedBlocks (step start : TimeStep) (entry : Date × Period × SchedulerItem Job) :
    List (Block Job) :=
  if step + entry.2.2.subStep < entry.1 then
    if (step - start) % entry.2.1 = 0 then [entry.2.2.block] else []
  else []

namespace Scheduler

def uniqueContents (s : Scheduler Job) (step : TimeStep) : List (Block Job) :=
  (s.uniqueJobs.valuesAt step).map (·.block)

def recurringContents (s : Scheduler Job) (step : TimeStep) : List (Block Job) :=
  (OrderedMap.items s.recurringJobs.entries).flatMap fun entry =>
    if entry.1 ≤ step then recurringBlocks step entry.1 entry.2 else []

def limitedContents (s : Scheduler Job) (step : TimeStep) : List (Block Job) :=
  (OrderedMap.items s.limitedRecurringJobs.entries).flatMap fun entry =>
    if entry.1 ≤ step then limitedBlocks step entry.1 entry.2 else []

def contents (s : Scheduler Job) (step : TimeStep) : List (Block Job) :=
  s.uniqueContents step ++ s.recurringContents step ++ s.limitedContents step

theorem contents_schedule (s : Scheduler Job) (request : Request Job) (step : TimeStep) :
    ((s.schedule request).contents step).Perm
      (s.contents step ++ if request.Due step then [request.block] else []) := by
  unfold contents
  cases request with
  | unique date jobList =>
    have added : (s.schedule (.unique date jobList)).uniqueContents step =
        s.uniqueContents step ++ if timeStep date = step then [(subTimeStep date, jobList)] else [] := by
      unfold uniqueContents schedule
      simp only [UnorderedMap.valuesAt_push, eq_comm (a := step)]
      split
      next => simp [SchedulerItem.block]
      next => simp
    rw [added]
    show (_ ++ s.recurringContents step ++ s.limitedContents step).Perm _
    simp only [List.append_assoc]
    refine List.Perm.append_left _ ?_
    rw [← List.append_assoc (s.recurringContents step)]
    exact List.perm_append_comm
  | recurring start period jobList =>
    have added : ((s.schedule (.recurring start period jobList)).recurringContents step).Perm
        ((if (Request.recurring start period jobList).Due step then
            [(Request.recurring start period jobList).block] else []) ++ s.recurringContents step) := by
      have same : (if timeStep start ≤ step then recurringBlocks step (timeStep start)
          (period, ({ subStep := subTimeStep start, jobList } : SchedulerItem Job)) else []) =
          if (Request.recurring start period jobList).Due step then
            [(Request.recurring start period jobList).block] else [] := by
        simp only [recurringBlocks, Request.Due, ← repeats, ite_and]
        rfl
      rw [← same]
      exact (OrderedMap.items_pushEntry _ _ _).flatMap_right _
    show (s.uniqueContents step ++ _ ++ s.limitedContents step).Perm _
    refine ((added.append_left _).append_right _).trans ?_
    simp only [List.append_assoc]
    refine List.Perm.append_left _ ?_
    rw [← List.append_assoc (s.recurringContents step)]
    exact List.perm_append_comm
  | limited start end_ period jobList =>
    have added : ((s.schedule (.limited start end_ period jobList)).limitedContents step).Perm
        ((if (Request.limited start end_ period jobList).Due step then
            [(Request.limited start end_ period jobList).block] else []) ++ s.limitedContents step) := by
      have same : (if timeStep start ≤ step then limitedBlocks step (timeStep start)
          (end_, period, ({ subStep := subTimeStep start, jobList } : SchedulerItem Job)) else []) =
          if (Request.limited start end_ period jobList).Due step then
            [(Request.limited start end_ period jobList).block] else [] := by
        simp only [limitedBlocks, limited_due]
        by_cases started : timeStep start ≤ step <;>
          by_cases multiple : (step - timeStep start) % period = 0 <;>
          by_cases before : step + subTimeStep start < end_ <;>
          simp [started, multiple, before, SchedulerItem.block, Request.block]
      rw [← same]
      exact (OrderedMap.items_pushEntry _ _ _).flatMap_right _
    show (s.uniqueContents step ++ s.recurringContents step ++ _).Perm _
    refine (added.append_left _).trans ?_
    rw [List.append_assoc _ (s.limitedContents step)]
    exact List.perm_append_comm.append_left _

/-- The epoch holds what the containers hold for the step. -/
theorem build_holds (s : Scheduler Job) (step : TimeStep) (epoch : Epoch Job) :
    ∃ blocks, (s.build step epoch).Holds blocks ∧ blocks.Perm (s.contents step) := by
  have one : ∀ (item : SchedulerItem Job) (epoch : Epoch Job) blocks, epoch.Holds blocks →
      ∃ blocks', (epoch.submit item.jobList item.subStep).Holds blocks' ∧
        blocks'.Perm (blocks ++ [item.block]) :=
    fun item epoch blocks holds => holds.submit item.jobList item.subStep
  have unique : ∃ blocks, (s.submitUnique step epoch.clear).Holds blocks ∧
      blocks.Perm (s.uniqueContents step) := by
    unfold submitUnique uniqueContents UnorderedMap.valuesAt
    cases s.uniqueJobs.lookup step with
    | none => exact ⟨[], epoch.clear_holds, by simp⟩
    | some items =>
      obtain ⟨blocks, holds, all⟩ := Epoch.Holds.loop
        (fun epoch blocks item => one item epoch blocks) items epoch.clear_holds
      refine ⟨blocks, holds, ?_⟩
      simpa [List.map_eq_flatMap] using all
  obtain ⟨first, holds, unique⟩ := unique
  have recurring : ∃ blocks, (s.submitRecurring step (s.submitUnique step epoch.clear)).Holds blocks ∧
      blocks.Perm (first ++ s.recurringContents step) := by
    unfold recurringContents
    rw [← OrderedMap.flatMap_upTo s.recurringJobs step (recurringBlocks step)]
    refine Epoch.Holds.loop (fun epoch blocks entry holds => ?_) _ holds
    refine Epoch.Holds.loop (fun epoch blocks item holds => ?_) _ holds
    unfold recurringBlocks
    split
    next => exact one item.2 epoch blocks holds
    next => exact ⟨blocks, holds, by simp⟩
  obtain ⟨second, holds, recurring⟩ := recurring
  have limited : ∃ blocks, (s.build step epoch).Holds blocks ∧
      blocks.Perm (second ++ s.limitedContents step) := by
    unfold limitedContents
    rw [← OrderedMap.flatMap_upTo s.limitedRecurringJobs step (limitedBlocks step)]
    refine Epoch.Holds.loop (fun epoch blocks entry holds => ?_) _ holds
    refine Epoch.Holds.loop (fun epoch blocks item holds => ?_) _ holds
    obtain ⟨end_, period, item⟩ := item
    unfold limitedBlocks
    dsimp only
    split
    next =>
      split
      next => exact one item epoch blocks holds
      next => exact ⟨blocks, holds, by simp⟩
    next => exact ⟨blocks, holds, by simp⟩
  obtain ⟨third, holds, limited⟩ := limited
  refine ⟨third, holds, limited.trans ?_⟩
  exact (recurring.trans (unique.append_right _)).append_right _

end Scheduler

theorem contents_foldl_schedule (requests : List (Request Job)) (step : TimeStep) :
    ((requests.foldl Scheduler.schedule .empty).contents step).Perm
      ((requests.filter (·.Due step)).map (·.block)) := by
  have scheduled : ∀ s : Scheduler Job, ((requests.foldl Scheduler.schedule s).contents step).Perm
      (s.contents step ++ (requests.filter (·.Due step)).map (·.block)) := by
    induction requests with
    | nil => simp
    | cons request rest ih =>
      intro s
      rw [List.foldl_cons]
      refine (ih (s.schedule request)).trans ?_
      refine ((s.contents_schedule request step).append_right _).trans ?_
      by_cases due : request.Due step <;> simp [due]
  exact scheduled .empty

theorem build_due_jobs (requests : List (Request Job)) (step : TimeStep) (epoch : Epoch Job) :
    ∃ blocks : List (Block Job),
      blocks.Perm ((requests.filter (·.Due step)).map (·.block)) ∧
      blocks.Pairwise (·.1 ≤ ·.1) ∧
      ((requests.foldl Scheduler.schedule .empty).build step epoch).jobs = blocks.flatMap (·.2) := by
  obtain ⟨blocks, holds, all⟩ := (requests.foldl Scheduler.schedule .empty).build_holds step epoch
  exact ⟨blocks, all.trans (contents_foldl_schedule requests step), holds.sorted, holds.jobs⟩

end Fpmas.Scheduler
