import Mathlib.Data.List.Chain
import Mathlib.Data.List.Range
import Fpmas.Library.SignificantBits
import Fpmas.Library.TransitionSystem
import Fpmas.Scheduler.DueJobs

set_option autoImplicit false
set_option linter.dupNamespace false

namespace Fpmas.Runtime

open Scheduler

-- The tasks of a job: those without a begin or an end task have the `VoidTask`.
structure JobTasks (Task : Type) where
  begin_ : Task
  tasks : List Task
  end_ : Task

structure World (Job Task State : Type) where
  -- The calls of `schedule` so far.
  requests : List (Request Job)
  jobs : Job → JobTasks Task
  state : State

structure Execution (Job Task : Type) where
  job : Job
  begin_ : Task
  -- The tasks of the job when its begin task returns.
  held : List Task
  tasks : List Task
  end_ : Task

structure EpochTrace (Job Task : Type) where
  date : Date
  -- The calls of `schedule` before this date.
  requests : List (Request Job)
  executions : List (Execution Job Task)

structure Runtime (Job : Type) where
  epoch : Epoch Job
  date : Date
  -- How many times the generator has shuffled tasks.
  rd : Nat

structure Simulation (Job Task State : Type) where
  runtime : Runtime Job
  world : World Job Task State
  trace : List (EpochTrace Job Task)

variable {Job Task State : Type}

def World.scheduler (world : World Job Task State) : Scheduler Job :=
  world.requests.foldl Scheduler.schedule .empty

section

variable (runTask : Task → World Job Task State → World Job Task State) (shuffle : Nat → HashOrder)

def runTasks (tasks : List Task) (world : World Job Task State) : World Job Task State :=
  tasks.foldl (fun world task => runTask task world) world

def execute (job : Job) (rd : Nat) (world : World Job Task State) :
    World Job Task State × Execution Job Task :=
  let begin_ := (world.jobs job).begin_
  let world := runTask begin_ world
  -- The tasks are copied, so that they can change those of the job.
  let held := (world.jobs job).tasks
  let tasks := (shuffle rd).of held
  let world := runTasks runTask tasks world
  let end_ := (world.jobs job).end_
  (runTask end_ world, { job, begin_, held, tasks, end_ })

def executeAll : List Job → Nat → World Job Task State → World Job Task State × List (Execution Job Task)
  | [], _, world => (world, [])
  | job :: jobs, rd, world =>
    let first := execute runTask shuffle job rd world
    let rest := executeAll jobs (rd + 1) first.1
    (rest.1, first.2 :: rest.2)

def runDate (s : Simulation Job Task State) (time : Date) : Simulation Job Task State :=
  let epoch := s.world.scheduler.build (timeStep time) s.runtime.epoch
  let executed := executeAll runTask shuffle epoch.jobs s.runtime.rd s.world
  { runtime := { epoch, date := time, rd := s.runtime.rd + epoch.jobs.length }
    world := executed.1
    trace := s.trace ++
      [{ date := time, requests := s.world.requests, executions := executed.2 }] }

-- `time++`: a float has 24 significant bits.
def increment (time : Date) : Date := SignificantBits.round 24 (time + 1)

-- `for(Date time = start; time < end; time++)`, if the condition fails within `fuel` tests.
def run : Nat → Date → Date → Simulation Job Task State → Option (Simulation Job Task State)
  | 0, _, _, _ => none
  | fuel + 1, time, end_, s =>
    if time < end_ then run fuel (increment time) end_ (runDate runTask shuffle s time) else some s

def runUntil (fuel : Nat) (s : Simulation Job Task State) (end_ : Date) :
    Option (Simulation Job Task State) :=
  run runTask shuffle fuel s.runtime.date end_ s

end

-- The dates of the documentation: `start + n` for any integer `n` such that `start + n < end`.
def dates (start end_ : Date) : List Date :=
  (List.range ⌈end_ - start⌉₊).map fun k : Nat => start + k

/-- The floats that are multiples of `2 ^ -bits` count without rounding until `2 ^ (24 - bits)`. -/
structure Exact (bits : Nat) (start : Date) : Prop where
  within : bits ≤ 24
  multiple : ∃ m : Nat, start * 2 ^ bits = m

theorem ceil_step {start end_ : Date} (before : start < end_) :
    ⌈end_ - start⌉₊ = ⌈end_ - (start + 1)⌉₊ + 1 := by
  have same : ∀ m : Nat, ⌈end_ - start⌉₊ ≤ m + 1 ↔ ⌈end_ - (start + 1)⌉₊ + 1 ≤ m + 1 := by
    intro m
    rw [Nat.add_le_add_iff_right, Nat.ceil_le, Nat.ceil_le, tsub_le_iff_left, tsub_le_iff_left]
    push_cast
    rw [add_assoc, add_comm (1 : ℚ≥0)]
  have some_ : 0 < ⌈end_ - start⌉₊ := Nat.ceil_pos.mpr (tsub_pos_of_lt before)
  have below := (same _).mpr le_rfl
  have above := (same (⌈end_ - start⌉₊ - 1)).mp (by omega)
  omega

theorem dates_eq (start end_ : Date) :
    dates start end_ = if start < end_ then start :: dates (start + 1) end_ else [] := by
  unfold dates
  split
  next before =>
    rw [ceil_step before, List.range_succ_eq_map, List.map_cons, List.map_map, Nat.cast_zero, add_zero]
    refine congrArg _ (List.map_congr_left fun k _ => ?_)
    show start + (k + 1 : ℕ) = start + 1 + k
    push_cast
    rw [add_assoc, add_comm (1 : ℚ≥0)]
  next after =>
    rw [tsub_eq_zero_of_le (le_of_not_gt after), Nat.ceil_zero, List.range_zero, List.map_nil]

theorem mem_dates {start end_ date : Date} :
    date ∈ dates start end_ ↔ date < end_ ∧ ∃ k : Nat, date = start + k := by
  unfold dates
  rw [List.mem_map]
  constructor
  next =>
    rintro ⟨k, inside, rfl⟩
    rw [List.mem_range, Nat.lt_ceil, lt_tsub_iff_left] at inside
    exact ⟨inside, k, rfl⟩
  next =>
    rintro ⟨before, k, rfl⟩
    refine ⟨k, ?_, rfl⟩
    rw [List.mem_range, Nat.lt_ceil, lt_tsub_iff_left]
    exact before

section

variable {bits : Nat} {start end_ : Date}

theorem Exact.add (exact_ : Exact bits start) (k : Nat) : Exact bits (start + k) := by
  obtain ⟨m, multiple⟩ := exact_.multiple
  refine ⟨exact_.within, m + k * 2 ^ bits, ?_⟩
  rw [add_mul, multiple]
  push_cast
  rfl

theorem Exact.increment (exact_ : Exact bits start) (bound : start + 1 ≤ 2 ^ (24 - bits)) :
    increment start = start + 1 := by
  obtain ⟨m, multiple⟩ := (exact_.add 1).multiple
  rw [Nat.cast_one] at multiple
  exact SignificantBits.round_exact le_add_self (by norm_num) exact_.within multiple bound

-- A date that floats may not have is rounded, but no further down than the end of the exact ones.
theorem increment_past (past : (2 : ℚ≥0) ^ (24 - bits) ≤ start + 1) : 2 ^ (24 - bits) ≤ increment start :=
  SignificantBits.le_round le_add_self past

theorem increment_stuck : increment (2 ^ 24) = 2 ^ 24 := SignificantBits.round_stuck (by norm_num)

end

/-- The begin task, all the tasks that the job has then, and the end task. -/
structure Execution.Runs (runTask : Task → World Job Task State → World Job Task State)
    (before : World Job Task State) (execution : Execution Job Task) (after : World Job Task State) :
    Prop where
  begin_ : execution.begin_ = (before.jobs execution.job).begin_
  held : execution.held = ((runTask execution.begin_ before).jobs execution.job).tasks
  tasks : execution.tasks.Perm execution.held
  end_ : execution.end_ =
    ((runTasks runTask (execution.begin_ :: execution.tasks) before).jobs execution.job).end_
  after : after = runTasks runTask (execution.begin_ :: execution.tasks ++ [execution.end_]) before

/-- An epoch executes, one after another, the jobs that are due at its date, by sub-step. -/
structure EpochTrace.Runs (runTask : Task → World Job Task State → World Job Task State)
    (before : World Job Task State) (step : EpochTrace Job Task) (after : World Job Task State) :
    Prop where
  requests : step.requests = before.requests
  jobs : ∃ blocks : List (Block Job),
    blocks.Perm ((step.requests.filter (·.Due (timeStep step.date))).map (·.block)) ∧
    blocks.Pairwise (·.1 ≤ ·.1) ∧
    step.executions.map (·.job) = blocks.flatMap (·.2)
  executions : Leads (Execution.Runs runTask) before step.executions after

section

variable {runTask : Task → World Job Task State → World Job Task State} {shuffle : Nat → HashOrder}

theorem execute_runs (job : Job) (rd : Nat) (world : World Job Task State) :
    (execute runTask shuffle job rd world).2.Runs runTask world
      (execute runTask shuffle job rd world).1 := by
  refine ⟨rfl, rfl, (shuffle rd).perm _, rfl, ?_⟩
  unfold runTasks
  rw [List.foldl_append]
  rfl

theorem executeAll_jobs (jobs : List Job) (rd : Nat) (world : World Job Task State) :
    (executeAll runTask shuffle jobs rd world).2.map (·.job) = jobs := by
  induction jobs generalizing rd world with
  | nil => rfl
  | cons job jobs ih =>
    unfold executeAll
    rw [List.map_cons, ih]
    rfl

theorem executeAll_runs (jobs : List Job) (rd : Nat) (world : World Job Task State) :
    Leads (Execution.Runs runTask) world (executeAll runTask shuffle jobs rd world).2
      (executeAll runTask shuffle jobs rd world).1 := by
  induction jobs generalizing rd world with
  | nil => exact .nil world
  | cons job jobs ih => exact .cons (execute_runs job rd world) (ih _ _)

variable (runTask shuffle) in
theorem runDate_runs (s : Simulation Job Task State) (time : Date) :
    ∃ step : EpochTrace Job Task, (runDate runTask shuffle s time).trace = s.trace ++ [step] ∧
      step.date = time ∧ step.Runs runTask s.world (runDate runTask shuffle s time).world := by
  obtain ⟨blocks, holds, all⟩ := s.world.scheduler.build_holds (timeStep time) s.runtime.epoch
  have due := all.trans (contents_foldl_schedule s.world.requests (timeStep time))
  exact ⟨_, rfl, rfl, rfl,
    ⟨blocks, due, holds.sorted, (executeAll_jobs _ _ _).trans holds.jobs⟩, executeAll_runs _ _ _⟩

theorem run_eq {bits : Nat} {start end_ : Date} (exact_ : Exact bits start) (bound : end_ ≤ 2 ^ (24 - bits))
    {fuel : Nat} (enough : ⌈end_ - start⌉₊ < fuel) (s : Simulation Job Task State) :
    run runTask shuffle fuel start end_ s =
      some ((dates start end_).foldl (runDate runTask shuffle) s) := by
  induction fuel generalizing start s with
  | zero => omega
  | succ fuel ih =>
    unfold run
    rw [dates_eq]
    split
    next before =>
      rw [ceil_step before] at enough
      rw [List.foldl_cons]
      by_cases next : start + 1 ≤ 2 ^ (24 - bits)
      next =>
        rw [exact_.increment next]
        exact ih (by simpa using exact_.add 1) (by omega) _
      next =>
        -- Both loops stop.
        have past := le_of_not_ge next
        have ends : ¬ increment start < end_ := not_lt.mpr (bound.trans (increment_past past))
        cases fuel with
        | zero => omega
        | succ fuel =>
          unfold run
          rw [if_neg ends, dates_eq, if_neg (not_lt.mpr (bound.trans past))]
          rfl
    next => rfl

-- A run that has to pass `2 ^ 24` never ends.
theorem run_stuck {end_ : Date} (past : 2 ^ 24 < end_) (fuel : Nat) (s : Simulation Job Task State) :
    run runTask shuffle fuel (2 ^ 24) end_ s = none := by
  induction fuel generalizing s with
  | zero => rfl
  | succ fuel ih =>
    unfold run
    rw [if_pos past, increment_stuck]
    exact ih _

variable (runTask shuffle) in
theorem foldl_runs (times : List Date) (s : Simulation Job Task State) :
    ∃ steps, (times.foldl (runDate runTask shuffle) s).trace = s.trace ++ steps ∧
      steps.map (·.date) = times ∧
      Leads (EpochTrace.Runs runTask) s.world steps (times.foldl (runDate runTask shuffle) s).world := by
  induction times generalizing s with
  | nil => exact ⟨[], (List.append_nil _).symm, rfl, .nil _⟩
  | cons time rest ih =>
    obtain ⟨step, first, at_, ran⟩ := runDate_runs runTask shuffle s time
    obtain ⟨steps, traced, times, later⟩ := ih (runDate runTask shuffle s time)
    refine ⟨step :: steps, ?_, by rw [List.map_cons, at_, times], .cons ran later⟩
    rw [List.foldl_cons, traced, first, List.append_assoc, List.singleton_append]

theorem foldl_date (times : List Date) (s : Simulation Job Task State) :
    (times.foldl (runDate runTask shuffle) s).runtime.date = times.getLast?.getD s.runtime.date := by
  induction times generalizing s with
  | nil => rfl
  | cons time rest ih =>
    rw [List.foldl_cons, ih, List.getLast?_cons, Option.getD_some]
    rfl

section

variable (adds : ∀ task (world : World Job Task State), world.requests <+: (runTask task world).requests)
include adds

theorem Execution.Runs.requests {before after : World Job Task State} {execution : Execution Job Task}
    (ran : execution.Runs runTask before after) : before.requests <+: after.requests := by
  have all : ∀ (tasks : List Task) (world : World Job Task State),
      world.requests <+: (runTasks runTask tasks world).requests := by
    intro tasks
    induction tasks with
    | nil => exact fun world => List.prefix_rfl
    | cons task rest ih => exact fun world => (adds task world).trans (ih (runTask task world))
  rw [ran.after]
  exact all _ _

theorem EpochTrace.Runs.grows {before after : World Job Task State} {step : EpochTrace Job Task}
    (ran : step.Runs runTask before after) : before.requests <+: after.requests := by
  have all : ∀ {executions : List (Execution Job Task)} {before after : World Job Task State},
      Leads (Execution.Runs runTask) before executions after → before.requests <+: after.requests := by
    intro executions before after leads
    induction leads with
    | nil s => exact List.prefix_rfl
    | cons first _ ih => exact (first.requests adds).trans ih
  exact all ran.executions

end

end

def scheduleTask (request : Option (Request Job)) (world : World Job (Option (Request Job)) State) :
    World Job (Option (Request Job)) State :=
  { world with requests := world.requests ++ request.toList }

-- A job that has been requested and requests another one each time it runs.
def growing (date : Date) (request later : Request Bool) :
    Simulation Bool (Option (Request Bool)) Unit where
  runtime := { epoch := ⟨[], []⟩, date, rd := 0 }
  world :=
    { requests := [request]
      jobs job := { begin_ := none, tasks := if job then [some later] else [], end_ := none }
      state := () }
  trace := []

section

variable {runTask : Task → World Job Task State → World Job Task State} {shuffle : Nat → HashOrder}

/-- What a call of `run(Date end)` executes from the current date, and the date where it stops. -/
structure Advances (date end_ : Date) (times : List Date) (last : Date) : Prop where
  starts : ∀ first ∈ times.head?, first = date
  steps : times.IsChain fun before after => after = before + 1
  reaches : ∀ k : Nat, date + k ∈ times ↔ date + k < end_
  stops : last = times.getLast?.getD date

theorem dates_advances (start end_ : Date) :
    Advances start end_ (dates start end_) ((dates start end_).getLast?.getD start) := by
  refine ⟨fun first at_ => ?_, ?_, fun k => ?_, rfl⟩
  next =>
    rw [dates_eq] at at_
    split at at_
    next =>
      cases at_
      rfl
    next => cases at_
  next =>
    unfold dates
    rw [List.isChain_map, List.isChain_range]
    intro k _
    push_cast
    exact (add_assoc _ _ _).symm
  next => exact mem_dates.trans (and_iff_left ⟨k, rfl⟩)

theorem dates_sorted (start end_ : Date) : (dates start end_).Pairwise (· ≤ ·) := by
  unfold dates
  refine List.pairwise_map.mpr (List.pairwise_lt_range.imp fun before => ?_)
  exact add_le_add_right (Nat.cast_le.mpr before.le) start

theorem dates_between {start end_ date : Date} (member : date ∈ dates start end_) :
    start ≤ date ∧ date ≤ (dates start end_).getLast?.getD start := by
  obtain ⟨_, k, rfl⟩ := mem_dates.mp member
  refine ⟨le_self_add, ?_⟩
  have sorted := dates_sorted start end_
  cases found : (dates start end_).getLast? with
  | none =>
    rw [List.getLast?_eq_none_iff.mp found] at member
    cases member
  | some last =>
    obtain ⟨before, split⟩ := List.getLast?_eq_some_iff.mp found
    rw [split] at member sorted
    rcases List.mem_append.mp member with earlier | same
    next => exact (List.pairwise_append.mp sorted).2.2 _ earlier last List.mem_cons_self
    next => exact (List.mem_singleton.mp same).le

theorem dates_last (start end_ : Date) : ∃ m : Nat, (dates start end_).getLast?.getD start = start + m ∧
    ∀ k < m, start + k ∈ dates start end_ := by
  cases found : (dates start end_).getLast? with
  | none => exact ⟨0, by simp, by simp⟩
  | some last =>
    obtain ⟨before, m, rfl⟩ := mem_dates.mp (List.mem_of_getLast? found)
    refine ⟨m, rfl, fun k below => mem_dates.mpr ⟨lt_trans ?_ before, k, rfl⟩⟩
    exact add_lt_add_right (Nat.cast_lt.mpr below) start

/-- Several calls of `run(Date end)`. Each one starts from the date where the previous one has stopped,
and only that date is executed again. -/
theorem runs_advance {bits : Nat} (ends : List Date) (s : Simulation Job Task State)
    (exact_ : Exact bits s.runtime.date) (bound : ∀ end_ ∈ ends, end_ ≤ 2 ^ (24 - bits)) {fuel : Nat}
    (enough : ∀ end_ ∈ ends, ⌈end_⌉₊ < fuel) :
    ∃ t calls, ends.foldlM (runUntil runTask shuffle fuel) s = some t ∧
      t.trace = s.trace ++ calls.flatten ∧ calls.length = ends.length ∧
      Leads (fun date (call : Date × List (EpochTrace Job Task)) last =>
        Advances date call.1 (call.2.map (·.date)) last) s.runtime.date (ends.zip calls) t.runtime.date ∧
      (∀ step ∈ calls.flatten, s.runtime.date ≤ step.date) ∧
      (calls.flatten.map (·.date)).Pairwise (· ≤ ·) ∧
      ∀ end_ ∈ ends, ∀ k : Nat, s.runtime.date + k < end_ →
        s.runtime.date + k ∈ calls.flatten.map (·.date) := by
  induction ends generalizing s with
  | nil => exact ⟨s, [], rfl, (List.append_nil _).symm, rfl, .nil _, by simp, .nil, by simp⟩
  | cons end_ rest ih =>
    let times := dates s.runtime.date end_
    let m := times.foldl (runDate runTask shuffle) s
    obtain ⟨steps, first, at_, _⟩ := foldl_runs runTask shuffle times s
    obtain ⟨count, last, covered⟩ := dates_last s.runtime.date end_
    have stopped : m.runtime.date = times.getLast?.getD s.runtime.date := foldl_date times s
    have ran : runUntil runTask shuffle fuel s end_ = some m :=
      run_eq exact_ (bound end_ List.mem_cons_self)
        ((Nat.ceil_mono tsub_le_self).trans_lt (enough end_ List.mem_cons_self)) s
    have from_ : Exact bits m.runtime.date := by
      rw [stopped, last]
      exact exact_.add count
    obtain ⟨t, calls, rest_, traced, lengths, leads, after, ordered, reached⟩ := ih m from_
      (fun other member => bound other (List.mem_cons_of_mem _ member))
      (fun other member => enough other (List.mem_cons_of_mem _ member))
    have between : ∀ step ∈ steps, s.runtime.date ≤ step.date ∧ step.date ≤ m.runtime.date := by
      intro step member
      rw [stopped]
      have listed : step.date ∈ times := at_ ▸ List.mem_map_of_mem member
      exact dates_between listed
    have later : s.runtime.date ≤ m.runtime.date := by
      rw [stopped, last]
      exact le_self_add
    refine ⟨t, steps :: calls, ?_, ?_, congrArg Nat.succ lengths, ?_, ?_, ?_, ?_⟩
    next =>
      rw [List.foldlM_cons, ran]
      exact rest_
    next =>
      rw [List.flatten_cons, traced, ← List.append_assoc]
      exact congrArg (· ++ calls.flatten) first
    next =>
      refine .cons (m := m.runtime.date) ?_ leads
      rw [at_, stopped]
      exact dates_advances _ _
    next =>
      intro step member
      rcases List.mem_append.mp (List.flatten_cons ▸ member) with here | there
      next => exact (between step here).1
      next => exact later.trans (after step there)
    next =>
      rw [List.flatten_cons, List.map_append, List.pairwise_append]
      refine ⟨at_ ▸ dates_sorted s.runtime.date end_, ordered, ?_⟩
      rintro _ before _ follows
      obtain ⟨step, here, rfl⟩ := List.mem_map.mp before
      obtain ⟨other, there, rfl⟩ := List.mem_map.mp follows
      exact (between step here).2.trans (after other there)
    next =>
      intro other member k before
      rw [List.flatten_cons, List.map_append, List.mem_append, at_]
      rcases List.mem_cons.mp member with rfl | member
      next => exact .inl (mem_dates.mpr ⟨before, k, rfl⟩)
      next =>
        by_cases below : k < count
        next => exact .inl (covered k below)
        next =>
          -- The next calls begin at `count`.
          have place : s.runtime.date + (k : Date) = m.runtime.date + (k - count : ℕ) := by
            rw [stopped, last, add_assoc, ← Nat.cast_add, Nat.add_sub_cancel' (Nat.le_of_not_lt below)]
          rw [place] at before ⊢
          exact .inr (reached other member (k - count) before)

end

theorem runs_advance_growing : ∃ t calls,
    [3, 2, 5].foldlM (runUntil scheduleTask (fun _ => .insertion) 6)
      (growing (1 / 2) (.recurring 0 1 [true]) (.unique 2 [false])) = some t ∧
      t.trace = [] ++ calls.flatten ∧ calls.length = 3 ∧
      Leads (fun date (call : Date × List (EpochTrace Bool (Option (Request Bool)))) last =>
        Advances date call.1 (call.2.map (·.date)) last) (1 / 2) ([3, 2, 5].zip calls) t.runtime.date ∧
      (∀ step ∈ calls.flatten, (1 / 2 : Date) ≤ step.date) ∧
      (calls.flatten.map (·.date)).Pairwise (· ≤ ·) ∧
      ∀ end_ ∈ [3, 2, 5], ∀ k : Nat, (1 / 2 : Date) + k < end_ →
        (1 / 2 : Date) + k ∈ calls.flatten.map (·.date) := by
  have exact_ : Exact 1 (1 / 2) := ⟨by norm_num, 1, by norm_num⟩
  exact runs_advance [3, 2, 5] _ exact_ (by norm_num) (by norm_num)

end Fpmas.Runtime
