import Mathlib.Algebra.Order.Floor.Semiring
import Mathlib.Data.NNRat.Floor
import Mathlib.Data.PNat.Basic
import Fpmas.Library.OrderedMap
import Fpmas.Library.UnorderedMap

set_option autoImplicit false
set_option linter.dupNamespace false

namespace Fpmas.Scheduler

-- The dates of the code are floats.
abbrev Date := ℚ≥0
abbrev SubTimeStep := ℚ≥0
abbrev TimeStep := Nat
abbrev Period := ℕ+

variable {Job : Type}

-- `std::modf`
def timeStep (date : Date) : TimeStep := ⌊date⌋₊
def subTimeStep (date : Date) : SubTimeStep := date - ⌊date⌋₊

structure Epoch (Job : Type) where
  jobOrdering : List SubTimeStep
  jobs : List Job

namespace Epoch

def clear (_ : Epoch Job) : Epoch Job where
  jobOrdering := []
  jobs := []

def submit (epoch : Epoch Job) (jobList : List Job) (subStep : SubTimeStep) : Epoch Job :=
  -- Both iterators advance together.
  let position := (epoch.jobOrdering.takeWhile fun other => subStep ≥ other).length
  { jobOrdering := epoch.jobOrdering.take position ++ jobList.map (fun _ => subStep) ++
      epoch.jobOrdering.drop position
    jobs := epoch.jobs.take position ++ jobList ++ epoch.jobs.drop position }

end Epoch

structure SchedulerItem (Job : Type) where
  subStep : SubTimeStep
  jobList : List Job

structure Scheduler (Job : Type) where
  uniqueJobs : UnorderedMap TimeStep (List (SchedulerItem Job))
  recurringJobs : OrderedMap TimeStep (Period × SchedulerItem Job)
  limitedRecurringJobs : OrderedMap TimeStep (Date × Period × SchedulerItem Job)

-- A call of `schedule`; the overloads that take a single job pass a list of one job.
inductive Request (Job : Type) where
  | unique (date : Date) (jobList : List Job)
  | recurring (start : Date) (period : Period) (jobList : List Job)
  | limited (start : Date) (end_ : Date) (period : Period) (jobList : List Job)

namespace Scheduler

def empty : Scheduler Job where
  uniqueJobs := ∅
  recurringJobs := .empty
  limitedRecurringJobs := .empty

def schedule (s : Scheduler Job) : Request Job → Scheduler Job
  | .unique date jobList =>
    { s with
      uniqueJobs := s.uniqueJobs.push (timeStep date) { subStep := subTimeStep date, jobList } }
  | .recurring start period jobList =>
    { s with
      recurringJobs := s.recurringJobs.push (timeStep start)
        (period, { subStep := subTimeStep start, jobList }) }
  | .limited start end_ period jobList =>
    { s with
      limitedRecurringJobs := s.limitedRecurringJobs.push (timeStep start)
        (end_, period, { subStep := subTimeStep start, jobList }) }

def submitUnique (s : Scheduler Job) (step : TimeStep) (epoch : Epoch Job) : Epoch Job :=
  match s.uniqueJobs.lookup step with
  | none => epoch
  | some items => items.foldl (fun epoch item => epoch.submit item.jobList item.subStep) epoch

def submitRecurring (s : Scheduler Job) (step : TimeStep) (epoch : Epoch Job) : Epoch Job :=
  (s.recurringJobs.upTo step).foldl
    (fun epoch recurring => recurring.2.foldl
      (fun epoch item =>
        if (step - recurring.1) % item.1 = 0 then epoch.submit item.2.jobList item.2.subStep
        else epoch)
      epoch)
    epoch

def submitLimited (s : Scheduler Job) (step : TimeStep) (epoch : Epoch Job) : Epoch Job :=
  (s.limitedRecurringJobs.upTo step).foldl
    (fun epoch recurring => recurring.2.foldl
      (fun epoch (end_, period, item) =>
        if step + item.subStep < end_ then
          if (step - recurring.1) % period = 0 then epoch.submit item.jobList item.subStep else epoch
        else epoch)
      epoch)
    epoch

def build (s : Scheduler Job) (step : TimeStep) (epoch : Epoch Job) : Epoch Job :=
  s.submitLimited step (s.submitRecurring step (s.submitUnique step epoch.clear))

end Scheduler

end Fpmas.Scheduler
