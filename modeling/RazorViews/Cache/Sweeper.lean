import RazorViews.Number.Basic

/-!
Regular sweeps of a store: the schedule, and the one job on it that belongs to the store.
-/

namespace RazorViews

structure SweepJob where
  interval : Number
  cancelled : Bool

/-- The jobs scheduled so far, the first one first, and the index of the one in force. -/
structure Sweeper where
  jobs : List SweepJob
  current : Option Nat

namespace Sweeper

def idle : Sweeper := ⟨[], none⟩

/-- Schedules sweeps, unless a job is in force already; tells the index of the job in force. -/
def start (s : Sweeper) (interval : Number) : Sweeper × Nat :=
  match s.current with
  | some job => (s, job)
  | none => (⟨s.jobs ++ [⟨interval, false⟩], some s.jobs.length⟩, s.jobs.length)

def stop (s : Sweeper) : Sweeper :=
  match s.current with
  | some job => ⟨s.jobs.modify job fun j => { j with cancelled := true }, none⟩
  | none => s

/-- The jobs that have not been cancelled. -/
def live (s : Sweeper) : List SweepJob := s.jobs.filter (!·.cancelled)

end Sweeper

end RazorViews
