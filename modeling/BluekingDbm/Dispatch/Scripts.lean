import BluekingDbm.Library.Run
import BluekingDbm.Dispatch.Admission
import BluekingDbm.Dispatch.Reservation
import BluekingDbm.Dispatch.Lifecycle

/-! One namespace under its atomic scripts, taken in any order, while time passes. -/
namespace Dispatch

open Redis

structure QueueState where
  now : ℚ
  ns : Namespace

def QueueState.initial (now : ℚ) : QueueState := ⟨now, .empty⟩

/-- One atomic step on the keys of the namespace: a script with its arguments, the trailing DELs of
a discard, a change of the producer gate, or the passing of time. -/
inductive ScriptEvent
  | enqueue (maxAdmitted : ℕ) (checkDedupe : Bool) (taskKey : String) (entries : List EnqueueEntry)
  | reserve (maxReserved tickBudget : ℕ) (tickId : ℤ) (entries : List ReserveEntry)
  | finalize (jobId : String) (key : Option String) (taskKey : String)
  | requeue (jobId : String) (jobSnapshot : DispatchJob) (queueWaitTtl : ℕ) (score : ℚ)
      (taskKey : String)
  | purge (jobId taskKey : String)
  | cleanup (jobId : String) (key : Option String)
  | gate (closed : Bool)
  | elapse (seconds : ℚ)

/-- Time only moves forward; every script is always enabled. -/
def QueueState.next (s : QueueState) : ScriptEvent → Option QueueState
  | .enqueue maxAdmitted checkDedupe taskKey entries =>
    some { s with ns := (enqueueJobsLua s.now maxAdmitted checkDedupe taskKey entries s.ns).2 }
  | .reserve maxReserved tickBudget tickId entries =>
    some { s with ns := (reserveJobLua s.now maxReserved tickBudget tickId entries s.ns).2 }
  | .finalize jobId key taskKey => some { s with ns := (finalizeJobLua jobId key taskKey s.ns).2 }
  | .requeue jobId jobSnapshot queueWaitTtl score taskKey =>
    some { s with
      ns := (requeueJobLua s.now jobId jobSnapshot queueWaitTtl score taskKey s.ns).2 }
  | .purge jobId taskKey => some { s with ns := (purgeJobLua jobId taskKey s.ns).2 }
  | .cleanup jobId key => some { s with ns := s.ns.cleanup jobId key }
  | .gate closed => some { s with ns := { s.ns with producerGate := closed } }
  | .elapse seconds => if 0 ≤ seconds then some { s with now := s.now + seconds } else none

/-- The job used by the runs on fixed inputs. -/
def portraitJob : DispatchJob where
  jobId := buildJobId "portrait" "7"
  taskKey := "portrait"
  workItemId := "7"

/-- The job as an admission at time 0 passes it, with 5 seconds to wait. -/
def portraitEntry : EnqueueEntry := enqueueEntry true ({ portraitJob with waitDeadlineAt := 5 }, 5)

/-- The job as a reservation passes it. -/
def portraitSlot : ReserveEntry := reserveEntry portraitJob 60

section Disjoint

variable {now score : ℚ} {ns claimed : Namespace} {id taskKey : String} {key : Option String}
  {entry : EnqueueEntry} {slot : ReserveEntry} {jobSnapshot : DispatchJob} {ttl : ℕ}

theorem disjoint_empty : Namespace.empty.Disjoint := fun _ h => absurd h not_mem_empty

theorem disjoint_enter (h : ns.Disjoint) (hr : entry.jobId ∉ ns.reserved) :
    (ns.enter now entry).Disjoint := by
  intro id hid
  rcases mem_zadd.mp hid with rfl | hid
  · exact hr
  · exact h id hid

theorem disjoint_promote (h : ns.Disjoint) : (ns.promote now slot).Disjoint := by
  intro id hid
  rw [promote_pending] at hid
  rw [promote_reserved, mem_zadd]
  obtain ⟨hne, hp⟩ := mem_zrem.mp hid
  simp [hne, h id hp]

theorem disjoint_finalize (h : ns.Disjoint) : (finalizeJobLua id key taskKey ns).2.Disjoint := by
  intro x hx
  rw [finalizeJobLua_reserved, mem_zrem]
  rw [finalizeJobLua_pending] at hx
  simp [h x hx]

theorem disjoint_purge (h : ns.Disjoint) : (purgeJobLua id taskKey ns).2.Disjoint := by
  intro x hx
  rw [purgeJobLua_pending, mem_zrem] at hx
  rw [purgeJobLua_reserved, mem_zrem]
  simp [h x hx.2]

theorem disjoint_requeue (h : ns.Disjoint) :
    (requeueJobLua now id jobSnapshot ttl score taskKey ns).2.Disjoint := by
  by_cases hid : id ∈ ns.reserved
  · rw [requeueJobLua_of_mem hid]
    intro x hx
    rcases mem_zadd.mp hx with rfl | hx
    · simp
    · have := h x hx
      simp [this]
  · rw [requeueJobLua_of_not_mem hid]
    exact h

theorem disjoint_reserve {maxReserved tickBudget : ℕ} {tickId : ℤ} {entries : List ReserveEntry}
    (h : ns.Disjoint) : (reserveJobLua now maxReserved tickBudget tickId entries ns).2.Disjoint := by
  have hloop : (reserveLoop now maxReserved tickBudget tickId entries ns).ns.Disjoint :=
    reserveLoop_induction h (fun _ _ _ h => h) fun _ _ _ _ _ _ h => disjoint_promote h
  simpa only [Namespace.Disjoint, reserveJobLua_pending, reserveJobLua_reserved] using hloop

end Disjoint

end Dispatch
