import BluekingDbm.Library.Run
import Mathlib.Data.Int.Basic

/-! The switch lock of a business. Inside one AM it is reentrant: the first caller takes it in etcd,
later ones share it by a reference count, and the last release unlocks it. Both the etcd call and
the final unlock run outside the mutex of the map. -/
namespace Failover

open Transition

/-- An etcd lock this AM owns, shared by `refCnt` callers. `unlock` is the session it was locked
with. -/
structure HeldLock where
  unlock : ℕ
  refCnt : ℤ
deriving DecidableEq

/-- The part of `acquireWith` before the etcd call: reuse the hold when there is one. -/
def acquireFast (holds : ℤ → Option HeldLock) (bizId : ℤ) : Option (ℤ → Option HeldLock) :=
  (holds bizId).map fun h => Function.update holds bizId (some { h with refCnt := h.refCnt + 1 })

/-- The part of `acquireWith` after the etcd call. -/
def recordHold (holds : ℤ → Option HeldLock) (bizId : ℤ) (unlock : ℕ) : ℤ → Option HeldLock :=
  Function.update holds bizId (some { unlock, refCnt := 1 })

/-- `release` under the mutex: the map it leaves and the unlock function it still has to call. -/
def release (holds : ℤ → Option HeldLock) (bizId : ℤ) : (ℤ → Option HeldLock) × Option ℕ :=
  match holds bizId with
  | none => (holds, none)
  | some h =>
    if 0 < h.refCnt - 1 then
      (Function.update holds bizId (some { h with refCnt := h.refCnt - 1 }), none)
    else
      (Function.update holds bizId none, some h.unlock)

/-- Etcd's `TryLock`: it succeeds only on a free lock and never waits. -/
def tryLock (etcd : ℤ → Option ℕ) (bizId : ℤ) (session : ℕ) : Option (ℤ → Option ℕ) :=
  if etcd bizId = none then some (Function.update etcd bizId (some session)) else none

/-- `Unlock` and `Close` of a session. -/
def unlock (etcd : ℤ → Option ℕ) (bizId : ℤ) (session : ℕ) : ℤ → Option ℕ :=
  if etcd bizId = some session then Function.update etcd bizId none else etcd

/-- Where a caller is: before the etcd call, before the map update that follows it, in its critical
section, before the unlock of a session, or through. -/
inductive Stage
  | trying
  | locked
  | running
  | unlocking (session : ℕ)
  | ended
deriving DecidableEq

/-- A caller that neither has the lock nor is about to give it back. -/
def Stage.Idle (st : Stage) : Prop := st = .trying ∨ st = .ended

structure Call (Am : Type) where
  am : Am
  bizId : ℤ
  stage : Stage
deriving DecidableEq

variable {Am : Type}

def Call.runs (b : ℤ) (c : Call Am) : Bool := c.bizId = b ∧ c.stage = .running

/-- The maps of all AMs, the locks in etcd, the calls made so far (the session of a call is its
number), and for each business the sessions that were locked and those that were unlocked. -/
structure Trackers (Am : Type) where
  holds : Am → ℤ → Option HeldLock
  etcd : ℤ → Option ℕ
  calls : List (Call Am)
  lockedLog : ℤ → List ℕ
  unlockedLog : ℤ → List ℕ

def Trackers.initial : Trackers Am := ⟨fun _ _ => none, fun _ => none, [], fun _ => [], fun _ => []⟩

inductive TrackerEvent (Am : Type)
  | acquire (am : Am) (bizId : ℤ)
  | lock (i : ℕ)
  | fail (i : ℕ)
  | record (i : ℕ)
  | release (i : ℕ)
  | unlock (i : ℕ)

def Trackers.move (s : Trackers Am) (i : ℕ) (c : Call Am) (stage : Stage) : Trackers Am :=
  { s with calls := s.calls.set i { c with stage } }

def Trackers.setHolds [DecidableEq Am] (s : Trackers Am) (am : Am) (holds : ℤ → Option HeldLock) : Trackers Am :=
  { s with holds := Function.update s.holds am holds }

/-- One atomic step of one caller. -/
def Trackers.next [DecidableEq Am] (s : Trackers Am) : TrackerEvent Am → Option (Trackers Am)
  | .acquire am bizId =>
    match acquireFast (s.holds am) bizId with
    | some holds =>
      some { s.setHolds am holds with calls := s.calls ++ [⟨am, bizId, .running⟩] }
    | none => some { s with calls := s.calls ++ [⟨am, bizId, .trying⟩] }
  | .lock i => do
    let c ← s.calls[i]?
    if c.stage ≠ .trying then none
    else
      let etcd ← tryLock s.etcd c.bizId i
      some { s.move i c .locked with
        etcd
        lockedLog := Function.update s.lockedLog c.bizId (s.lockedLog c.bizId ++ [i]) }
  | .fail i => do
    let c ← s.calls[i]?
    -- the mutex could not be created, or TryLock failed for whatever reason
    if c.stage = .trying then some (s.move i c .ended) else none
  | .record i => do
    let c ← s.calls[i]?
    if c.stage = .locked then
      some ((s.setHolds c.am (recordHold (s.holds c.am) c.bizId i)).move i c .running)
    else none
  | .release i => do
    let c ← s.calls[i]?
    if c.stage = .running then
      match release (s.holds c.am) c.bizId with
      | (holds, none) => some ((s.setHolds c.am holds).move i c .ended)
      | (holds, some session) => some ((s.setHolds c.am holds).move i c (.unlocking session))
    else none
  | .unlock i => do
    let c ← s.calls[i]?
    match c.stage with
    | .unlocking session =>
      some { s.move i c .ended with
        etcd := unlock s.etcd c.bizId session
        unlockedLog := Function.update s.unlockedLog c.bizId (s.unlockedLog c.bizId ++ [session]) }
    | _ => none

end Failover
