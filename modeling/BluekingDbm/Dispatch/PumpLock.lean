import BluekingDbm.Library.Run

/-! The per-namespace pump lock: workers take it with SET NX under an owner of their own, a pause
writes its marker over it, and both release and resume delete it only for their own value. -/
namespace Dispatch

open Transition

def pumpPauseOwner : String := "dispatch:paused"

/-- The owner of one attempt of a worker. -/
def pumpOwner (ns uuid : String) : String := "pump:" ++ ns ++ ":" ++ uuid

/-- `RELEASE_LOCK_LUA`: compare and delete. -/
def releaseLockLua (owner : String) (lock : Option String) : ℕ × Option String :=
  if lock = some owner then (1, none) else (0, lock)

/-- SET with NX. -/
def setLockNx (owner : String) (lock : Option String) : Bool × Option String :=
  if lock.isNone then (true, some owner) else (false, lock)

/-- The lock key of one namespace, the owners between acquiring and releasing it, the owners used
so far, and whether a pause was called with no resume since. -/
structure PumpLock where
  lock : Option String
  running : List String
  seen : List String
  paused : Bool

def PumpLock.initial : PumpLock := ⟨none, [], [], false⟩

inductive PumpLockEvent
  | acquire (uuid : String)
  | release (owner : String)
  | pause
  | resume

/-- Each attempt brings a fresh uuid; a worker that did not get the lock skips its tick. -/
def PumpLock.next (ns : String) (s : PumpLock) : PumpLockEvent → Option PumpLock
  | .acquire uuid =>
    let owner := pumpOwner ns uuid
    if owner ∈ s.seen then none
    else
      let (acquired, lock) := setLockNx owner s.lock
      some { s with
        lock
        running := if acquired then owner :: s.running else s.running
        seen := owner :: s.seen }
  | .release owner =>
    if owner ∈ s.running then
      some { s with lock := (releaseLockLua owner s.lock).2, running := s.running.erase owner }
    else none
  | .pause => some { s with lock := some pumpPauseOwner, paused := true }
  | .resume => some { s with lock := (releaseLockLua pumpPauseOwner s.lock).2, paused := false }

/-- A resume that clears the marker finds no worker still pumping. -/
def QuietResume (s : PumpLock) : PumpLockEvent → Prop
  | .resume => s.lock = some pumpPauseOwner → s.running = []
  | _ => True

variable {ns uuid owner : String} {s t : PumpLock} {e : PumpLockEvent} {es : List PumpLockEvent}

theorem pumpOwner_ne_pause : pumpOwner ns uuid ≠ pumpPauseOwner := by
  intro h
  have := congrArg String.toList h
  simp [pumpOwner, pumpPauseOwner] at this

/-- What holds of the lock whatever the workers do: a pause is not undone before its resume, and no
worker owns the marker. -/
structure Marked (s : PumpLock) : Prop where
  pause : s.paused = true → s.lock = some pumpPauseOwner
  owners : ∀ owner ∈ s.running, owner ≠ pumpPauseOwner

theorem release_keeps_marker (h : owner ≠ pumpPauseOwner) (hl : s.lock = some pumpPauseOwner) :
    (releaseLockLua owner s.lock).2 = some pumpPauseOwner := by
  simp [releaseLockLua, hl, h.symm]

theorem marked_step (h : Marked s) (hs : s.next ns e = some t) : Marked t := by
  cases e with
  | acquire uuid =>
    simp only [PumpLock.next] at hs
    split at hs
    · cases hs
    · cases hs
      cases hl : s.lock with
      | none =>
        refine ⟨fun hp => ?_, fun owner ho => ?_⟩
        · have := h.pause hp
          simp [hl] at this
        · simp only [setLockNx, Option.isNone_none, if_true, List.mem_cons] at ho
          rcases ho with rfl | ho
          · exact pumpOwner_ne_pause
          · exact h.owners owner ho
      | some value =>
        refine ⟨fun hp => ?_, fun owner ho => ?_⟩
        · simpa [setLockNx, hl] using h.pause hp
        · exact h.owners owner (by simpa [setLockNx] using ho)
  | release owner =>
    simp only [PumpLock.next] at hs
    split at hs
    · rename_i hin
      cases hs
      refine ⟨fun hp => ?_, fun other ho => h.owners other (List.mem_of_mem_erase ho)⟩
      exact release_keeps_marker (h.owners owner hin) (h.pause hp)
    · cases hs
  | pause =>
    cases hs
    exact ⟨fun _ => rfl, h.owners⟩
  | resume =>
    cases hs
    exact ⟨nofun, h.owners⟩

/-- At most one worker is pumping, and it is the one the lock names unless a pause covers it. -/
structure Exclusive (s : PumpLock) : Prop where
  one : s.running.length ≤ 1
  holder : ∀ owner ∈ s.running, s.lock = some owner ∨ s.lock = some pumpPauseOwner

theorem exclusive_step (h : Exclusive s) (he : QuietResume s e) (hs : s.next ns e = some t) :
    Exclusive t := by
  cases e with
  | acquire uuid =>
    simp only [PumpLock.next] at hs
    split at hs
    · cases hs
    · cases hs
      cases hl : s.lock with
      | none =>
        have hidle : s.running = [] := by
          apply List.eq_nil_iff_forall_not_mem.mpr
          intro owner ho
          rcases h.holder owner ho with hh | hh <;> simp [hl] at hh
        exact ⟨by simp [setLockNx, hidle], by simp [setLockNx, hidle]⟩
      | some value =>
        refine ⟨by simpa [setLockNx] using h.one, fun owner ho => ?_⟩
        have := h.holder owner (by simpa [setLockNx] using ho)
        simpa [setLockNx, hl] using this
  | release owner =>
    simp only [PumpLock.next] at hs
    split at hs
    · rename_i hin
      cases hs
      have hone := h.one
      have hrest : s.running.erase owner = [] := by
        apply List.eq_nil_of_length_eq_zero
        rw [List.length_erase_of_mem hin]
        omega
      exact ⟨by simp [hrest], by simp [hrest]⟩
    · cases hs
  | pause =>
    cases hs
    exact ⟨h.one, fun _ _ => .inr rfl⟩
  | resume =>
    cases hs
    by_cases hl : s.lock = some pumpPauseOwner
    · have hidle : s.running = [] := he hl
      exact ⟨by simp [hidle], by simp [hidle]⟩
    · refine ⟨h.one, fun owner ho => ?_⟩
      simpa [releaseLockLua, hl] using h.holder owner ho

/-- In a run whose resumes clear the marker only while no worker is pumping: at most one worker
holds the lock, no worker starts between a pause and the next resume, and no release clears a
pause. -/
theorem pump_lock_exclusive
    (h : Run (Guarded QuietResume (Steps (PumpLock.next ns))) .initial es s) :
    s.running.length ≤ 1 ∧
      (∀ uuid t, s.paused = true → s.next ns (.acquire uuid) = some t → t.running = s.running) ∧
      ∀ owner t, s.lock = some pumpPauseOwner → s.next ns (.release owner) = some t →
        t.lock = some pumpPauseOwner := by
  have hi : Marked s ∧ Exclusive s := by
    refine h.invariant (fun s => Marked s ∧ Exclusive s) ?_ ?_
    · exact ⟨⟨nofun, nofun⟩, ⟨Nat.zero_le _, nofun⟩⟩
    · intro s e t ⟨hm, hx⟩ ⟨he, hs⟩
      exact ⟨marked_step hm hs, exclusive_step hx he hs⟩
  refine ⟨hi.2.one, fun uuid t hp hs => ?_, fun owner t hl hs => ?_⟩
  · have hlock := hi.1.pause hp
    simp only [PumpLock.next] at hs
    split at hs
    · cases hs
    · cases hs
      simp [setLockNx, hlock]
  · simp only [PumpLock.next] at hs
    split at hs
    · rename_i hin
      cases hs
      exact release_keeps_marker (hi.1.owners owner hin) hl
    · cases hs

theorem pump_lock_exclusive_after_quiet_resume :
    ∃ s, exec (PumpLock.next "ai") .initial
        [.acquire "a", .pause, .release "pump:ai:a", .resume, .acquire "b"] = some s ∧
      s.running = ["pump:ai:b"] ∧ s.running.length ≤ 1 ∧
      (∀ uuid t, s.paused = true → s.next "ai" (.acquire uuid) = some t →
        t.running = s.running) ∧
      ∀ owner t, s.lock = some pumpPauseOwner → s.next "ai" (.release owner) = some t →
        t.lock = some pumpPauseOwner :=
  ⟨_, rfl, by decide, pump_lock_exclusive
    (.snoc (e := PumpLockEvent.acquire "b")
      (.snoc (e := PumpLockEvent.resume)
        (.snoc (e := PumpLockEvent.release "pump:ai:a")
          (.snoc (e := PumpLockEvent.pause)
            (.snoc (e := PumpLockEvent.acquire "a") .refl ⟨trivial, rfl⟩) ⟨trivial, rfl⟩)
          ⟨trivial, rfl⟩)
        ⟨fun _ => rfl, rfl⟩)
      ⟨trivial, rfl⟩)⟩

/-- Paused while a worker pumps, resumed before it is done: the next worker starts beside it. -/
theorem pause_resume_admits_second_worker :
    ∃ s, Run (Steps (PumpLock.next "ai")) .initial [.acquire "a", .pause, .resume, .acquire "b"] s ∧
      s.running = ["pump:ai:b", "pump:ai:a"] :=
  ⟨_, run_of_exec rfl, by decide⟩

end Dispatch
