import BluekingDbm.Failover.LockTenure
import Mathlib.Data.List.Nodup

/-! Every step of a caller moves the tenure of one business on or leaves it, so the tracker holds
the etcd lock exactly as long as one of its callers needs it. -/
namespace Failover

open Transition

variable {Am : Type} {s t : Trackers Am} {b : ℤ} {a : Am} {i σ : ℕ} {c : Call Am} {τ : Tenure Am}
  {e : TrackerEvent Am} {es : List (TrackerEvent Am)}

section Steps

variable [DecidableEq Am]

theorem setHolds_holds (am a : Am) (holds : ℤ → Option HeldLock) (b : ℤ) :
    (s.setHolds am holds).holds a b = if a = am then holds b else s.holds a b := by
  by_cases ha : a = am
  · subst ha
    simp [Trackers.setHolds]
  · simp [Trackers.setHolds, ha]

theorem acquire_refines {am : Am} {k : ℤ} (h : Refines s b τ)
    (hs : s.next (.acquire am k) = some t) : ∃ τ', Refines t b τ' ∧ (τ' = τ ∨ TenureStep τ τ') := by
  cases hhold : s.holds am k with
  | none =>
    simp only [Trackers.next, acquireFast, hhold, Option.map_none, Option.some.injEq] at hs
    subst hs
    exact ⟨τ, h.agree (agree_append rfl (fun _ => .inl rfl) rfl rfl rfl fun _ => rfl), .inl rfl⟩
  | some hold =>
    simp only [Trackers.next, acquireFast, hhold, Option.map_some, Option.some.injEq] at hs
    subst hs
    by_cases hb : b = k
    · subst hb
      obtain ⟨n, rfl, hn⟩ := h.held_of_entry hhold
      obtain ⟨howned, hpos, -, hothers, hcount, hquiet⟩ := h
      refine ⟨.held am hold.unlock (n + 1), ⟨⟨howned.etcd, howned.log, ?_⟩, by omega, ?_, ?_, ?_, ?_⟩,
        .inr (.share am hold.unlock n)⟩
      · obtain ⟨c, hc, hcall⟩ := howned.call
        exact ⟨c, call_append_left hc _, hcall⟩
      · simp [setHolds_holds, hn]
      · intro a' ha
        simpa [setHolds_holds, ha] using hothers a' ha
      · simp [List.countP_append, hcount, Call.runs]
      · intro i c hi hc
        rcases call_append hi with hi | rfl
        · exact hquiet i c hi hc
        · exact .inr ⟨rfl, rfl⟩
    · refine ⟨τ, h.agree (agree_append rfl (fun hk => absurd hk.symm hb) rfl rfl rfl ?_), .inl rfl⟩
      intro a
      show (s.setHolds am _).holds a b = s.holds a b
      rw [setHolds_holds]
      split
      · rename_i ha
        rw [ha, Function.update_of_ne hb]
      · rfl

/-- A business another caller is on. -/
theorem holds_of_ne {am : Am} {holds : ℤ → Option HeldLock} (h : holds b = s.holds am b) (a : Am) :
    (s.setHolds am holds).holds a b = s.holds a b := by
  rw [setHolds_holds]
  split
  · rename_i ha
    rw [ha, h]
  · rfl

theorem lock_refines (h : Refines s b τ) (hs : s.next (.lock i) = some t) :
    ∃ τ', Refines t b τ' ∧ (τ' = τ ∨ TenureStep τ τ') := by
  obtain ⟨c, hi, hs⟩ := Option.bind_eq_some_iff.mp hs
  split at hs
  · cases hs
  · rename_i hstage
    have hstage : c.stage = .trying := not_not.mp hstage
    obtain ⟨etcd, hlock, hs⟩ := Option.bind_eq_some_iff.mp hs
    cases hs
    simp only [tryLock] at hlock
    split at hlock
    · rename_i hfree
      cases hlock
      by_cases hb : c.bizId = b
      · subst hb
        cases τ with
        | free =>
          obtain ⟨-, hlog, hholds, hquiet⟩ := h
          refine ⟨.taking c.am i, ⟨⟨?_, ?_, ?_⟩, hholds, ?_, ?_⟩, .inr (.take c.am i)⟩
          · exact Function.update_self ..
          · show Function.update s.lockedLog c.bizId _ c.bizId = _
            rw [Function.update_self, hlog]
            rfl
          · exact ⟨{ c with stage := .locked }, (calls_set hi _ i).trans (if_pos rfl), rfl, rfl⟩
          · exact (calls_set hi _ i).trans (if_pos rfl)
          · exact hquiet.move hi rfl (fun _ => .inr rfl) nofun
        | taking a σ => cases hfree.symm.trans h.1.etcd
        | held a σ n => cases hfree.symm.trans h.1.etcd
        | freeing a σ j => cases hfree.symm.trans h.1.etcd
      · have hne : b ≠ c.bizId := fun hk => hb hk.symm
        refine ⟨τ, h.agree (agree_move hi rfl (fun hk => absurd hk hb) ?_ ?_ rfl fun _ => rfl),
          .inl rfl⟩
        · exact Function.update_of_ne hne ..
        · exact Function.update_of_ne hne ..
    · cases hlock

theorem fail_refines (h : Refines s b τ) (hs : s.next (.fail i) = some t) :
    ∃ τ', Refines t b τ' ∧ (τ' = τ ∨ TenureStep τ τ') := by
  obtain ⟨c, hi, hs⟩ := Option.bind_eq_some_iff.mp hs
  split at hs
  · rename_i hstage
    cases hs
    refine ⟨τ, h.agree (agree_move hi rfl (fun _ => ?_) rfl rfl rfl fun _ => rfl), .inl rfl⟩
    exact ⟨.inl hstage, .inr rfl⟩
  · cases hs

theorem record_refines (h : Refines s b τ) (hs : s.next (.record i) = some t) :
    ∃ τ', Refines t b τ' ∧ (τ' = τ ∨ TenureStep τ τ') := by
  obtain ⟨c, hi, hs⟩ := Option.bind_eq_some_iff.mp hs
  split at hs
  · rename_i hstage
    cases hs
    by_cases hb : c.bizId = b
    · subst hb
      obtain rfl := h.taking_of_locked hi hstage
      obtain ⟨howned, hnone, -, hquiet⟩ := h
      refine ⟨.held c.am i 1, ⟨⟨howned.etcd, howned.log, howned.call_move hi rfl⟩, by omega,
        ?_, ?_, ?_, ?_⟩, .inr (.record c.am i)⟩
      · show (s.setHolds c.am _).holds c.am c.bizId = _
        simp [setHolds_holds, recordHold]
      · intro a ha
        show (s.setHolds c.am _).holds a c.bizId = none
        simpa [setHolds_holds, ha] using hnone a
      · -- everyone else on this business is idle
        have hnoone : s.calls.countP (Call.runs c.bizId) = 0 := by
          refine List.countP_eq_zero.mpr fun d hd hruns => ?_
          obtain ⟨k, hk⟩ := List.mem_iff_getElem?.mp hd
          simp only [Call.runs, decide_eq_true_eq] at hruns
          rcases hquiet k d hk hruns.1 with hidle | rfl
          · exact not_idle_running (hruns.2 ▸ hidle)
          · obtain rfl := Option.some.inj (hi.symm.trans hk)
            cases hstage.symm.trans hruns.2
        have hcount := countP_move hi { c with stage := .running } (Call.runs c.bizId)
        simp only [hnoone, Call.runs, hstage] at hcount
        simpa [Trackers.move, Trackers.setHolds] using hcount
      · refine hquiet.move hi rfl (fun _ => .inr ⟨rfl, rfl⟩) ?_
        intro k d hk hki
        exact absurd hki hk
    · refine ⟨τ, h.agree (agree_move hi rfl (fun hk => absurd hk hb) rfl rfl rfl ?_), .inl rfl⟩
      exact holds_of_ne (Function.update_of_ne (fun hk => hb hk.symm) ..)
  · cases hs

theorem release_shared {holds : ℤ → Option HeldLock} {n : ℤ} (h : holds b = some ⟨σ, n⟩)
    (hn : 0 < n - 1) :
    release holds b = (Function.update holds b (some ⟨σ, n - 1⟩), none) := by
  simp only [release, h, if_pos hn]

theorem release_last {holds : ℤ → Option HeldLock} {n : ℤ} (h : holds b = some ⟨σ, n⟩)
    (hn : ¬ 0 < n - 1) : release holds b = (Function.update holds b none, some σ) := by
  simp only [release, h, if_neg hn]

theorem release_of_ne {k : ℤ} {holds : ℤ → Option HeldLock} (hb : b ≠ k) :
    (release holds k).1 b = holds b := by
  unfold release
  split
  · rfl
  · split
    · exact Function.update_of_ne hb ..
    · exact Function.update_of_ne hb ..

theorem release_refines (h : Refines s b τ) (hs : s.next (.release i) = some t) :
    ∃ τ', Refines t b τ' ∧ (τ' = τ ∨ TenureStep τ τ') := by
  obtain ⟨c, hi, hs⟩ := Option.bind_eq_some_iff.mp hs
  split at hs
  · rename_i hstage
    by_cases hb : c.bizId = b
    · subst hb
      obtain ⟨σ, n, rfl⟩ := h.held_of_running hi hstage
      obtain ⟨howned, hpos, hhold, hothers, hcount, hquiet⟩ := h
      have hmove := fun stage => countP_move hi { c with stage } (Call.runs c.bizId)
      have hruns : Call.runs c.bizId c = true := by simp [Call.runs, hstage]
      have hnone : ∀ a ≠ c.am, ∀ holds, (s.setHolds c.am holds).holds a c.bizId = none := by
        intro a ha holds
        simpa [setHolds_holds, ha] using hothers a ha
      by_cases hmore : 0 < (n : ℤ) - 1
      · -- others still share the hold
        rw [release_shared hhold hmore] at hs
        obtain rfl := Option.some.inj hs
        obtain ⟨m, rfl⟩ : ∃ m, n = m + 1 := ⟨n - 1, by omega⟩
        refine ⟨.held c.am σ m, ⟨⟨howned.etcd, howned.log, howned.call_move hi rfl⟩, by omega,
          ?_, fun a ha => hnone a ha _, ?_, ?_⟩, .inr (.leave c.am σ m (by omega))⟩
        · show (s.setHolds c.am _).holds c.am c.bizId = _
          simp [setHolds_holds]
        · have hended := hmove .ended
          simp only [hruns, hcount, if_true] at hended
          simpa [Trackers.move, Trackers.setHolds, Call.runs] using hended
        · exact hquiet.move hi rfl (fun _ => .inl (.inr rfl)) fun k d _ hd => hd
      · -- the last reference: the entry is gone and the session has to be unlocked
        rw [release_last hhold hmore] at hs
        obtain rfl := Option.some.inj hs
        obtain rfl : n = 1 := by omega
        refine ⟨.freeing c.am σ i, ⟨⟨howned.etcd, howned.log, howned.call_move hi rfl⟩, ?_, ?_, ?_⟩,
          .inr (.last c.am σ i)⟩
        · intro a
          by_cases ha : a = c.am
          · show (s.setHolds c.am _).holds a c.bizId = none
            simp [setHolds_holds, ha]
          · exact hnone a ha _
        · exact (calls_set hi _ i).trans (if_pos rfl)
        · exact (alone_of_count hquiet hi hruns hcount).move hi rfl (fun _ => .inr rfl)
            fun k d _ hki => hki
    · have hne : b ≠ c.bizId := fun hk => hb hk.symm
      have hagree : ∀ holds : ℤ → Option HeldLock, ∀ stage, holds b = s.holds c.am b →
          Agree s ((s.setHolds c.am holds).move i c stage) b := by
        intro holds stage hkeep
        exact agree_move hi rfl (fun hk => absurd hk hb) rfl rfl rfl (holds_of_ne hkeep)
      have hkeep : (release (s.holds c.am) c.bizId).1 b = s.holds c.am b := release_of_ne hne
      generalize release (s.holds c.am) c.bizId = r at hs hkeep
      obtain ⟨holds, last⟩ := r
      cases last with
      | none =>
        cases hs
        exact ⟨τ, h.agree (hagree holds .ended hkeep), .inl rfl⟩
      | some session =>
        cases hs
        exact ⟨τ, h.agree (hagree holds (.unlocking session) hkeep), .inl rfl⟩
  · cases hs

theorem unlock_refines (h : Refines s b τ) (hs : s.next (.unlock i) = some t) :
    ∃ τ', Refines t b τ' ∧ (τ' = τ ∨ TenureStep τ τ') := by
  obtain ⟨c, hi, hs⟩ := Option.bind_eq_some_iff.mp hs
  split at hs
  · rename_i session hstage
    cases hs
    by_cases hb : c.bizId = b
    · subst hb
      obtain rfl := h.freeing_of_unlocking hi hstage
      obtain ⟨howned, hnone, -, hquiet⟩ := h
      refine ⟨.free, ⟨?_, ?_, hnone, ?_⟩, .inr (.unlock c.am session i)⟩
      · show unlock s.etcd c.bizId session c.bizId = none
        simp [unlock, howned.etcd]
      · show s.lockedLog c.bizId = Function.update s.unlockedLog c.bizId _ c.bizId
        rw [Function.update_self, howned.log]
      · exact hquiet.move hi rfl (fun _ => .inl (.inr rfl)) fun k d hk hki => hk hki
    · have hne : b ≠ c.bizId := fun hk => hb hk.symm
      refine ⟨τ, h.agree (agree_move hi rfl (fun hk => absurd hk hb) ?_ rfl ?_ fun _ => rfl),
        .inl rfl⟩
      · show unlock s.etcd c.bizId session b = s.etcd b
        unfold unlock
        split
        · exact Function.update_of_ne hne ..
        · rfl
      · exact Function.update_of_ne hne ..
  · cases hs

/-- Every step either leaves the tenure of a business or moves it on. -/
theorem refines_step (h : Refines s b τ) (hs : s.next e = some t) :
    ∃ τ', Refines t b τ' ∧ (τ' = τ ∨ TenureStep τ τ') := by
  cases e with
  | acquire am k => exact acquire_refines h hs
  | lock i => exact lock_refines h hs
  | fail i => exact fail_refines h hs
  | record i => exact record_refines h hs
  | release i => exact release_refines h hs
  | unlock i => exact unlock_refines h hs

theorem logged_step (h : Logged s b) (hs : s.next e = some t) : Logged t b := by
  cases e with
  | acquire am k =>
    have hcalls : ∃ c, t.calls = s.calls ++ [c] ∧ t.lockedLog = s.lockedLog := by
      simp only [Trackers.next] at hs
      split at hs <;> cases hs <;> exact ⟨_, rfl, rfl⟩
    obtain ⟨c, hcalls, hlog⟩ := hcalls
    refine ⟨hlog ▸ h.nodup, fun σ hσ => ?_⟩
    obtain ⟨d, hd, hstage⟩ := h.started σ (hlog ▸ hσ)
    exact ⟨d, hcalls ▸ call_append_left hd c, hstage⟩
  | lock i =>
    obtain ⟨c, hi, hs⟩ := Option.bind_eq_some_iff.mp hs
    split at hs
    · cases hs
    · rename_i hstage
      obtain ⟨etcd, -, hs⟩ := Option.bind_eq_some_iff.mp hs
      cases hs
      by_cases hb : b = c.bizId
      · subst hb
        have hnew : i ∉ s.lockedLog c.bizId := by
          intro hin
          obtain ⟨d, hd, hdstage⟩ := h.started i hin
          obtain rfl := Option.some.inj (hi.symm.trans hd)
          exact hdstage (not_not.mp hstage)
        have hmoved : Logged (s.move i c .locked) c.bizId := h.move hi rfl nofun rfl
        refine ⟨?_, ?_⟩
        · show (Function.update s.lockedLog c.bizId _ c.bizId).Nodup
          rw [Function.update_self]
          exact h.nodup.append (List.nodup_singleton i) (by simpa using hnew)
        · intro σ hσ
          replace hσ : σ ∈ s.lockedLog c.bizId ∨ σ = i := by
            simpa [Function.update_self] using hσ
          rcases hσ with hσ | rfl
          · exact hmoved.started σ hσ
          · exact ⟨_, (calls_set hi _ σ).trans (if_pos rfl), nofun⟩
      · exact h.move hi rfl nofun (Function.update_of_ne hb ..)
  | fail i =>
    obtain ⟨c, hi, hs⟩ := Option.bind_eq_some_iff.mp hs
    split at hs
    · cases hs
      exact h.move hi rfl nofun rfl
    · cases hs
  | record i =>
    obtain ⟨c, hi, hs⟩ := Option.bind_eq_some_iff.mp hs
    split at hs
    · cases hs
      exact h.move hi rfl nofun rfl
    · cases hs
  | release i =>
    obtain ⟨c, hi, hs⟩ := Option.bind_eq_some_iff.mp hs
    split at hs
    · split at hs <;> cases hs <;> exact h.move hi rfl nofun rfl
    · cases hs
  | unlock i =>
    obtain ⟨c, hi, hs⟩ := Option.bind_eq_some_iff.mp hs
    split at hs
    · cases hs
      exact h.move hi rfl nofun rfl
    · cases hs

theorem refines_reachable (h : Run (Steps Trackers.next) .initial es s) (b : ℤ) :
    (∃ τ, Refines s b τ) ∧ Logged s b := by
  refine h.invariant (fun s : Trackers Am => (∃ τ, Refines s b τ) ∧ Logged s b) ?_ ?_
  · refine ⟨⟨.free, rfl, rfl, fun _ => rfl, ?_⟩, List.nodup_nil, nofun⟩
    intro i c hi
    cases hi
  · rintro s e t ⟨⟨τ, hτ⟩, hlog⟩ hs
    obtain ⟨τ', hτ', -⟩ := refines_step hτ hs
    exact ⟨⟨τ', hτ'⟩, logged_step hlog hs⟩

end Steps

/-- Etcd's lock of the business belongs to a session of this AM. -/
def HeldBy (s : Trackers Am) (b : ℤ) (a : Am) : Prop :=
  ∃ σ c, s.etcd b = some σ ∧ s.calls[σ]? = some c ∧ c.am = a

/-- What the tracker owes to its callers. The lock is held by an AM exactly while one of its callers
has locked it and not recorded it yet, or is in its critical section, or is about to unlock it.
The sessions locked so far are those unlocked, once each, and the one in etcd. An entry of the map
counts its running callers; it is written over nothing and goes with the last of them. -/
structure LockSound (s : Trackers Am) (b : ℤ) : Prop where
  tenure : ∀ a, HeldBy s b a ↔ ∃ c ∈ s.calls, c.am = a ∧ c.bizId = b ∧ ¬ c.stage.Idle
  once : (s.lockedLog b).Nodup ∧ s.lockedLog b = s.unlockedLog b ++ (s.etcd b).toList
  entry : ∀ a h, s.holds a b = some h → s.etcd b = some h.unlock ∧ 0 < h.refCnt ∧
    h.refCnt = s.calls.countP (Call.runs b)
  running : ∀ c ∈ s.calls, c.bizId = b → c.stage = .running → (s.holds c.am b).isSome
  vacant : ∀ c ∈ s.calls, c.bizId = b → c.stage = .locked → ∀ a, s.holds a b = none
  exclusive : ∀ a a', HeldBy s b a → HeldBy s b a' → a = a'
  critical : ∀ c ∈ s.calls, ∀ c' ∈ s.calls, c.bizId = b → c'.bizId = b →
    ¬ c.stage.Idle → ¬ c'.stage.Idle → c.am = c'.am

/-- The AM that has the lock. -/
def Tenure.owner : Tenure Am → Option Am
  | .free => none
  | .taking a _ | .held a _ _ | .freeing a _ _ => some a

theorem Owned.heldBy_iff {a' : Am} (h : Owned s b a' σ) : HeldBy s b a ↔ some a' = some a := by
  obtain ⟨d, hd, rfl, -⟩ := h.call
  constructor
  · rintro ⟨σ', c, hσ', hc, rfl⟩
    cases h.etcd.symm.trans hσ'
    cases hd.symm.trans hc
    rfl
  · rintro ⟨⟩
    exact ⟨σ, d, h.etcd, hd, rfl⟩

theorem Refines.heldBy_iff (h : Refines s b τ) : HeldBy s b a ↔ τ.owner = some a := by
  cases τ with
  | free =>
    refine ⟨?_, nofun⟩
    rintro ⟨σ, c, hσ, -⟩
    cases h.1.symm.trans hσ
  | taking a' σ => exact h.1.heldBy_iff
  | held a' σ n => exact h.1.heldBy_iff
  | freeing a' σ j => exact h.1.heldBy_iff

theorem Refines.owner_of_busy (h : Refines s c.bizId τ) (hc : c ∈ s.calls) (hstage : ¬ c.stage.Idle) :
    τ.owner = some c.am := by
  obtain ⟨i, hi⟩ := List.mem_iff_getElem?.mp hc
  rcases h.of_busy hi hstage with ⟨-, rfl⟩ | ⟨-, σ, n, rfl⟩ | ⟨σ, -, rfl⟩
  · rfl
  · rfl
  · rfl

theorem Refines.busy_of_owner (h : Refines s b τ) (ha : τ.owner = some a) :
    ∃ c ∈ s.calls, c.am = a ∧ c.bizId = b ∧ ¬ c.stage.Idle := by
  cases τ with
  | free => cases ha
  | taking a' σ =>
    cases ha
    obtain ⟨-, -, hcall, -⟩ := h
    exact ⟨_, List.mem_of_getElem? hcall, rfl, rfl, not_idle_locked⟩
  | held a' σ n =>
    cases ha
    obtain ⟨-, hpos, -, -, hcount, hquiet⟩ := h
    obtain ⟨c, hc, hrun⟩ := List.countP_pos_iff.mp (hcount ▸ hpos)
    simp only [Call.runs, decide_eq_true_eq] at hrun
    have hbusy := hrun.2 ▸ not_idle_running
    obtain ⟨i, hi⟩ := List.mem_iff_getElem?.mp hc
    exact ⟨c, hc, ((hquiet i c hi hrun.1).resolve_left hbusy).2, hrun.1, hbusy⟩
  | freeing a' σ j =>
    cases ha
    obtain ⟨-, -, hcall, -⟩ := h
    exact ⟨_, List.mem_of_getElem? hcall, rfl, rfl, not_idle_unlocking⟩

theorem Refines.log (h : Refines s b τ) : s.lockedLog b = s.unlockedLog b ++ (s.etcd b).toList := by
  cases τ with
  | free => simp [h.1, h.2.1]
  | taking a σ => simp [h.1.log, h.1.etcd]
  | held a σ n => simp [h.1.log, h.1.etcd]
  | freeing a σ j => simp [h.1.log, h.1.etcd]

theorem Refines.isSome_of_running (h : Refines s c.bizId τ) (hc : c ∈ s.calls)
    (hstage : c.stage = .running) : (s.holds c.am c.bizId).isSome := by
  obtain ⟨i, hi⟩ := List.mem_iff_getElem?.mp hc
  obtain ⟨σ, n, rfl⟩ := h.held_of_running hi hstage
  obtain ⟨-, -, hhold, -⟩ := h
  rw [hhold]
  rfl

theorem Refines.vacant_of_locked (h : Refines s c.bizId τ) (hc : c ∈ s.calls)
    (hstage : c.stage = .locked) (a : Am) : s.holds a c.bizId = none := by
  obtain ⟨i, hi⟩ := List.mem_iff_getElem?.mp hc
  obtain rfl := h.taking_of_locked hi hstage
  exact h.2.1 a

theorem LockSound.of_refines (h : Refines s b τ) (hlog : Logged s b) : LockSound s b where
  tenure a := by
    rw [h.heldBy_iff]
    refine ⟨h.busy_of_owner, ?_⟩
    rintro ⟨c, hc, rfl, rfl, hstage⟩
    exact h.owner_of_busy hc hstage
  once := ⟨hlog.nodup, h.log⟩
  entry a hold ha := by
    obtain ⟨n, rfl, hn⟩ := h.held_of_entry ha
    obtain ⟨ho, hpos, -, -, hcount, -⟩ := h
    exact ⟨ho.etcd, hn ▸ Int.natCast_pos.mpr hpos, hcount ▸ hn⟩
  running c hc hb hstage := by
    subst hb
    exact h.isSome_of_running hc hstage
  vacant c hc hb hstage := by
    subst hb
    exact h.vacant_of_locked hc hstage
  exclusive a a' ha ha' := by
    rw [h.heldBy_iff] at ha ha'
    exact Option.some.inj (ha.symm.trans ha')
  critical c hc c' hc' hb hb' hstage hstage' := by
    subst hb
    have howner := h.owner_of_busy hc hstage
    rw [← hb'] at h
    exact Option.some.inj (howner.symm.trans (h.owner_of_busy hc' hstage'))

/-- Whatever the callers of all AMs do, the tracker is sound for every business, and each step
either leaves the tenure of the business or moves it one stage on: free, taken in etcd, recorded,
shared, left by the last caller, unlocked. -/
theorem tracker_refines_lock [DecidableEq Am]
    (h : Run (Steps Trackers.next) .initial es s) (b : ℤ) :
    LockSound s b ∧ ∃ τ, Refines s b τ ∧ ∀ e t, s.next e = some t →
      ∃ τ', Refines t b τ' ∧ (τ' = τ ∨ TenureStep τ τ') := by
  obtain ⟨⟨τ, hτ⟩, hlog⟩ := refines_reachable h b
  exact ⟨.of_refines hτ hlog, τ, hτ, fun e t hs => refines_step hτ hs⟩

/-- Two AMs race for business 7; the winner's second caller shares the lock and leaves last. -/
def lockRace : List (TrackerEvent ℕ) :=
  [.acquire 0 7, .acquire 1 7, .lock 0, .fail 1, .record 0, .acquire 0 7, .release 0, .release 2]

theorem tracker_refines_lock_race :
    ∃ s, Run (Steps Trackers.next) .initial lockRace s ∧
      (s.etcd 7 = some 0 ∧ s.holds 0 7 = none) ∧ LockSound s 7 := by
  obtain ⟨s, hs, hlast⟩ := exists_run_of_exec Trackers.next Trackers.initial lockRace
    (fun s => s.etcd 7 = some 0 ∧ s.holds 0 7 = none) (by decide)
  exact ⟨s, hs, of_decide_eq_true hlast, (tracker_refines_lock hs 7).1⟩

end Failover
