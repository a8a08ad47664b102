import BluekingDbm.Failover.LockTracker

/-! What the lock of one business goes through, and how the maps, etcd and the callers show it. -/
namespace Failover

variable {Am : Type}

/-- The lock of one business as its callers see it: free, taken in etcd by a call of `am`, shared by
`n` callers of `am`, or about to be unlocked by call `last`. -/
inductive Tenure (Am : Type)
  | free
  | taking (am : Am) (session : ℕ)
  | held (am : Am) (session n : ℕ)
  | freeing (am : Am) (session last : ℕ)

inductive TenureStep : Tenure Am → Tenure Am → Prop
  | take (am : Am) (session : ℕ) : TenureStep .free (.taking am session)
  | record (am : Am) (session : ℕ) : TenureStep (.taking am session) (.held am session 1)
  | share (am : Am) (session n : ℕ) : TenureStep (.held am session n) (.held am session (n + 1))
  | leave (am : Am) (session n : ℕ) :
      0 < n → TenureStep (.held am session (n + 1)) (.held am session n)
  | last (am : Am) (session i : ℕ) : TenureStep (.held am session 1) (.freeing am session i)
  | unlock (am : Am) (session i : ℕ) : TenureStep (.freeing am session i) .free

variable {s t : Trackers Am} {b : ℤ} {a : Am} {i σ : ℕ} {c : Call Am} {τ : Tenure Am}
  {e : TrackerEvent Am} {es : List (TrackerEvent Am)}

/-- Etcd's lock of `b` belongs to session `σ` of `a`, the one session not unlocked so far. -/
structure Owned (s : Trackers Am) (b : ℤ) (a : Am) (σ : ℕ) : Prop where
  etcd : s.etcd b = some σ
  log : s.lockedLog b = s.unlockedLog b ++ [σ]
  call : ∃ c, s.calls[σ]? = some c ∧ c.am = a ∧ c.bizId = b

/-- All callers on `b` are idle but those that `P` describes. -/
def Quiet (s : Trackers Am) (b : ℤ) (P : ℕ → Call Am → Prop) : Prop :=
  ∀ (i : ℕ) (c : Call Am), s.calls[i]? = some c → c.bizId = b → c.stage.Idle ∨ P i c

/-- The maps, etcd and the callers on `b` agree on the tenure. -/
def Refines (s : Trackers Am) (b : ℤ) : Tenure Am → Prop
  | .free =>
    s.etcd b = none ∧ s.lockedLog b = s.unlockedLog b ∧ (∀ a, s.holds a b = none) ∧
      Quiet s b fun _ _ => False
  | .taking a σ =>
    Owned s b a σ ∧ (∀ a, s.holds a b = none) ∧ s.calls[σ]? = some ⟨a, b, .locked⟩ ∧
      Quiet s b fun i _ => i = σ
  | .held a σ n =>
    Owned s b a σ ∧ 0 < n ∧ s.holds a b = some ⟨σ, n⟩ ∧ (∀ a' ≠ a, s.holds a' b = none) ∧
      s.calls.countP (Call.runs b) = n ∧ Quiet s b fun _ c => c.stage = .running ∧ c.am = a
  | .freeing a σ j =>
    Owned s b a σ ∧ (∀ a, s.holds a b = none) ∧ s.calls[j]? = some ⟨a, b, .unlocking σ⟩ ∧
      Quiet s b fun i _ => i = j

/-- A step that leaves business `b` alone: other callers may have moved, and callers on `b` that
stay idle. -/
structure Agree (s t : Trackers Am) (b : ℤ) : Prop where
  etcd : t.etcd b = s.etcd b
  lockedLog : t.lockedLog b = s.lockedLog b
  unlockedLog : t.unlockedLog b = s.unlockedLog b
  holds : ∀ a, t.holds a b = s.holds a b
  kept : ∀ (i : ℕ) (c : Call Am), s.calls[i]? = some c → c.bizId = b →
    ∃ c' : Call Am, t.calls[i]? = some c' ∧ c'.am = c.am ∧ c'.bizId = b ∧ (c.stage.Idle ∨ c' = c)
  quiet : ∀ (i : ℕ) (c' : Call Am), t.calls[i]? = some c' → c'.bizId = b → c'.stage.Idle ∨ s.calls[i]? = some c'
  count : t.calls.countP (Call.runs b) = s.calls.countP (Call.runs b)

theorem not_idle_locked : ¬ Stage.Idle .locked := by simp [Stage.Idle]

theorem not_idle_running : ¬ Stage.Idle .running := by simp [Stage.Idle]

theorem not_idle_unlocking : ¬ Stage.Idle (.unlocking σ) := by simp [Stage.Idle]

theorem Quiet.agree {P : ℕ → Call Am → Prop} (h : Quiet s b P) (hst : Agree s t b) :
    Quiet t b P := by
  intro i c hi hb
  rcases hst.quiet i c hi hb with hidle | hs
  · exact .inl hidle
  · exact h i c hs hb

theorem Owned.agree (h : Owned s b a σ) (hst : Agree s t b) : Owned t b a σ := by
  obtain ⟨c, hc, ha, hb⟩ := h.call
  obtain ⟨c', hc', ha', hb', -⟩ := hst.kept σ c hc hb
  refine ⟨hst.etcd.trans h.etcd, ?_, c', hc', ha'.trans ha, hb'⟩
  rw [hst.lockedLog, hst.unlockedLog]
  exact h.log

theorem Agree.busy (hst : Agree s t b) (hi : s.calls[i]? = some c) (hb : c.bizId = b)
    (hc : ¬ c.stage.Idle) : t.calls[i]? = some c := by
  obtain ⟨c', hc', -, -, hidle | rfl⟩ := hst.kept i c hi hb
  · exact absurd hidle hc
  · exact hc'

theorem Refines.agree (h : Refines s b τ) (hst : Agree s t b) : Refines t b τ := by
  cases τ with
  | free =>
    obtain ⟨hetcd, hlog, hholds, hquiet⟩ := h
    refine ⟨hst.etcd.trans hetcd, ?_, fun a => (hst.holds a).trans (hholds a), hquiet.agree hst⟩
    rw [hst.lockedLog, hst.unlockedLog]
    exact hlog
  | taking a σ =>
    obtain ⟨howned, hholds, hcall, hquiet⟩ := h
    exact ⟨howned.agree hst, fun a => (hst.holds a).trans (hholds a),
      hst.busy hcall rfl not_idle_locked, hquiet.agree hst⟩
  | held a σ n =>
    obtain ⟨howned, hn, hhold, hothers, hcount, hquiet⟩ := h
    exact ⟨howned.agree hst, hn, (hst.holds a).trans hhold,
      fun a' ha => (hst.holds a').trans (hothers a' ha), hst.count.trans hcount,
      hquiet.agree hst⟩
  | freeing a σ j =>
    obtain ⟨howned, hholds, hcall, hquiet⟩ := h
    exact ⟨howned.agree hst, fun a => (hst.holds a).trans (hholds a),
      hst.busy hcall rfl not_idle_unlocking, hquiet.agree hst⟩

theorem calls_set (hi : s.calls[i]? = some c) (c' : Call Am) (k : ℕ) :
    (s.calls.set i c')[k]? = if k = i then some c' else s.calls[k]? := by
  have hlen : i < s.calls.length := (List.getElem?_eq_some_iff.mp hi).1
  rw [List.getElem?_set]
  by_cases hk : i = k
  · simp [hk, hk ▸ hlen]
  · simp [hk, Ne.symm hk]

theorem countP_move (hi : s.calls[i]? = some c) (c' : Call Am) (p : Call Am → Bool) :
    (s.calls.set i c').countP p + (if p c then 1 else 0) =
      s.calls.countP p + (if p c' then 1 else 0) := by
  obtain ⟨hlen, rfl⟩ := List.getElem?_eq_some_iff.mp hi
  rw [List.countP_set hlen]
  have hpos : (if p s.calls[i] then 1 else 0) ≤ s.calls.countP p := by
    split
    · rename_i hp
      exact List.countP_pos_iff.mpr ⟨_, List.getElem_mem hlen, hp⟩
    · exact Nat.zero_le _
  omega

/-- A caller on another business moves, or an idle one stays idle. -/
theorem agree_move {stage : Stage} (hi : s.calls[i]? = some c)
    (hcalls : t.calls = s.calls.set i { c with stage })
    (hc : c.bizId = b → c.stage.Idle ∧ stage.Idle) (hetcd : t.etcd b = s.etcd b)
    (hlocked : t.lockedLog b = s.lockedLog b) (hunlocked : t.unlockedLog b = s.unlockedLog b)
    (hholds : ∀ a, t.holds a b = s.holds a b) : Agree s t b where
  etcd := hetcd
  lockedLog := hlocked
  unlockedLog := hunlocked
  holds := hholds
  kept k d hk hb := by
    rw [hcalls, calls_set hi]
    split
    · rename_i hki
      subst hki
      obtain rfl : c = d := Option.some.inj (hi.symm.trans hk)
      exact ⟨_, rfl, rfl, hb, .inl (hc hb).1⟩
    · exact ⟨d, hk, rfl, hb, .inr rfl⟩
  quiet k d hk hb := by
    rw [hcalls, calls_set hi] at hk
    split at hk
    · cases hk
      exact .inl (hc hb).2
    · exact .inr hk
  count := by
    have hcount := countP_move hi { c with stage } (Call.runs b)
    have hbefore : Call.runs b c = false := by
      simp only [Call.runs, decide_eq_false_iff_not]
      rintro ⟨hb, hr⟩
      exact not_idle_running (hr ▸ (hc hb).1)
    have hafter : Call.runs b { c with stage } = false := by
      simp only [Call.runs, decide_eq_false_iff_not]
      rintro ⟨hb, hr⟩
      exact not_idle_running (hr ▸ (hc hb).2)
    rw [hcalls]
    simpa [hbefore, hafter] using hcount

theorem Owned.call_move {stage : Stage} (h : Owned s b a σ) (hi : s.calls[i]? = some c)
    (hcalls : t.calls = s.calls.set i { c with stage }) :
    ∃ d : Call Am, t.calls[σ]? = some d ∧ d.am = a ∧ d.bizId = b := by
  obtain ⟨d, hd, ha, hb⟩ := h.call
  rw [hcalls, calls_set hi]
  split
  · rename_i hσ
    subst hσ
    obtain rfl : c = d := Option.some.inj (hi.symm.trans hd)
    exact ⟨_, rfl, ha, hb⟩
  · exact ⟨d, hd, ha, hb⟩

/-- After a move of caller `i`, the others are as quiet as before. -/
theorem Quiet.move {stage : Stage} {P Q : ℕ → Call Am → Prop} (h : Quiet s b P)
    (hi : s.calls[i]? = some c) (hcalls : t.calls = s.calls.set i { c with stage })
    (hmoved : c.bizId = b → stage.Idle ∨ Q i { c with stage })
    (hothers : ∀ k d, k ≠ i → P k d → Q k d) : Quiet t b Q := by
  intro k d hk hb
  rw [hcalls, calls_set hi] at hk
  split at hk
  · rename_i hki
    cases hk
    subst hki
    exact hmoved hb
  · rename_i hki
    exact (h k d hk hb).imp_right (hothers k d hki)

theorem call_append {d : Call Am} {k : ℕ} (h : (s.calls ++ [c])[k]? = some d) :
    s.calls[k]? = some d ∨ d = c := by
  rcases Nat.lt_or_ge k s.calls.length with hk | hk
  · rw [List.getElem?_append_left hk] at h
    exact .inl h
  · rw [List.getElem?_append_right hk] at h
    exact .inr (by simpa using List.mem_of_getElem? h)

theorem call_append_left {d : Call Am} {k : ℕ} (h : s.calls[k]? = some d) (c : Call Am) :
    (s.calls ++ [c])[k]? = some d := by
  rw [List.getElem?_append_left (List.getElem?_eq_some_iff.mp h).1]
  exact h

/-- A new caller comes to another business, or starts idle. -/
theorem agree_append (hcalls : t.calls = s.calls ++ [c]) (hc : c.bizId = b → c.stage.Idle)
    (hetcd : t.etcd = s.etcd) (hlocked : t.lockedLog = s.lockedLog)
    (hunlocked : t.unlockedLog = s.unlockedLog) (hholds : ∀ a, t.holds a b = s.holds a b) :
    Agree s t b where
  etcd := congrFun hetcd b
  lockedLog := congrFun hlocked b
  unlockedLog := congrFun hunlocked b
  holds := hholds
  kept k d hk hb := ⟨d, hcalls ▸ call_append_left hk c, rfl, hb, .inr rfl⟩
  quiet k d hk hb := by
    rw [hcalls] at hk
    rcases call_append hk with hk | rfl
    · exact .inr hk
    · exact .inl (hc hb)
  count := by
    have hidle : Call.runs b c = false := by
      simp only [Call.runs, decide_eq_false_iff_not]
      rintro ⟨hb, hr⟩
      exact not_idle_running (hr ▸ hc hb)
    simp [hcalls, List.countP_append, hidle]

/-- A caller that is not idle settles the tenure of its business. -/
theorem Refines.of_busy (h : Refines s c.bizId τ) (hi : s.calls[i]? = some c)
    (hc : ¬ c.stage.Idle) :
    (c.stage = .locked ∧ τ = .taking c.am i) ∨
      (c.stage = .running ∧ ∃ σ n, τ = .held c.am σ n) ∨
      ∃ σ, c.stage = .unlocking σ ∧ τ = .freeing c.am σ i := by
  cases τ with
  | free =>
    obtain ⟨-, -, -, hquiet⟩ := h
    rcases hquiet i c hi rfl with hidle | hfalse
    · exact absurd hidle hc
    · exact hfalse.elim
  | taking a σ =>
    obtain ⟨-, -, hcall, hquiet⟩ := h
    rcases hquiet i c hi rfl with hidle | rfl
    · exact absurd hidle hc
    · have heq := Option.some.inj (hi.symm.trans hcall)
      have ham : c.am = a := congrArg Call.am heq
      exact .inl ⟨congrArg Call.stage heq, by rw [ham]⟩
  | held a σ n =>
    obtain ⟨-, -, -, -, -, hquiet⟩ := h
    rcases hquiet i c hi rfl with hidle | ⟨hrun, rfl⟩
    · exact absurd hidle hc
    · exact .inr (.inl ⟨hrun, σ, n, rfl⟩)
  | freeing a σ j =>
    obtain ⟨-, -, hcall, hquiet⟩ := h
    rcases hquiet i c hi rfl with hidle | rfl
    · exact absurd hidle hc
    · have heq := Option.some.inj (hi.symm.trans hcall)
      have ham : c.am = a := congrArg Call.am heq
      exact .inr (.inr ⟨σ, congrArg Call.stage heq, by rw [ham]⟩)

theorem Refines.taking_of_locked (h : Refines s c.bizId τ) (hi : s.calls[i]? = some c)
    (hstage : c.stage = .locked) : τ = .taking c.am i := by
  rcases h.of_busy hi (hstage ▸ not_idle_locked) with ⟨-, hτ⟩ | ⟨hr, -⟩ | ⟨σ, hu, -⟩
  · exact hτ
  · cases hstage.symm.trans hr
  · cases hstage.symm.trans hu

theorem Refines.held_of_running (h : Refines s c.bizId τ) (hi : s.calls[i]? = some c)
    (hstage : c.stage = .running) : ∃ σ n, τ = .held c.am σ n := by
  rcases h.of_busy hi (hstage ▸ not_idle_running) with ⟨hl, -⟩ | ⟨-, hτ⟩ | ⟨σ, hu, -⟩
  · cases hstage.symm.trans hl
  · exact hτ
  · cases hstage.symm.trans hu

theorem Refines.freeing_of_unlocking (h : Refines s c.bizId τ) (hi : s.calls[i]? = some c)
    (hstage : c.stage = .unlocking σ) : τ = .freeing c.am σ i := by
  rcases h.of_busy hi (hstage ▸ not_idle_unlocking) with ⟨hl, -⟩ | ⟨hr, -⟩ | ⟨σ', hu, hτ⟩
  · cases hstage.symm.trans hl
  · cases hstage.symm.trans hr
  · cases hstage.symm.trans hu
    exact hτ

/-- One running caller is everyone who is not idle. -/
theorem alone_of_count (h : Quiet s b fun _ c => c.stage = .running ∧ c.am = a)
    (hi : s.calls[i]? = some c) (hc : Call.runs b c = true)
    (hcount : s.calls.countP (Call.runs b) = 1) : Quiet s b fun k _ => k = i := by
  intro k d hk hd
  rcases h k d hk hd with hidle | ⟨hrun, -⟩
  · exact .inl hidle
  · refine .inr (by_contra fun hki => ?_)
    have hended := countP_move hi { c with stage := .ended } (Call.runs b)
    have hmem : d ∈ s.calls.set i { c with stage := .ended } :=
      List.mem_of_getElem? ((calls_set hi _ k).trans ((if_neg hki).trans hk))
    have hruns : Call.runs b d = true := by simp [Call.runs, hd, hrun]
    have hpos := List.countP_pos_iff.mpr ⟨d, hmem, hruns⟩
    have hno : Call.runs b { c with stage := .ended } = false := by simp [Call.runs]
    simp only [hc, hno, hcount, if_true] at hended
    simp only [Bool.false_eq_true, if_false] at hended
    omega

/-- Each session is locked once, by a call that is past the etcd call. -/
structure Logged (s : Trackers Am) (b : ℤ) : Prop where
  nodup : (s.lockedLog b).Nodup
  started : ∀ σ ∈ s.lockedLog b, ∃ c, s.calls[σ]? = some c ∧ c.stage ≠ .trying

theorem Logged.move {stage : Stage} (h : Logged s b) (hi : s.calls[i]? = some c)
    (hcalls : t.calls = s.calls.set i { c with stage }) (hstage : stage ≠ .trying)
    (hlog : t.lockedLog b = s.lockedLog b) : Logged t b := by
  refine ⟨hlog ▸ h.nodup, fun σ hσ => ?_⟩
  obtain ⟨d, hd, hdstage⟩ := h.started σ (hlog ▸ hσ)
  rw [hcalls, calls_set hi]
  split
  · exact ⟨_, rfl, hstage⟩
  · exact ⟨d, hd, hdstage⟩

/-- An entry of the map is that of a held tenure. -/
theorem Refines.held_of_entry {h : HeldLock} (hr : Refines s b τ) (hh : s.holds a b = some h) :
    ∃ n, τ = .held a h.unlock n ∧ h.refCnt = n := by
  cases τ with
  | free =>
    obtain ⟨-, -, hnone, -⟩ := hr
    simp [hnone a] at hh
  | taking a' σ =>
    obtain ⟨-, hnone, -⟩ := hr
    simp [hnone a] at hh
  | held a' σ n =>
    obtain ⟨-, -, hhold, hothers, -⟩ := hr
    have ha : a = a' := by
      by_contra hne
      simp [hothers a hne] at hh
    subst ha
    cases hhold.symm.trans hh
    exact ⟨n, rfl, rfl⟩
  | freeing a' σ j =>
    obtain ⟨-, hnone, -⟩ := hr
    simp [hnone a] at hh

end Failover
