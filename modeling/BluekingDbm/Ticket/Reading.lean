import BluekingDbm.Ticket.Conduct

/-! Asking for a flow's status: only what has begun and is not over is saved, except for the resource
applications, and who is told that a flow is finished knows that it has been passed. -/
namespace Ticket

open Program

variable {α : Type} {sound : Flow → Prop} {flow : Flow} {g g' : Ghost} {result : TicketFlowStatus}

/-- What is known once the status of a flow has been told. -/
structure Reads (g : Ghost) (flow : Flow) (result : TicketFlowStatus) (g' : Ghost) : Prop where
  grown : g.Extends g'
  finished : loaded flow ⊆ g.facts → result ∈ flowFinishedStatus →
    .clear flow.id ∈ g'.facts ∧ .passed flow.id ∈ g'.facts

theorem Reads.of_extends (h : Reads g' flow result g'') (hext : g.Extends g') :
    Reads g flow result g'' where
  grown := hext.trans h.grown
  finished hloaded := h.finished (hloaded.trans hext.facts)

theorem reads_of_unfinished (hext : g.Extends g') (h : result ∉ flowFinishedStatus) :
    Reads g flow result g' := ⟨hext, fun _ hfin => absurd hfin h⟩

theorem begun_of_finished (h : flow.status ∈ flowFinishedStatus) : Begun flow := by
  simp only [flowFinishedStatus, List.mem_cons, List.not_mem_nil, or_false] at h
  rcases h with h | h <;> simp [Begun, h]

theorem loaded_finished (hloaded : loaded flow ⊆ g.facts) (hbegun : Begun flow) (hpassed : Passed flow) :
    .clear flow.id ∈ g.facts ∧ .passed flow.id ∈ g.facts :=
  ⟨hloaded (.inl ⟨rfl, hbegun⟩), hloaded (.inr ⟨rfl, hpassed⟩)⟩

/-- The stored status may be told as it is. -/
theorem reads_status (g : Ghost) (flow : Flow) : Reads g flow flow.status g where
  grown := .refl g
  finished hloaded hfin := loaded_finished hloaded (begun_of_finished hfin) (.inl hfin)

/-- A flow that runs or has failed, of a type that is not waited for, may be told as finished. -/
theorem reads_notAwaited (hflow : flow.status ∈ [.running, .failed])
    (htype : flow.flowType ∈ notAwaited) (hext : g.Extends g') (result : TicketFlowStatus) :
    Reads g flow result g' where
  grown := hext
  finished hloaded _ := by
    simp only [List.mem_cons, List.not_mem_nil, or_false] at hflow
    refine loaded_finished (hloaded.trans hext.facts) ?_ (.inr ⟨htype, ?_⟩)
    · rcases hflow with h | h <;> simp [Begun, h]
    · rcases hflow with h | h <;> simp [h]

/-- A save of a getter, after which the status that was saved is told. -/
theorem behaves_saveGetter (flow' : Flow) {updateFields : List Field} (hid : flow.id = flow'.id)
    (hstatus : flow'.status = result) (hfields : .status ∈ updateFields)
    (h : isResourceApply flow = false → Readable sound flow ∧ result ≠ .pending) :
    Behaves sound (Reads g flow)
      (saveAs .getter flow flow' updateFields >>= fun _ => Prog.done result) g := by
  subst hstatus
  refine behaves_saveAs hid ⟨hfields, h⟩ (by simp) ?_
  intro g' hext hfacts hsaved
  refine ⟨hext (by simp), ?_⟩
  intro _ hfin
  rw [hid]
  exact ⟨hsaved ⟨hfin, .inl rfl⟩, hsaved ⟨hfin, .inr rfl⟩⟩

theorem behaves_updateStatus (h : isResourceApply flow = false →
    flow.status = result ∨ (Readable sound flow ∧ result ≠ .pending)) :
    Behaves sound (Reads g flow) (updateStatus .getter flow result) g := by
  rw [updateStatus]
  split
  · rename_i hne
    refine behaves_saveGetter { flow with status := result } rfl rfl (by simp) ?_
    intro hbase
    exact (h hbase).resolve_left hne
  · rename_i heq
    obtain rfl := not_not.mp heq
    exact reads_status g flow

theorem bambooState_ne_pending (state : StateType) : bambooStateTicketState state ≠ .pending := by
  cases state <;> simp [bambooStateTicketState]

theorem behaves_innerStatus (hread : Readable sound flow) :
    Behaves sound (Reads g flow) (innerStatus flow) g := by
  rw [innerStatus]
  split
  · exact reads_of_unfinished (.refl g) (by simp [flowFinishedStatus])
  · refine behaves_ask ?_
    intro flowTree g' hext
    refine Behaves.mono ?_ fun _ _ h => Reads.of_extends h hext
    cases flowTree with
    | none =>
      exact behaves_updateStatus fun _ => .inl rfl
    | some state =>
      exact behaves_updateStatus fun _ => .inr ⟨hread, bambooState_ne_pending state⟩

theorem behaves_ignoreResultInnerStatus (hread : flow.status ∈ [.running, .failed])
    (htype : flow.flowType ∈ notAwaited) :
    Behaves sound (Reads g flow) (ignoreResultInnerStatus flow) g := by
  rw [ignoreResultInnerStatus]
  refine Behaves.bind (behaves_innerStatus (.inl hread)) ?_
  intro status g' h
  split
  · exact reads_notAwaited hread htype h.grown _
  · exact h

theorem behaves_hcmReplenishStatus (hread : Readable sound flow) :
    Behaves sound (Reads g flow) (hcmReplenishStatus flow) g := by
  rw [hcmReplenishStatus]
  refine behaves_ask ?_
  intro flowTree g' hext
  refine Behaves.mono ?_ fun _ _ h => Reads.of_extends h hext
  cases flowTree with
  | none => exact reads_status g' flow
  | some state =>
    dsimp only
    split
    · exact behaves_updateStatus fun _ => .inr ⟨hread, bambooState_ne_pending state⟩
    · refine behaves_ask ?_
      intro reached g'' hext'
      refine Behaves.mono ?_ fun _ _ h => Reads.of_extends h hext'
      cases reached with
      | true =>
        simp only [if_true]
        split
        · exact behaves_saveGetter { flow with status := .succeeded } rfl rfl
            (by simp [allFields]) fun _ => ⟨hread, by simp⟩
        · rename_i heq
          have heq := not_not.mp heq
          have hown := reads_status g'' flow
          rwa [heq] at hown
      | false =>
        simp only [Bool.false_eq_true, if_false]
        split
        · exact behaves_saveGetter { flow with
            status := .failed
            errMsg := some "海磊资源申请不足"
            errCode := some .hcmApplyLackResourceError } rfl rfl
            (by simp [allFields]) fun _ => ⟨hread, by simp⟩
        · exact reads_of_unfinished (.refl g'') (by simp [flowFinishedStatus])

theorem behaves_pauseStatus (hread : Readable sound flow) :
    Behaves sound (Reads g flow) (pauseStatus flow) g := by
  rw [pauseStatus]
  refine behaves_ask ?_
  intro unfinished g' hext
  refine Behaves.mono ?_ fun _ _ h => Reads.of_extends h hext
  split
  · exact behaves_updateStatus fun _ => .inr ⟨hread, by simp⟩
  · exact behaves_updateStatus fun _ => .inr ⟨hread, by simp⟩

theorem behaves_overdue (expired : Bool) :
    Behaves sound (fun _ g' => g.Extends g') (overdue expired) g := by
  cases expired with
  | false => exact Ghost.Extends.refl g
  | true => exact behaves_ask (f := .done) fun _ _ hext => hext

theorem behaves_timerStatus (hread : Readable sound flow) :
    Behaves sound (Reads g flow) (timerStatus flow) g := by
  rw [timerStatus]
  split
  · exact reads_of_unfinished (.refl g) (by simp [flowFinishedStatus])
  · refine Behaves.bind (behaves_overdue _) ?_
    intro unfinished g' hext
    refine Behaves.mono ?_ fun _ _ h => Reads.of_extends h hext
    split
    · exact behaves_updateStatus fun _ => .inr ⟨hread, by simp⟩
    · refine behaves_ask ?_
      intro later g'' hext'
      refine Behaves.mono ?_ fun _ _ h => Reads.of_extends h hext'
      split
      · exact behaves_updateStatus fun _ => .inr ⟨hread, by simp⟩
      · exact behaves_updateStatus fun _ => .inr ⟨hread, by simp⟩

theorem behaves_deliveryStatus (hread : Readable sound flow) :
    Behaves sound (Reads g flow) (deliveryStatus flow) g :=
  behaves_updateStatus fun _ => .inr ⟨hread, by simp⟩

theorem behaves_itsmStatus (hread : Readable sound flow) :
    Behaves sound (Reads g flow) (itsmStatus flow) g := by
  rw [itsmStatus]
  refine behaves_ask ?_
  intro result g' hext
  refine Behaves.mono ?_ fun _ _ h => Reads.of_extends h hext
  split <;> exact behaves_updateStatus fun _ => .inr ⟨hread, by simp⟩

theorem behaves_resourceApplyStatus (htype : isResourceApply flow = true) :
    Behaves sound (Reads g flow) (resourceApplyStatus flow) g := by
  have hbase : ∀ {p : Prop}, isResourceApply flow = false → p := by
    intro p h
    rw [htype] at h
    cases h
  rw [resourceApplyStatus]
  split
  · exact behaves_updateStatus hbase
  · split
    · exact behaves_updateStatus hbase
    · split
      · refine behaves_ask ?_
        intro lacking g' hext
        refine Behaves.mono ?_ fun _ _ h => Reads.of_extends h hext
        split
        · exact behaves_updateStatus hbase
        · exact reads_status g' flow
      · exact behaves_updateStatus hbase

/-- A flow whose type is none of the tasks' is only asked for while it runs or has failed. -/
theorem behaves_ownStatus (hread : Readable sound flow) (htype : isResourceApply flow = false) :
    Behaves sound (Reads g flow) (ownStatus flow) g := by
  have hlive : flow.flowType ∉ flowTaskTypes → flow.status ∈ [.running, .failed] := by
    intro hnot
    rcases hread with h | ⟨-, h, -⟩
    · exact h
    · exact absurd h hnot
  rw [ownStatus]
  split
  · exact behaves_itsmStatus hread
  · exact behaves_innerStatus hread
  · rename_i hquick
    exact reads_notAwaited (hlive (by simp [hquick, flowTaskTypes])) (by simp [hquick, notAwaited])
      (.refl g) _
  · rename_i hignore
    exact behaves_ignoreResultInnerStatus (hlive (by simp [hignore, flowTaskTypes]))
      (by simp [hignore, notAwaited])
  · exact behaves_pauseStatus hread
  · exact behaves_deliveryStatus hread
  · exact behaves_deliveryStatus hread
  · exact behaves_timerStatus hread
  · rename_i happly
    simp [isResourceApply, happly] at htype
  · exact behaves_deliveryStatus hread
  · exact behaves_deliveryStatus hread
  · rename_i happly
    simp [isResourceApply, happly] at htype
  · exact behaves_innerStatus hread
  · exact behaves_hcmReplenishStatus hread

theorem behaves_baseStatus (hsound : sound flow) (htype : isResourceApply flow = false) :
    Behaves sound (Reads g flow) (baseStatus flow) g := by
  rw [baseStatus]
  split
  · exact reads_status g flow
  · split
    · exact reads_status g flow
    · rename_i hfin hoff
      have hlive : flow.status ∈ [.running, .failed] ∨ flow.status = .pending := by
        cases hstatus : flow.status <;> simp_all [flowFinishedStatus]
      split
      · rename_i herr
        split
        · rename_i htask
          refine behaves_ownStatus ?_ htype
          exact hlive.imp_right fun hpending => ⟨hpending, htask, herr, hsound⟩
        · exact reads_of_unfinished (.refl g) (by simp [flowFinishedStatus])
      · split
        · rename_i hrun
          exact behaves_ownStatus (.inl hrun) htype
        · exact reads_of_unfinished (.refl g) (by simp [flowFinishedStatus])

/-- `status` of any flow. -/
theorem behaves_status (hsound : sound flow) : Behaves sound (Reads g flow) (status flow) g := by
  rw [status]
  split
  · rename_i htype
    exact behaves_resourceApplyStatus htype
  · rename_i htype
    exact behaves_baseStatus hsound (eq_false_of_ne_true htype)

theorem behaves_readStatuses {flows : List Flow} (hsound : ∀ flow ∈ flows, sound flow) :
    Behaves sound (fun _ _ => True) (readStatuses flows) g := by
  induction flows generalizing g with
  | nil => trivial
  | cons flow flows ih =>
    rw [readStatuses]
    refine Behaves.bind (behaves_status (hsound flow List.mem_cons_self)) ?_
    intro flowStatus g' _
    refine Behaves.bind (ih fun flow h => hsound flow (List.mem_cons_of_mem _ h)) ?_
    intro rest g'' _
    trivial

theorem behaves_updateTicketStatus : Behaves sound (fun _ _ => True) updateTicketStatus g := by
  refine ⟨trivial, ?_⟩
  rintro flows g' ⟨hsound, -, rfl⟩
  show Behaves sound _ (readStatuses flows >>= _) _
  refine Behaves.bind (behaves_readStatuses hsound) ?_
  intro seen g' _
  split
  · rename_i hnone
    exact ⟨hnone, fun _ _ _ => trivial⟩
  · rename_i target hsome
    exact ⟨hsome, fun _ _ _ => trivial⟩

end Ticket
