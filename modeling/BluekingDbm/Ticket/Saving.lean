import BluekingDbm.Ticket.Knowledge

/-! Careful saves: what they make of the rows while objects are saved only as long as their status is still
that of the row. -/
namespace Ticket

open Program

variable {db db' : Database} {w : ℕ} {o : Op} {r : Res o} {g : Ghost} {id : ℕ}

/-- The row still has the status with which the object was loaded or last saved. -/
def StillAs (held : Flow) (db : Database) : Prop :=
  ∃ row ∈ db.flows, row.id = held.id ∧ row.status = held.status

/-- Where a part of the code that checks no status may be run: a resource application's status is asked
for while it is under way, flows are run that are not over, retried while they run or have failed, and
called off unless they are finished. -/
def Live (held flow : Flow) : Origin → Prop
  | .getter => isResourceApply held = true → held.status ∈ [.running, .failed] ∧ flow.status ≠ .pending
  | .run => held.status ∈ [.pending, .running, .failed]
  | .runError => held.status ∈ [.pending, .running, .failed]
  | .flushError => held.status ∈ [.running, .failed]
  | .flushRevoke => held.status ∉ flowFinishedStatus
  | _ => True

instance (held flow : Flow) (origin : Origin) : Decidable (Live held flow origin) := by
  cases origin <;> unfold Live <;> infer_instance

/-- A save of a status or an error is made from an object that is not stale, on a flow that is not over,
and a flow that is done is added at the end only. -/
def Careful : Op → Database → Prop
  | .save origin held flow updateFields, db =>
    (.status ∈ updateFields ∨ .errMsg ∈ updateFields) → StillAs held db ∧ Live held flow origin
  | .createFlow done, db => done = true → ∀ row ∈ db.flows, Passed row
  | _, _ => True

instance (held : Flow) (db : Database) : Decidable (StillAs held db) :=
  inferInstanceAs (Decidable (∃ _ ∈ _, _))

instance decidableCareful : ∀ (o : Op) (db : Database), Decidable (Careful o db)
  | .save origin held flow _, db =>
    inferInstanceAs (Decidable (_ → StillAs held db ∧ Live held flow origin))
  | .createFlow done, db => inferInstanceAs (Decidable (done = true → ∀ row ∈ db.flows, Passed row))
  | .listFlows, _ | .nextFlow, _ | .anyStarted, _ | .lastStarted, _ | .firstFlow, _
  | .getFlow _, _ | .checkFlowAck _, _ | .startBody _, _ | .applyAsync _, _ | .ask _, _
  | .writeTicket .., _ | .leaveTicket _, _ => .isTrue trivial

section Saving

variable {origin : Origin} {held flow old : Flow} {updateFields : List Field}

theorem store_status (old flow : Flow) (h : .status ∈ updateFields) :
    (old.store flow updateFields).status = flow.status := if_pos h

theorem store_status_of_not_mem (old flow : Flow) (h : .status ∉ updateFields) :
    (old.store flow updateFields).status = old.status := if_neg h

/-- What a careful save makes of the row that it is about. -/
structure Stores (old row : Flow) (clear : Prop) : Prop where
  advances : Advances old row
  begun : Begun row → Begun old ∨ clear
  clean : Clean row

/-- A row that is not over takes any status but pending. -/
theorem advances_of_unfinished (hold : old.status ∈ [.pending, .running, .failed])
    (hfields : .status ∈ updateFields) (hne : flow.status ≠ .pending) :
    Advances old (old.store flow updateFields) := by
  have hstatus := store_status old flow hfields
  simp only [List.mem_cons, List.not_mem_nil, or_false] at hold
  refine ⟨rfl, rfl, ?_, ?_, ?_⟩
  · rintro (hfin | ⟨htype, -⟩)
    · rcases hold with h | h | h <;> simp [h, flowFinishedStatus] at hfin
    · exact .inr ⟨htype, by rwa [hstatus]⟩
  · intro _
    rwa [hstatus]
  · intro hterm
    rcases hold with h | h | h <;> simp [h] at hterm

theorem clean_of_not_pending (hfields : .status ∈ updateFields) (hne : flow.status ≠ .pending) :
    Clean (old.store flow updateFields) := by
  intro h
  rw [store_status old flow hfields] at h
  exact absurd h hne

theorem stores_of_live {clear : Prop} (hold : old.status ∈ [.running, .failed])
    (hfields : .status ∈ updateFields) (hne : flow.status ≠ .pending) :
    Stores old (old.store flow updateFields) clear := by
  refine ⟨advances_of_unfinished (List.mem_cons_of_mem _ hold) hfields hne, ?_,
    clean_of_not_pending hfields hne⟩
  intro _
  exact .inl (begun_of_live (by simpa using hold))

/-- A row that is not over is run. -/
theorem stores_of_run {clear : Prop} (hclear : clear)
    (hold : old.status ∈ [.pending, .running, .failed]) (hfields : .status ∈ updateFields)
    (hne : flow.status ≠ .pending) : Stores old (old.store flow updateFields) clear :=
  ⟨advances_of_unfinished hold hfields hne, fun _ => .inr hclear, clean_of_not_pending hfields hne⟩

/-- A row that is not finished is called off. -/
theorem stores_of_revoke {clear : Prop} (hold : old.status ∉ flowFinishedStatus)
    (hfields : .status ∈ updateFields) (hterm : flow.status = .terminated) :
    Stores old (old.store flow updateFields) clear := by
  have hnew := store_status old flow hfields
  refine ⟨⟨rfl, rfl, ?_, ?_, fun _ => hnew.trans hterm⟩, ?_,
    clean_of_not_pending hfields (by simp [hterm])⟩
  · rintro (hfin | ⟨htype, -⟩)
    · exact absurd hfin hold
    · exact .inr ⟨htype, by simp [hnew, hterm]⟩
  · intro _
    simp [hnew, hterm]
  · intro h
    simp [Begun, hnew, hterm] at h

/-- A save that leaves the status as it is. -/
theorem stores_of_same {clear : Prop} (hsame : (old.store flow updateFields).status = old.status)
    (hclean : Clean (old.store flow updateFields)) :
    Stores old (old.store flow updateFields) clear := by
  refine ⟨advances_of_status rfl rfl hsame, ?_, hclean⟩
  intro h
  exact .inl ((begun_congr hsame).mp h)

/-- A save that names neither the status nor the error. -/
theorem stores_of_other {clear : Prop} (hold : Clean old) (hstatus : .status ∉ updateFields)
    (herr : .errMsg ∉ updateFields) : Stores old (old.store flow updateFields) clear := by
  have hsame := store_status_of_not_mem old flow hstatus
  have herr : (old.store flow updateFields).errMsg = old.errMsg := if_neg herr
  refine stores_of_same hsame ?_
  intro h
  rw [hsame] at h
  simpa only [Flow.hasErrMsg, herr] using hold h

theorem readable_live (h : Readable Clean held) : held.status ∈ [.running, .failed] := by
  rcases h with h | ⟨hpending, -, herr, hclean⟩
  · exact h
  · simp [hclean hpending] at herr

/-- The row of a careful save still has the object's status. -/
theorem status_of_stillAs (hdb : Ordered db) (hold : old ∈ db.flows) (hid : old.id = held.id)
    (h : StillAs held db) : old.status = held.status := by
  obtain ⟨row, hrow, hrowid, hstatus⟩ := h
  rwa [eq_of_id hdb hold hrow (hid.trans hrowid.symm)]

theorem stores_of_save (hdb : Ordered db) (hold : old ∈ db.flows) (hid : old.id = flow.id)
    (hP : Permitted Clean (.save origin held flow updateFields) g)
    (hcareful : Careful (.save origin held flow updateFields) db) :
    Stores old (old.store flow updateFields) (Clears g.facts flow.id) := by
  obtain ⟨hheld, hsaves, hclears⟩ := hP
  have hstatus : .status ∈ updateFields ∨ .errMsg ∈ updateFields → old.status = held.status := by
    intro h
    exact status_of_stillAs hdb hold (hid.trans hheld.symm) (hcareful h).1
  have hlive : .status ∈ updateFields → Live held flow origin := fun h => (hcareful (.inl h)).2
  cases origin with
  | getter =>
    obtain ⟨hfields, hbase⟩ := hsaves
    have h : held.status ∈ [.running, .failed] ∧ flow.status ≠ .pending := by
      cases htype : isResourceApply held with
      | true => exact hlive hfields htype
      | false => exact ⟨readable_live (hbase htype).1, (hbase htype).2⟩
    exact stores_of_live (hstatus (.inl hfields) ▸ h.1) hfields h.2
  | run =>
    obtain ⟨hrun, hfields, -⟩ := hsaves
    refine stores_of_run (hclears (.inl rfl)) ?_ hfields (by simp [hrun])
    rw [hstatus (.inl hfields)]
    exact hlive hfields
  | runError =>
    obtain ⟨hfailed, hfields⟩ := hsaves
    refine stores_of_run (hclears (.inr rfl)) ?_ hfields (by simp [hfailed])
    rw [hstatus (.inl hfields)]
    exact hlive hfields
  | lack =>
    obtain ⟨hrun, hfields, herr⟩ := hsaves
    have hsame := store_status_of_not_mem old flow hfields
    have hold' : old.status = .running := (hstatus (.inr herr)).trans hrun
    refine stores_of_same hsame ?_
    intro h
    rw [hsame, hold'] at h
    cases h
  | flushError =>
    obtain ⟨hrun, hfields⟩ := hsaves
    refine stores_of_live ?_ hfields (by simp [hrun])
    rw [hstatus (.inl hfields)]
    exact hlive hfields
  | flushRevoke =>
    obtain ⟨hterm, hfields, -⟩ := hsaves
    refine stores_of_revoke ?_ hfields hterm
    rw [hstatus (.inl hfields)]
    exact hlive hfields
  | context => exact stores_of_other (hdb.clean old hold) hsaves.1 hsaves.2
  | details => exact stores_of_other (hdb.clean old hold) hsaves.1 hsaves.2
  | whole =>
    obtain ⟨hsame, herrSame, hfields, hclean⟩ := hsaves
    have hnew : (old.store flow updateFields).status = old.status := by
      rw [store_status _ _ hfields, hsame, hstatus (.inl hfields)]
    refine stores_of_same hnew ?_
    intro h
    rw [hnew] at h
    by_cases herr : .errMsg ∈ updateFields
    · have herr' : (old.store flow updateFields).errMsg = held.errMsg := (if_pos herr).trans herrSame
      simpa only [Flow.hasErrMsg, herr'] using hclean (hstatus (.inl hfields) ▸ h)
    · have herr' : (old.store flow updateFields).errMsg = old.errMsg := if_neg herr
      simpa only [Flow.hasErrMsg, herr'] using hdb.clean old hold h

/-- An update of the rows with an id that makes of each what a careful save may make of it. -/
theorem ordered_updateRow {f : Flow → Flow} (hdb : Ordered db) (hid : ∀ row, (f row).id = row.id)
    (hf : ∀ old ∈ db.flows, old.id = id → Stores old (f old) (InOrder db.flows id))
    (hflows : db'.flows = updateRow db.flows id f)
    (hstarts : ∀ id rows, .started id rows ∈ db'.trace → InOrder rows id) :
    Ordered db' ∧ Grows db db' := by
  have hstores : ∀ row' ∈ db'.flows, ∃ row ∈ db.flows, Stores row row' (InOrder db.flows row.id) := by
    intro row' hrow'
    obtain ⟨old, hold, ⟨hsame, rfl⟩ | ⟨-, rfl⟩⟩ := mem_updateRow (hflows ▸ hrow')
    · exact ⟨old, hold, by rw [hsame]; exact hf old hold hsame⟩
    · exact ⟨_, hold, .refl _, .inl, hdb.clean _ hold⟩
  have hgrows : Grows db db' := by
    constructor
    · intro row hrow
      rw [hflows]
      exact exists_updateRow hid hrow
    · intro row' hrow'
      obtain ⟨row, hrow, h⟩ := hstores row' hrow'
      exact .inl ⟨row, hrow, h.advances⟩
  refine ⟨⟨?_, ?_, ?_, hstarts⟩, hgrows⟩
  · rw [hflows]
    refine List.pairwise_map.mpr (hdb.sorted.imp ?_)
    intro a b hlt
    have hkeep : ∀ row, (if row.id = id then f row else row).id = row.id := by
      intro row
      split
      · exact hid row
      · rfl
    rwa [hkeep, hkeep]
  · intro row' hrow' hbegun r' hr' hlt
    obtain ⟨row, hrow, h⟩ := hstores row' hrow'
    obtain ⟨r, hr, hadv⟩ := hstores r' hr'
    have hbehind : InOrder db.flows row.id := by
      rcases h.begun hbegun with hold | hclear
      · exact hdb.begun row hrow hold
      · exact hclear
    refine hadv.advances.passed (hbehind r hr ?_)
    rwa [← hadv.advances.id, ← h.advances.id]
  · intro row' hrow'
    obtain ⟨row, -, h⟩ := hstores row' hrow'
    exact h.clean

theorem ordered_save (hdb : Ordered db) (hg : Knows w g db)
    (hP : Permitted Clean (.save origin held flow updateFields) g)
    (hcareful : Careful (.save origin held flow updateFields) db)
    (hflows : db'.flows = saveFlow db.flows flow updateFields)
    (hstarts : ∀ id rows, .started id rows ∈ db'.trace → InOrder rows id) :
    Ordered db' ∧ Grows db db' := by
  refine ordered_updateRow hdb ?_ ?_ hflows hstarts
  · intro row
    rfl
  · intro old hold hid
    have h := stores_of_save hdb hold hid hP hcareful
    refine ⟨h.advances, ?_, h.clean⟩
    intro hbegun
    refine (h.begun hbegun).imp_right ?_
    intro hclears
    exact (holds_clear_of_clears hg hclears).2

theorem ordered_createFlow {done : Bool} (hdb : Ordered db)
    (hcareful : Careful (.createFlow done) db) :
    Ordered { db with flows := db.flows ++ [newFlow db.flows done] } ∧
      Grows db { db with flows := db.flows ++ [newFlow db.flows done] } := by
  have hmem : ∀ row ∈ db.flows ++ [newFlow db.flows done], row ∈ db.flows ∨ row = newFlow db.flows done := by
    intro row hrow
    exact (List.mem_append.mp hrow).imp_right List.mem_singleton.mp
  refine ⟨⟨?_, ?_, ?_, hdb.starts⟩, ?_, ?_⟩
  · refine List.pairwise_append.mpr ⟨hdb.sorted, List.pairwise_singleton _ _, ?_⟩
    intro a ha b hb
    obtain rfl := List.mem_singleton.mp hb
    exact lt_newFlow ha done
  · intro row hrow hbegun r hr hlt
    rcases hmem row hrow with hrow' | rfl <;> rcases hmem r hr with hr' | rfl
    · exact hdb.begun row hrow' hbegun r hr' hlt
    · have := lt_newFlow hrow' done
      omega
    · cases done with
      | true => exact hcareful rfl r hr'
      | false => simp [Begun, newFlow] at hbegun
    · omega
  · intro row hrow hpending
    rcases hmem row hrow with hrow | rfl
    · exact hdb.clean row hrow hpending
    · rfl
  · intro row hrow
    exact ⟨row, List.mem_append_left _ hrow, rfl⟩
  · intro row hrow
    rcases hmem row hrow with hrow | rfl
    · exact .inl ⟨row, hrow, .refl row⟩
    · exact .inr fun r hr => lt_newFlow hr done

theorem grows_of_flows (h : db'.flows = db.flows) : Grows db db' := by
  constructor
  · intro row hrow
    exact ⟨row, h ▸ hrow, rfl⟩
  · intro row hrow
    exact .inl ⟨row, h ▸ hrow, .refl row⟩

/-- One operation keeps the order. -/
theorem ordered_served (hdb : Ordered db) (hcareful : Careful o db) (hP : Permitted Clean o g)
    (hg : Knows w g db) (h : Served w db o r db') : Ordered db' ∧ Grows db db' := by
  cases h with
  | entered =>
    refine ordered_updateRow hdb ?_ ?_ rfl hdb.starts
    · intro row
      rfl
    · intro old hold _
      exact ⟨advances_of_status rfl rfl rfl, .inl, hdb.clean old hold⟩
  | startBody =>
    refine ⟨⟨hdb.sorted, hdb.begun, hdb.clean, ?_⟩, grows_of_flows rfl⟩
    intro id rows hmem
    rcases List.mem_cons.mp hmem with heq | hmem
    · cases heq
      exact (holds_clear_of_clears hg hP.2).2
    · exact hdb.starts id rows hmem
  | save =>
    refine ordered_save hdb hg hP hcareful rfl ?_
    intro id rows hmem
    dsimp only at hmem
    split at hmem
    · exact hdb.starts id rows ((List.mem_cons.mp hmem).resolve_left (by simp))
    · exact hdb.starts id rows hmem
  | createFlow => exact ordered_createFlow hdb hcareful
  | writeTicket => exact ⟨⟨hdb.sorted, hdb.begun, hdb.clean, hdb.starts⟩, grows_of_flows rfl⟩
  | _ => exact ⟨hdb, grows_of_flows rfl⟩

end Saving

end Ticket
