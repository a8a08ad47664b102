import BluekingDbm.Ticket.Reading

/-! Running, retrying and terminating flows: a body is started behind the gate only, by a worker who
knows that the flows before have been passed. -/
namespace Ticket

open Program

variable {α : Type} {sound : Flow → Prop} {flow : Flow} {g g' : Ghost} {Q : α → Ghost → Prop}

/-- Everything may be the case in the end. -/
abbrev Anyhow : α → Ghost → Prop := fun _ _ => True

theorem behaves_runStatusHandler {f : Flow → Act α} {flowObjId : String}
    (hclear : Clears g.facts flow.id)
    (hf : ∀ flow' g', flow'.id = flow.id → flow'.status = .running → g.Extends g' →
      Behaves sound Q (f flow') g') :
    Behaves sound Q (runStatusHandler flow flowObjId >>= f) g := by
  rw [runStatusHandler]
  refine behaves_saveAs rfl ⟨rfl, by simp, by simp⟩ (fun _ => hclear) ?_
  intro g' hext _ _
  exact hf _ _ rfl rfl (hext (by simp))

theorem behaves_runErrorStatusHandler (hclear : Clears g.facts flow.id) (err : RunErr) :
    Behaves sound Anyhow (runErrorStatusHandler flow err) g := by
  rw [runErrorStatusHandler]
  refine behaves_saveAs rfl ⟨rfl, by simp⟩ (fun _ => hclear) ?_
  intro g' _ hfacts _
  dsimp only
  split
  · refine behaves_runStatusHandler (hclear.mono hfacts) ?_
    intro _ _ _ _ _
    trivial
  · trivial

theorem behaves_flushErrorStatusHandler {f : Flow → Act α}
    (hf : ∀ flow' g', flow'.id = flow.id → g.Extends g' → Clears g'.facts flow'.id →
      Behaves sound Q (f flow') g') :
    Behaves sound Q (flushErrorStatusHandler flow >>= f) g := by
  rw [flushErrorStatusHandler]
  refine behaves_saveAs rfl ⟨rfl, by simp⟩ (by simp) ?_
  intro g' hext _ hsaved
  exact hf _ _ rfl (hext (by simp)) (.inl (hsaved rfl))

theorem behaves_saveDetails {flow' : Flow} {updateFields : List Field} {f : Flow → Act α}
    (hid : flow'.id = flow.id) (hstatus : flow'.status = flow.status)
    (hfields : .status ∉ updateFields ∧ .errMsg ∉ updateFields)
    (hf : ∀ flow' g', flow'.id = flow.id → flow'.status = flow.status → g.Extends g' →
      Behaves sound Q (f flow') g') :
    Behaves sound Q (saveAs .details flow flow' updateFields >>= f) g := by
  refine behaves_saveAs hid.symm hfields (by simp) ?_
  intro g' hext _ _
  exact hf flow' g' hid hstatus (hext (by simp))

theorem behaves_updateContext {params : Option (Option String)} {f : Flow → Act α}
    (hf : ∀ flow' g', flow'.id = flow.id → g.Extends g' → Behaves sound Q (f flow') g') :
    Behaves sound Q (updateContext flow params >>= f) g := by
  cases params with
  | none => exact hf _ _ rfl (.refl g)
  | some remark =>
    refine behaves_saveAs rfl (by simp [Saves]) (by simp) ?_
    intro g' hext _ _
    exact hf _ _ rfl (hext (by simp))

theorem behaves_plainBody :
    Behaves sound (fun r g' => r.1.id = flow.id ∧ g.Extends g') (plainBody flow) g := by
  rw [plainBody]
  refine behaves_ask ?_
  intro result g' hext
  dsimp only
  split
  · refine behaves_ask ?_
    intro expired g'' hext'
    refine behaves_saveDetails rfl rfl (by simp) ?_
    intro flow' g₃ hid _ hext₃
    exact ⟨hid, hext.trans (hext'.trans hext₃)⟩
  · exact ⟨rfl, hext⟩

/-- The gate: who gets through may start the body. -/
theorem behaves_checkFlowAck {f : Bool → Act Unit} {Q : Unit → Ghost → Prop} {id : ℕ}
    (hgate : g.gate = none) (hacked : ∀ g', Behaves sound Q (f true) g')
    (hf : ∀ g', g'.gate = some id → g.facts ⊆ g'.facts → Behaves sound Q (f false) g') :
    Behaves sound Q (perform (Op.checkFlowAck id) >>= f) g := by
  refine ⟨hgate, ?_⟩
  rintro acked g' ⟨-, -, rfl⟩
  cases acked with
  | true => exact hacked _
  | false => exact hf _ rfl (Ghost.after_facts _ _)

theorem behaves_startBody {f : Unit → Act α} {id : ℕ} (hgate : g.gate = some id)
    (hclear : Clears g.facts id) (hf : ∀ g', g.facts ⊆ g'.facts → Behaves sound Q (f ()) g') :
    Behaves sound Q (perform (Op.startBody id) >>= f) g := by
  refine ⟨⟨hgate, hclear⟩, ?_⟩
  rintro r g' ⟨-, -, rfl⟩
  exact hf _ (Ghost.after_facts _ _)

theorem behaves_getFlow {f : Flow → Act α} {id : ℕ}
    (hf : ∀ flow g', flow.id = id → sound flow → g.Extends g' → loaded flow ⊆ g'.facts →
      Behaves sound Q (f flow) g') :
    Behaves sound Q (perform (Op.getFlow id) >>= f) g := by
  refine ⟨trivial, ?_⟩
  rintro flow g' ⟨hsound, hid, rfl⟩
  exact hf flow _ (hid id rfl flow (.head _)) (hsound flow (.head _)) (Ghost.extends_after rfl)
    Set.subset_union_right

theorem behaves_baseRun (hgate : g.gate = none) (hclear : Clears g.facts flow.id) :
    Behaves sound Anyhow (baseRun flow) g := by
  rw [baseRun]
  refine behaves_checkFlowAck hgate (fun _ => trivial) ?_
  intro g₁ hgate₁ hfacts₁
  refine behaves_startBody hgate₁ (hclear.mono hfacts₁) ?_
  intro g₂ hfacts₂
  refine Behaves.bind behaves_plainBody ?_
  rintro ⟨flow', result⟩ g₃ ⟨hid, hext₃⟩
  have hclear' : Clears g₃.facts flow'.id := by
    rw [hid]
    exact hclear.mono (hfacts₁.trans (hfacts₂.trans hext₃.facts))
  cases result with
  | error err => exact behaves_runErrorStatusHandler hclear' err
  | ok flowObjId => exact behaves_runStatusHandler hclear' fun _ _ _ _ _ => trivial

theorem behaves_rootIdOf {f : String → Act α}
    (hf : ∀ rootId g', g.Extends g' → Behaves sound Q (f rootId) g') :
    Behaves sound Q (rootIdOf flow >>= f) g := by
  rw [rootIdOf]
  by_cases hset : flow.flowObjId ≠ ""
  · rw [if_pos hset]
    exact hf _ _ (.refl g)
  · rw [if_neg hset]
    exact behaves_ask hf

theorem behaves_taskBody (hclear : Clears g.facts flow.id) :
    Behaves sound Anyhow (taskBody flow) g := by
  rw [taskBody]
  refine behaves_getFlow ?_
  intro flow' g₁ hid _ hext₁ _
  refine behaves_ask ?_
  intro result g₂ hext₂
  cases result with
  | error err =>
    refine behaves_runErrorStatusHandler ?_ err
    rw [hid]
    exact hclear.mono (hext₁.trans hext₂).facts
  | ok _ => trivial

theorem behaves_asyncRunFlow {id : ℕ} (hclear : Clears g.facts id) :
    Behaves sound Anyhow (asyncRunFlow id) g := by
  rw [asyncRunFlow]
  refine behaves_getFlow ?_
  intro flow g₁ hid _ hext₁ _
  refine behaves_taskBody ?_
  rw [hid]
  exact hclear.mono hext₁.facts

theorem behaves_taskRun {asynchronous : Act Bool} (hgate : g.gate = none)
    (hclear : Clears g.facts flow.id)
    (hasync : ∀ g, Behaves sound (fun _ g' => g.Extends g') asynchronous g) :
    Behaves sound Anyhow (taskRun asynchronous flow) g := by
  rw [taskRun]
  refine behaves_checkFlowAck hgate (fun _ => trivial) ?_
  intro g₁ hgate₁ hfacts₁
  refine behaves_rootIdOf ?_
  intro rootId g₂ hext₂
  have hclear₂ : Clears g₂.facts flow.id := hclear.mono (hfacts₁.trans hext₂.facts)
  refine behaves_runStatusHandler hclear₂ ?_
  intro flow' g₃ hid _ hext₃
  refine behaves_ask ?_
  intro checked g₄ hext₄
  have hclear₄ : Clears g₄.facts flow'.id := by
    rw [hid]
    exact hclear₂.mono (hext₃.trans hext₄).facts
  cases checked with
  | error err => exact behaves_runErrorStatusHandler hclear₄ err
  | ok _ =>
    refine Behaves.bind (hasync g₄) ?_
    intro async g₅ hext₅
    have hgate₅ : g₅.gate = some flow'.id := by
      rw [hext₅.gate, hext₄.gate, hext₃.gate, hext₂.gate, hgate₁, hid]
    have hclear₅ := hclear₄.mono hext₅.facts
    refine behaves_startBody hgate₅ hclear₅ ?_
    intro g₆ hfacts₆
    have hclear₆ := hclear₅.mono hfacts₆
    cases async with
    | true =>
      refine ⟨hclear₆, ?_⟩
      rintro r g₇ ⟨-, -, rfl⟩
      exact behaves_saveDetails rfl rfl (by simp) fun _ _ _ _ _ => trivial
    | false => exact behaves_taskBody hclear₆

theorem behaves_innerRun (hgate : g.gate = none) (hclear : Clears g.facts flow.id) :
    Behaves sound Anyhow (innerRun flow) g :=
  behaves_taskRun hgate hclear fun _ => behaves_ask (f := Prog.done) fun _ _ hext => hext

theorem behaves_simpleTaskRun (hgate : g.gate = none) (hclear : Clears g.facts flow.id) :
    Behaves sound Anyhow (simpleTaskRun flow) g :=
  behaves_taskRun hgate hclear fun g => Ghost.Extends.refl g

theorem behaves_resourceApplyError (hclear : Clears g.facts flow.id) (hrun : flow.status = .running)
    (err : RunErr) : Behaves sound Anyhow (resourceApplyError flow err) g := by
  cases err with
  | insufficient text =>
    exact behaves_saveAs rfl ⟨hrun, by simp, by simp⟩ (by simp) fun _ _ _ _ => trivial
  | exclusive text => exact behaves_runErrorStatusHandler hclear _
  | other text => exact behaves_runErrorStatusHandler hclear _

/-- What is known of an object that counts as the current one. -/
structure Current (sound : Flow → Prop) (g : Ghost) (flow : Option Flow) (g' : Ghost) : Prop where
  grown : g.Extends g'
  sound : ∀ c, flow = some c → sound c
  loaded : ∀ c, flow = some c → loaded c ⊆ g'.facts
  pred : ∀ c id, flow = some c → c.id < id → .reached id ∈ g.facts → .pred c.id id ∈ g'.facts

theorem behaves_nextFlow {f : Option Flow → Act α}
    (hf : ∀ next g', Current sound g next g' →
      (∀ flow, next = some flow → .reached flow.id ∈ g'.facts) → Behaves sound Q (f next) g') :
    Behaves sound Q (perform Op.nextFlow >>= f) g := by
  refine ⟨trivial, ?_⟩
  rintro next g' ⟨hsound, -, rfl⟩
  cases next with
  | none => exact hf none _ ⟨Ghost.extends_after rfl, by simp, by simp, by simp⟩ (by simp)
  | some c =>
    have hknown : {.reached c.id} ∪ loaded c ∪ current c g.facts ⊆ (g.after .nextFlow (some c)).facts :=
      Set.subset_union_right
    refine hf (some c) _ ⟨Ghost.extends_after rfl, ?_, ?_, ?_⟩ ?_
    · rintro c' ⟨⟩
      exact hsound c (.head _)
    · rintro c' ⟨⟩
      exact fun fact h => hknown (.inl (.inr h))
    · rintro c' id ⟨⟩ hlt hreached
      exact hknown (.inr ⟨id, rfl, hreached, hlt⟩)
    · rintro c' ⟨⟩
      exact hknown (.inl (.inl rfl))

theorem behaves_lastStarted : Behaves sound (Current sound g) (perform Op.lastStarted) g := by
  refine ⟨trivial, ?_⟩
  rintro last g' ⟨hsound, -, rfl⟩
  cases last with
  | none => exact ⟨Ghost.extends_after rfl, by simp, by simp, by simp⟩
  | some c =>
    have hknown : loaded c ∪ current c g.facts ⊆ (g.after .lastStarted (some c)).facts :=
      Set.subset_union_right
    refine ⟨Ghost.extends_after rfl, ?_, ?_, ?_⟩
    · rintro c' ⟨⟩
      exact hsound c (.head _)
    · rintro c' ⟨⟩
      exact fun fact h => hknown (.inl h)
    · rintro c' id ⟨⟩ hlt hreached
      exact hknown (.inr ⟨id, rfl, hreached, hlt⟩)

theorem behaves_resourceApplyBody (hclear : Clears g.facts flow.id) (hrun : flow.status = .running) :
    Behaves sound Anyhow (resourceApplyBody flow) g := by
  refine behaves_nextFlow ?_
  intro next g₁ hcurrent _
  have hclear₁ := hclear.mono hcurrent.grown.facts
  cases next with
  | none => exact behaves_resourceApplyError hclear₁ hrun _
  | some nextFlow =>
    dsimp only
    split
    · exact behaves_resourceApplyError hclear₁ hrun _
    · refine behaves_ask ?_
      intro rootId g₂ hext₂
      have hnext := hcurrent.sound nextFlow rfl
      refine behaves_saveAs rfl ⟨rfl, rfl, by simp [allFields], hnext⟩ (by simp) ?_
      intro g₃ _ hfacts₃ _
      refine behaves_ask ?_
      intro applied g₄ hext₄
      have hclear₄ := hclear₁.mono (hext₂.facts.trans (hfacts₃.trans hext₄.facts))
      cases applied with
      | error err => exact behaves_resourceApplyError hclear₄ hrun err
      | ok _ =>
        refine behaves_saveDetails rfl rfl (by simp) ?_
        intro _ g₅ _ _ hext₅
        refine behaves_saveDetails rfl rfl (by simp) ?_
        intro flow' g₆ hid hstatus hext₆
        refine behaves_ask ?_
        intro called g₇ hext₇
        cases called with
        | error err =>
          refine behaves_resourceApplyError ?_ (hstatus.trans hrun) err
          rw [hid]
          exact hclear₄.mono (hext₅.trans (hext₆.trans hext₇)).facts
        | ok _ => trivial

theorem behaves_resourceApplyRun (hgate : g.gate = none) (hclear : Clears g.facts flow.id) :
    Behaves sound Anyhow (resourceApplyRun flow) g := by
  rw [resourceApplyRun]
  refine behaves_checkFlowAck hgate (fun _ => trivial) ?_
  intro g₁ hgate₁ hfacts₁
  refine behaves_ask ?_
  intro rootId g₂ hext₂
  have hclear₂ := hclear.mono (hfacts₁.trans hext₂.facts)
  refine behaves_runStatusHandler hclear₂ ?_
  intro flow' g₃ hid hrun hext₃
  have hclear₃ : Clears g₃.facts flow'.id := by
    rw [hid]
    exact hclear₂.mono hext₃.facts
  refine behaves_startBody ?_ hclear₃ ?_
  · rw [hext₃.gate, hext₂.gate, hgate₁, hid]
  · intro g₄ hfacts₄
    exact behaves_resourceApplyBody (hclear₃.mono hfacts₄) hrun

/-- `run` of any flow. -/
theorem behaves_run (hgate : g.gate = none) (hclear : Clears g.facts flow.id) :
    Behaves sound Anyhow (run flow) g := by
  rw [run]
  split
  · exact behaves_baseRun hgate hclear
  · exact behaves_innerRun hgate hclear
  · exact behaves_innerRun hgate hclear
  · exact behaves_innerRun hgate hclear
  · exact behaves_baseRun hgate hclear
  · exact behaves_baseRun hgate hclear
  · exact behaves_baseRun hgate hclear
  · exact behaves_baseRun hgate hclear
  · exact behaves_resourceApplyRun hgate hclear
  · exact behaves_baseRun hgate hclear
  · exact behaves_baseRun hgate hclear
  · exact behaves_resourceApplyRun hgate hclear
  · exact behaves_simpleTaskRun hgate hclear
  · exact behaves_simpleTaskRun hgate hclear

/-- A retry first saves the flow as running again, which tells that it had begun. -/
theorem behaves_retryWith {run : Flow → Act Unit} (hgate : g.gate = none)
    (hrun : ∀ flow g, g.gate = none → Clears g.facts flow.id → Behaves sound Anyhow (run flow) g) :
    Behaves sound Anyhow (retryWith run flow) g := by
  rw [retryWith]
  refine behaves_flushErrorStatusHandler ?_
  intro flow' g' _ hext hclear
  exact hrun flow' g' (hext.gate.trans hgate) hclear

theorem behaves_retry (hgate : g.gate = none) : Behaves sound Anyhow (retry flow) g := by
  rw [retry]
  split
  · refine behaves_saveDetails rfl rfl (by simp) ?_
    intro flow' g' _ _ hext
    exact behaves_retryWith (hext.gate.trans hgate) fun _ _ => behaves_run
  · exact behaves_retryWith hgate fun _ _ => behaves_run

theorem behaves_currentFlow : Behaves sound (Current sound g) currentFlow g := by
  rw [currentFlow]
  refine ⟨trivial, ?_⟩
  rintro any g' ⟨-, -, rfl⟩
  have hext : g.Extends (g.after .anyStarted any) := Ghost.extends_after rfl
  have hgrow : ∀ c g', Current sound (g.after .anyStarted any) c g' → Current sound g c g' := by
    intro c g' h
    exact ⟨hext.trans h.grown, h.sound, h.loaded, fun c id hc hlt hr => h.pred c id hc hlt (hext.facts hr)⟩
  cases any with
  | true => exact Behaves.mono behaves_lastStarted hgrow
  | false => exact behaves_nextFlow (f := Prog.done) fun c g' h _ => hgrow c g' h

theorem behaves_firstFlow {f : Option Flow → Act α}
    (hf : ∀ first g', g.Extends g' → (∀ flow, first = some flow → Clears g'.facts flow.id) →
      Behaves sound Q (f first) g') :
    Behaves sound Q (perform Op.firstFlow >>= f) g := by
  refine ⟨trivial, ?_⟩
  rintro first g' ⟨-, -, rfl⟩
  refine hf first _ (Ghost.extends_after rfl) ?_
  rintro flow rfl
  exact .inl (.inr rfl)

/-- Who takes the next flow and then the current one, and finds the current one finished, knows that
all flows before the next one have been passed. -/
theorem behaves_runNextFlow (hgate : g.gate = none) : Behaves sound Anyhow runNextFlow g := by
  rw [runNextFlow]
  refine behaves_nextFlow ?_
  intro next g₁ hnext hreached
  refine Behaves.bind behaves_currentFlow ?_
  intro current g₂ hcurrent
  cases next with
  | none => trivial
  | some nextFlow =>
    refine behaves_firstFlow ?_
    intro first g₃ hext₃ hfirst
    cases current with
    | none => trivial
    | some currentFlow =>
      dsimp only
      split
      · trivial
      · rename_i hnot
        refine Behaves.bind (behaves_status (hcurrent.sound currentFlow rfl)) ?_
        intro status g₄ hstatus
        split
        · rename_i hgo
          refine behaves_run ?_ ?_
          · rw [hstatus.grown.gate, hext₃.gate, hcurrent.grown.gate, hnext.grown.gate, hgate]
          · by_cases hinit : first.map Flow.id = some nextFlow.id
            · obtain ⟨h, hh, hid⟩ := Option.map_eq_some_iff.mp hinit
              rw [← hid]
              exact (hfirst h hh).mono hstatus.grown.facts
            · have hlt : currentFlow.id < nextFlow.id := by
                simp [hinit] at hnot
                omega
              have hfin : status ∈ flowFinishedStatus := by simpa [hinit] using hgo
              have hpred := hcurrent.pred currentFlow _ rfl hlt (hreached nextFlow rfl)
              have hknown := hstatus.finished ((hcurrent.loaded currentFlow rfl).trans hext₃.facts) hfin
              exact .inr ⟨_, (hext₃.trans hstatus.grown).facts hpred, hknown.1, hknown.2⟩
        · trivial

theorem behaves_updateStatus_terminated :
    Behaves sound Anyhow (updateStatus .flushRevoke flow .terminated) g := by
  rw [updateStatus]
  split
  · exact behaves_saveAs rfl (by simp [Saves]) (by simp) fun _ _ _ _ => trivial
  · trivial

theorem behaves_flushRevokeStatusHandler (remark : String) (expireTime : Option ℤ) :
    Behaves sound Anyhow (flushRevokeStatusHandler flow remark expireTime >>= fun _ => .done ()) g :=
  behaves_saveAs rfl (by simp [Saves]) (by simp) fun _ _ _ _ => trivial

/-- What is known when a call is made: a direct run relies on its caller. -/
def Call.known : Call → Ghost
  | .run id => ⟨none, {.clear id}⟩
  | _ => ⟨none, ∅⟩

theorem behaves_act (call : Call) : Behaves sound Anyhow call.act call.known := by
  cases call with
  | runNextFlow => exact behaves_runNextFlow rfl
  | run id =>
    refine behaves_getFlow ?_
    intro flow g' hid _ hext _
    refine behaves_run hext.gate ?_
    rw [hid]
    exact .inl (hext.facts rfl)
  | retry id =>
    refine behaves_getFlow ?_
    intro flow g' _ _ hext _
    exact behaves_retry hext.gate
  | retryExclusiveInnerFlow id =>
    refine behaves_getFlow ?_
    intro flow g' _ _ hext _
    split
    · exact behaves_retryWith hext.gate fun _ _ => behaves_innerRun
    · trivial
  | confirmTodo id params =>
    refine behaves_getFlow ?_
    intro flow g' _ _ hext _
    refine behaves_updateContext ?_
    intro flow' g'' _ hext'
    exact behaves_retry (hext'.gate.trans hext.gate)
  | terminateTodo id params =>
    refine behaves_getFlow ?_
    intro flow g' _ _ _ _
    refine behaves_updateContext ?_
    intro flow' g'' _ _
    exact Behaves.bind behaves_updateStatus_terminated fun _ _ _ => trivial
  | revoke id remark expireTime =>
    refine behaves_getFlow ?_
    intro flow g' _ _ _ _
    exact behaves_flushRevokeStatusHandler remark expireTime
  | readStatus id =>
    refine behaves_getFlow ?_
    intro flow g' _ hsound _ _
    exact Behaves.bind (behaves_status hsound) fun _ _ _ => trivial
  | addRelatedTicket done => exact ⟨trivial, fun _ _ _ => trivial⟩
  | updateTicketStatus => exact behaves_updateTicketStatus

/-- What a call starts begins where its caller is. -/
theorem behaves_follow {o : Op} {r : Res o} {p : Act Unit} (hP : Permitted sound o g)
    (hp : p ∈ follow o r) : Behaves sound Anyhow p ⟨none, g.facts⟩ := by
  rcases follow_cases hp with ⟨id, rfl, rfl⟩ | rfl
  · exact behaves_asyncRunFlow hP
  · exact behaves_updateTicketStatus

end Ticket
