import Mathlib.Data.Set.Basic
import BluekingDbm.Ticket.Manager

/-! What each part of the flow manager does, however its operations are answered: from which objects it
saves, and what it has found out when it starts a flow. -/
namespace Ticket

open Program

/-- The types whose result is not waited for. -/
def notAwaited : List FlowType := [.quickInnerFlow, .ignoreResultInnerFlow]

/-- A flow that the next one need not wait for. -/
def Passed (flow : Flow) : Prop :=
  flow.status ∈ flowFinishedStatus ∨ (flow.flowType ∈ notAwaited ∧ flow.status ≠ .pending)

instance (flow : Flow) : Decidable (Passed flow) :=
  inferInstanceAs (Decidable (_ ∨ _))

/-- A flow that was run and was not called off. -/
def Begun (flow : Flow) : Prop := flow.status ∈ [.running, .failed, .succeeded, .skipped]

instance (flow : Flow) : Decidable (Begun flow) := inferInstanceAs (Decidable (_ ∈ _))

/-- What a worker may have found out, once and for all, about the rows. -/
inductive Fact
  | clear (id : ℕ)
  | reached (id : ℕ)
  | pred (id next : ℕ)
  | passed (id : ℕ)

/-- The flow whose gate the worker has passed without starting its body, and what it has found out. -/
structure Ghost where
  gate : Option ℕ
  facts : Set Fact

/-- All flows before `id` have been passed. -/
def Clears (facts : Set Fact) (id : ℕ) : Prop :=
  .clear id ∈ facts ∨ ∃ c, .pred c id ∈ facts ∧ .clear c ∈ facts ∧ .passed c ∈ facts

/-- What an object that was just loaded says. -/
def loaded (flow : Flow) : Set Fact :=
  { fact | (fact = .clear flow.id ∧ Begun flow) ∨ (fact = .passed flow.id ∧ Passed flow) }

/-- What a save says that was made. -/
def saved (flow : Flow) : Origin → Set Fact
  | .getter => { fact | flow.status ∈ flowFinishedStatus ∧
      (fact = .clear flow.id ∨ fact = .passed flow.id) }
  | .flushError => {.clear flow.id}
  | _ => ∅

/-- What it says of a flow that it comes before one that was reached: between them there is none. -/
def current (flow : Flow) (facts : Set Fact) : Set Fact :=
  { fact | ∃ id, fact = .pred flow.id id ∧ .reached id ∈ facts ∧ flow.id < id }

/-- Among the rows that are not pending the last one is current. No row before one that was reached is
found pending later. -/
def learned : (o : Op) → Res o → Set Fact → Set Fact
  | .nextFlow, some flow, facts => {.reached flow.id} ∪ loaded flow ∪ current flow facts
  | .lastStarted, some flow, facts => loaded flow ∪ current flow facts
  | .firstFlow, some flow, _ => {.clear flow.id}
  | .getFlow _, flow, _ => loaded flow
  | .save origin _ flow _, _, _ => saved flow origin
  | _, _, _ => ∅

def gateAfter : (o : Op) → Res o → Option ℕ → Option ℕ
  | .checkFlowAck id, false, _ => some id
  | .startBody _, _, _ => none
  | .save origin _ _ _, _, gate => if origin = .runError then none else gate
  | _, _, gate => gate

def Ghost.after (g : Ghost) (o : Op) (r : Res o) : Ghost :=
  ⟨gateAfter o r g.gate, g.facts ∪ learned o r g.facts⟩

/-- The objects that an answer hands over. -/
def objects : (o : Op) → Res o → List Flow
  | .nextFlow, flow => flow.toList
  | .lastStarted, flow => flow.toList
  | .firstFlow, flow => flow.toList
  | .getFlow _, flow => [flow]
  | .listFlows, flows => flows
  | _, _ => []

/-- An answer hands over objects that are `sound`, and the one asked for. -/
def Answered (sound : Flow → Prop) (o : Op) (g : Ghost) (r : Res o) (g' : Ghost) : Prop :=
  (∀ flow ∈ objects o r, sound flow) ∧ (∀ id, o = .getFlow id → ∀ flow ∈ objects o r, flow.id = id) ∧
    g' = g.after o r

/-- The objects whose status is asked of the class of their type. -/
def Readable (sound : Flow → Prop) (flow : Flow) : Prop :=
  flow.status ∈ [.running, .failed] ∨
    (flow.status = .pending ∧ flow.flowType ∈ flowTaskTypes ∧ flow.hasErrMsg = true ∧ sound flow)

/-- What a save of the given origin may be made of. -/
def Saves (sound : Flow → Prop) (held flow : Flow) (updateFields : List Field) : Origin → Prop
  | .getter => .status ∈ updateFields ∧
      (isResourceApply held = false → Readable sound held ∧ flow.status ≠ .pending)
  | .run => flow.status = .running ∧ .status ∈ updateFields ∧ .errMsg ∉ updateFields
  | .runError => flow.status = .failed ∧ .status ∈ updateFields
  | .lack => held.status = .running ∧ .status ∉ updateFields ∧ .errMsg ∈ updateFields
  | .flushError => flow.status = .running ∧ .status ∈ updateFields
  | .flushRevoke => flow.status = .terminated ∧ .status ∈ updateFields ∧ .errMsg ∉ updateFields
  | .context => .status ∉ updateFields ∧ .errMsg ∉ updateFields
  | .details => .status ∉ updateFields ∧ .errMsg ∉ updateFields
  | .whole => flow.status = held.status ∧ flow.errMsg = held.errMsg ∧ .status ∈ updateFields ∧ sound held

def Permitted (sound : Flow → Prop) : Op → Ghost → Prop
  | .checkFlowAck _, g => g.gate = none
  | .startBody id, g => g.gate = some id ∧ Clears g.facts id
  | .applyAsync id, g => Clears g.facts id
  | .save origin held flow updateFields, g => held.id = flow.id ∧
      Saves sound held flow updateFields origin ∧
      (origin = .run ∨ origin = .runError → Clears g.facts flow.id)
  | .writeTicket seen target, _ => targetStatus seen = some target
  | .leaveTicket seen, _ => targetStatus seen = none
  | _, _ => True

/-- However its operations are answered, `p` does only what is permitted and ends in `Q`. -/
def Behaves {α : Type} (sound : Flow → Prop) (Q : α → Ghost → Prop) (p : Act α) (g : Ghost) : Prop :=
  Ensures (Permitted sound) (Answered sound) Q p g

/-- The same gate, and no less known. -/
structure Ghost.Extends (g g' : Ghost) : Prop where
  gate : g'.gate = g.gate
  facts : g.facts ⊆ g'.facts

variable {α β : Type} {sound : Flow → Prop} {flow : Flow} {g g' g'' : Ghost} {id : ℕ}

theorem Ghost.Extends.refl (g : Ghost) : g.Extends g := ⟨rfl, subset_rfl⟩

theorem Ghost.Extends.trans (h : g.Extends g') (h' : g'.Extends g'') : g.Extends g'' :=
  ⟨h'.gate.trans h.gate, h.facts.trans h'.facts⟩

theorem Clears.mono {facts facts' : Set Fact} (h : Clears facts id) (hsub : facts ⊆ facts') :
    Clears facts' id := by
  rcases h with h | ⟨c, hpred, hclear, hpassed⟩
  · exact .inl (hsub h)
  · exact .inr ⟨c, hsub hpred, hsub hclear, hsub hpassed⟩

theorem Ghost.after_facts (o : Op) (r : Res o) : g.facts ⊆ (g.after o r).facts :=
  Set.subset_union_left

/-- An operation that leaves the gate alone. -/
theorem Ghost.extends_after {o : Op} {r : Res o} (h : gateAfter o r g.gate = g.gate) :
    g.Extends (g.after o r) := ⟨h, Ghost.after_facts o r⟩

theorem Behaves.mono {p : Act α} {Q Q' : α → Ghost → Prop} (h : Behaves sound Q p g)
    (hQ : ∀ a g', Q a g' → Q' a g') : Behaves sound Q' p g := Ensures.mono h hQ

theorem Behaves.bind {p : Act α} {f : α → Act β} {Q : α → Ghost → Prop} {Q' : β → Ghost → Prop}
    (h : Behaves sound Q p g) (hf : ∀ a g', Q a g' → Behaves sound Q' (f a) g') :
    Behaves sound Q' (p >>= f) g := Ensures.bind h hf

/-- Answers from the rows hand over rows. -/
theorem answered_of_served {w : ℕ} {db db' : Database} {o : Op} {r : Res o}
    (hsound : ∀ flow ∈ db.flows, sound flow) (h : Served w db o r db') :
    Answered sound o g r (g.after o r) := by
  refine ⟨?_, ?_, rfl⟩
  · intro flow hflow
    cases h with
    | listFlows hperm => exact hsound flow (hperm.subset hflow)
    | nextFlow => exact hsound flow (List.mem_of_find?_eq_some (Option.mem_toList.mp hflow))
    | lastStarted =>
      have hmem := List.mem_of_find?_eq_some (Option.mem_toList.mp hflow)
      exact hsound flow (List.mem_reverse.mp hmem)
    | firstFlow => exact hsound flow (List.mem_of_head? (Option.mem_toList.mp hflow))
    | getFlow hmem =>
      obtain rfl := List.mem_singleton.mp hflow
      exact hsound _ hmem
    | _ => cases hflow
  · rintro id rfl flow hflow
    cases h with
    | getFlow _ hid =>
      obtain rfl := List.mem_singleton.mp hflow
      exact hid

theorem behaves_ask {q : Query} {f : Answer q → Act α} {Q : α → Ghost → Prop}
    (hf : ∀ r g', g.Extends g' → Behaves sound Q (f r) g') : Behaves sound Q (ask q >>= f) g := by
  refine ⟨trivial, ?_⟩
  rintro r g' ⟨-, -, rfl⟩
  exact hf r _ (Ghost.extends_after rfl)

/-- A save that leaves the gate alone. -/
theorem behaves_saveAs {origin : Origin} {held : Flow} {updateFields : List Field}
    {f : Flow → Act α} {Q : α → Ghost → Prop} (hid : held.id = flow.id)
    (hsaves : Saves sound held flow updateFields origin)
    (hclears : origin = .run ∨ origin = .runError → Clears g.facts flow.id)
    (hf : ∀ g', (origin ≠ .runError → g.Extends g') → g.facts ⊆ g'.facts →
      saved flow origin ⊆ g'.facts → Behaves sound Q (f flow) g') :
    Behaves sound Q (saveAs origin held flow updateFields >>= f) g := by
  refine ⟨⟨hid, hsaves, hclears⟩, ?_⟩
  rintro r g' ⟨-, -, rfl⟩
  refine hf _ ?_ (Ghost.after_facts _ _) Set.subset_union_right
  intro hne
  exact Ghost.extends_after (if_neg hne)

end Ticket
