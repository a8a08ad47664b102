import Mathlib.Data.List.Pairwise
import BluekingDbm.Ticket.Execution

/-! What a worker has found out about the rows, and why it stays true: rows do not become pending again,
and new ones come last. -/
namespace Ticket

open Program

variable {db db' : Database} {w : ℕ} {g : Ghost} {id : ℕ} {fact : Fact} {row : Flow}

/-- No row of the listing before `id` is in the way. -/
def InOrder (rows : List Flow) (id : ℕ) : Prop := ∀ row ∈ rows, row.id < id → Passed row

/-- A flow that has begun has all flows before it behind it, and no error is noted on a flow that was not
run. -/
structure Ordered (db : Database) : Prop where
  sorted : db.flows.Pairwise fun a b => a.id < b.id
  begun : ∀ row ∈ db.flows, Begun row → InOrder db.flows row.id
  clean : ∀ row ∈ db.flows, row.status = .pending → row.hasErrMsg = false
  starts : ∀ id rows, .started id rows ∈ db.trace → InOrder rows id

/-- An object that carries no error unless it was run. -/
def Clean (flow : Flow) : Prop := flow.status = .pending → flow.hasErrMsg = false

section Facts

def Fact.subject : Fact → ℕ
  | .clear id => id
  | .reached id => id
  | .pred _ next => next
  | .passed id => id

/-- What a fact says of a row. -/
def Fact.About (row : Flow) : Fact → Prop
  | .clear id => row.id < id → Passed row
  | .reached id => row.id < id → row.status ≠ .pending
  | .pred id next => row.id < next → row.id ≤ id
  | .passed id => row.id = id → Passed row

/-- A fact is about a flow that exists, and about all rows. -/
def Fact.Holds (fact : Fact) (db : Database) : Prop :=
  (∃ row ∈ db.flows, row.id = fact.subject) ∧ ∀ row ∈ db.flows, fact.About row

/-- Everything that a worker has found out holds. -/
def Knows (_ : ℕ) (g : Ghost) (db : Database) : Prop := ∀ fact ∈ g.facts, fact.Holds db

theorem holds_clear_of_clears (hg : Knows w g db) (h : Clears g.facts id) :
    Fact.Holds (.clear id) db := by
  rcases h with h | ⟨c, hpred, hclear, hpassed⟩
  · exact hg _ h
  · refine ⟨(hg _ hpred).1, ?_⟩
    intro row hrow hlt
    rcases Nat.lt_or_eq_of_le ((hg _ hpred).2 row hrow hlt) with hbefore | hsame
    · exact (hg _ hclear).2 row hrow hbefore
    · exact (hg _ hpassed).2 row hrow hsame

/-- What becomes of a row: it does not become pending again, who could pass it still can, and what was
terminated stays so. -/
structure Advances (old row : Flow) : Prop where
  id : row.id = old.id
  flowType : row.flowType = old.flowType
  passed : Passed old → Passed row
  started : old.status ≠ .pending → row.status ≠ .pending
  terminated : old.status = .terminated → row.status = .terminated

theorem Advances.refl (row : Flow) : Advances row row :=
  ⟨rfl, rfl, fun h => h, fun h => h, fun h => h⟩

/-- The status stays as it is. -/
theorem advances_of_status {old row : Flow} (hid : row.id = old.id) (htype : row.flowType = old.flowType)
    (hstatus : row.status = old.status) : Advances old row := by
  refine ⟨hid, htype, ?_, ?_, ?_⟩
  · intro h
    rwa [Passed, hstatus, htype]
  · intro h
    rwa [hstatus]
  · intro h
    rwa [hstatus]

/-- Rows advance, and new ones come last. -/
structure Grows (db db' : Database) : Prop where
  kept : ∀ row ∈ db.flows, ∃ row' ∈ db'.flows, row'.id = row.id
  rows : ∀ row' ∈ db'.flows, (∃ row ∈ db.flows, Advances row row') ∨ ∀ row ∈ db.flows, row.id < row'.id

/-- What was found out once stays true. -/
theorem Fact.Holds.mono (h : fact.Holds db) (hgrows : Grows db db') : fact.Holds db' := by
  obtain ⟨⟨row₀, hrow₀, hid₀⟩, hall⟩ := h
  constructor
  · obtain ⟨row', hrow', hid'⟩ := hgrows.kept row₀ hrow₀
    exact ⟨row', hrow', hid'.trans hid₀⟩
  · intro row' hrow'
    rcases hgrows.rows row' hrow' with ⟨row, hrow, hadv⟩ | hnew
    · have habout := hall row hrow
      cases fact with
      | clear id => exact fun hlt => hadv.passed (habout (hadv.id ▸ hlt))
      | reached id => exact fun hlt => hadv.started (habout (hadv.id ▸ hlt))
      | pred id next => exact fun hlt => hadv.id ▸ habout (hadv.id ▸ hlt)
      | passed id => exact fun heq => hadv.passed (habout (hadv.id ▸ heq))
    · have hlt := hnew row₀ hrow₀
      rw [hid₀] at hlt
      cases fact with
      | clear id => exact fun h => absurd hlt (Nat.lt_asymm h)
      | reached id => exact fun h => absurd hlt (Nat.lt_asymm h)
      | pred id next => exact fun h => absurd hlt (Nat.lt_asymm h)
      | passed id => exact fun h => absurd hlt (Nat.not_lt_of_ge (Nat.le_of_eq h))

theorem Knows.mono (h : Knows w g db) (hgrows : Grows db db') : Knows w g db' :=
  fun fact hfact => (h fact hfact).mono hgrows

end Facts

section Rows

theorem eq_of_id (hdb : Ordered db) {a b : Flow} (ha : a ∈ db.flows) (hb : b ∈ db.flows)
    (h : a.id = b.id) : a = b := by
  have : Std.Symm fun a b : Flow => a.id ≠ b.id := ⟨fun _ _ h => h.symm⟩
  by_contra hne
  exact (hdb.sorted.imp fun hlt => Nat.ne_of_lt hlt).forall ha hb hne h

/-- The first row that passes a test comes before all others that do. -/
theorem not_of_lt_find? (hdb : Ordered db) {p : Flow → Bool} {first : Flow}
    (h : db.flows.find? p = some first) (hrow : row ∈ db.flows) (hlt : row.id < first.id) :
    p row = false := by
  obtain ⟨-, before, after, heq, hnot⟩ := List.find?_eq_some_iff_append.mp h
  have hsorted := heq ▸ hdb.sorted
  rw [heq] at hrow
  rcases List.mem_append.mp hrow with hrow | hrow
  · simpa using hnot row hrow
  · rcases List.mem_cons.mp hrow with rfl | hrow
    · omega
    · have := List.rel_of_pairwise_cons (List.pairwise_append.mp hsorted).2.1 hrow
      omega

/-- The last row that passes a test comes after all others that do. -/
theorem le_of_find?_reverse (hdb : Ordered db) {p : Flow → Bool} {last : Flow}
    (h : db.flows.reverse.find? p = some last) (hrow : row ∈ db.flows) (hp : p row = true) :
    row.id ≤ last.id := by
  obtain ⟨-, after, before, heq, hnot⟩ := List.find?_eq_some_iff_append.mp h
  have hsorted : (after ++ last :: before).Pairwise fun a b => b.id < a.id := by
    rw [← heq]
    exact List.pairwise_reverse.mpr hdb.sorted
  have hrow' : row ∈ after ++ last :: before := heq ▸ List.mem_reverse.mpr hrow
  rcases List.mem_append.mp hrow' with hrow' | hrow'
  · have := hnot row hrow'
    simp [hp] at this
  · rcases List.mem_cons.mp hrow' with rfl | hrow'
    · exact Nat.le_refl _
    · have := List.rel_of_pairwise_cons (List.pairwise_append.mp hsorted).2.1 hrow'
      omega

theorem le_of_head? (hdb : Ordered db) {first : Flow} (h : db.flows.head? = some first)
    (hrow : row ∈ db.flows) : first.id ≤ row.id := by
  obtain ⟨rest, heq⟩ := List.head?_eq_some_iff.mp h
  have hsorted := heq ▸ hdb.sorted
  rw [heq] at hrow
  rcases List.mem_cons.mp hrow with rfl | hrow
  · exact Nat.le_refl _
  · exact Nat.le_of_lt (List.rel_of_pairwise_cons hsorted hrow)

theorem begun_of_live {held : Flow} (h : held.status ∈ [.running, .failed]) : Begun held := by
  simp only [List.mem_cons, List.not_mem_nil, or_false] at h
  rcases h with h | h <;> simp [Begun, h]

theorem begun_congr {a b : Flow} (h : a.status = b.status) : Begun a ↔ Begun b := by
  rw [Begun, Begun, h]

/-- What a row says that was just read. -/
theorem holds_of_loaded (hdb : Ordered db) (hrow : row ∈ db.flows) (h : fact ∈ loaded row) :
    fact.Holds db := by
  rcases h with ⟨rfl, hbegun⟩ | ⟨rfl, hpassed⟩
  · exact ⟨⟨row, hrow, rfl⟩, hdb.begun row hrow hbegun⟩
  · refine ⟨⟨row, hrow, rfl⟩, ?_⟩
    intro row' hrow' hid
    rwa [eq_of_id hdb hrow' hrow hid]

/-- A row that is the last one started when it is looked for comes right before what was reached. -/
theorem holds_of_current (hg : Knows w g db)
    (hlast : ∀ r ∈ db.flows, r.status ≠ .pending → r.id ≤ row.id) (h : fact ∈ current row g.facts) :
    fact.Holds db := by
  obtain ⟨id, rfl, hreached, hlt⟩ := h
  obtain ⟨hexists, hall⟩ := hg _ hreached
  refine ⟨hexists, ?_⟩
  intro r hr hid
  exact hlast r hr (hall r hr hid)

end Rows

end Ticket
