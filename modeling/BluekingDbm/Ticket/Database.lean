import BluekingDbm.Library.Crew
import BluekingDbm.Ticket.Flow

/-! What the workers do to the database of one ticket, one operation at a time. -/
namespace Ticket

open Program

inductive ItsmTicketStatus
  | running
  | finished
  | revoked
  | terminated
deriving DecidableEq

/-- What a part of a flow outside of the database may raise. -/
inductive RunErr
  | exclusive (text : String)
  | insufficient (text : String)
  | other (text : String)
deriving DecidableEq

def RunErr.text : RunErr → String
  | .exclusive text => text
  | .insufficient text => text
  | .other text => text

/-- What is not in the rows: todos, pipelines, the approval service, clocks, and what a flow's own
code comes to. -/
inductive Query
  | todoUnfinished
  | lackUnfinished
  | flowTree (rootId : String)
  | ticketApprovalResult (sn : String)
  | triggerLater
  | triggerExpired
  | generateRootId
  | countReached
  | asyncBuild
  | outcome

abbrev Answer : Query → Type
  | .todoUnfinished => Bool
  | .lackUnfinished => Bool
  | .flowTree _ => Option StateType
  | .ticketApprovalResult _ => ItsmTicketStatus × Bool
  | .triggerLater => Bool
  | .triggerExpired => Bool
  | .generateRootId => String
  | .countReached => Bool
  | .asyncBuild => Bool
  | .outcome => Except RunErr String

/-- Which part of the code a save belongs to. -/
inductive Origin
  | getter
  | run
  | runError
  | lack
  | flushError
  | flushRevoke
  | context
  | details
  | whole
deriving DecidableEq

/-- `save` carries the object as it was before its last change, and as it is saved; only the latter
matters for the rows. -/
inductive Op
  | listFlows
  | nextFlow
  | anyStarted
  | lastStarted
  | firstFlow
  | getFlow (id : ℕ)
  | checkFlowAck (id : ℕ)
  | startBody (id : ℕ)
  | applyAsync (id : ℕ)
  | save (origin : Origin) (held flow : Flow) (updateFields : List Field)
  | createFlow (done : Bool)
  | ask (q : Query)
  | writeTicket (seen : List (Flow × TicketFlowStatus)) (target : TicketStatus)
  | leaveTicket (seen : List (Flow × TicketFlowStatus))

abbrev Res : Op → Type
  | .listFlows => List Flow
  | .nextFlow => Option Flow
  | .anyStarted => Bool
  | .lastStarted => Option Flow
  | .firstFlow => Option Flow
  | .getFlow _ => Flow
  | .checkFlowAck _ => Bool
  | .startBody _ => Unit
  | .applyAsync _ => Unit
  | .save .. => Unit
  | .createFlow _ => Unit
  | .ask q => Answer q
  | .writeTicket .. => Unit
  | .leaveTicket _ => Unit

abbrev Act := Prog Res

/-- The starts of bodies, with the rows of that moment, and the errors recorded in rows. A body that
is left to a task of its own counts as started. -/
inductive Trace
  | started (id : ℕ) (rows : List Flow)
  | failed (id : ℕ)

/-- The rows in the order of their ids. `door` lists who has passed the gate of a flow and has not
started its body yet; `trace` is newest first. Both are there for the statements only. -/
structure Database where
  flows : List Flow
  ticketStatus : TicketStatus
  door : List (ℕ × ℕ)
  trace : List Trace

/-- An update of the rows with an id. -/
def updateRow (flows : List Flow) (id : ℕ) (f : Flow → Flow) : List Flow :=
  flows.map fun row => if row.id = id then f row else row

/-- The rows after a save. -/
def saveFlow (flows : List Flow) (flow : Flow) (updateFields : List Field) : List Flow :=
  updateRow flows flow.id fun row => row.store flow updateFields

/-- A save that leaves an error in the row. -/
def recordsError (flow : Flow) (updateFields : List Field) : Bool :=
  decide (.status ∈ updateFields ∧ flow.status = .failed) ||
    (decide (.errMsg ∈ updateFields) && flow.hasErrMsg)

def newFlow (flows : List Flow) (done : Bool) : Flow where
  id := (flows.map Flow.id).foldr max 0 + 1
  flowType := .delivery
  flowObjId := ""
  details := ⟨false, none⟩
  status := if done then .succeeded else .pending
  errMsg := none
  errCode := none
  retryType := none
  context := ⟨false, none, none⟩

def isPending (flow : Flow) : Bool := decide (flow.status = .pending)

/-- One operation of the `w`-th worker. What the rows do not decide is taken from `c`. -/
def serve (w : ℕ) (c : (o : Op) → Res o) : (o : Op) → Database → Option (Res o × Database)
  | .listFlows, db =>
    if List.isPerm (c .listFlows) db.flows then some (c .listFlows, db) else none
  | .nextFlow, db => some (db.flows.find? isPending, db)
  | .anyStarted, db => some (db.flows.any fun flow => !isPending flow, db)
  | .lastStarted, db => some (db.flows.reverse.find? fun flow => !isPending flow, db)
  | .firstFlow, db => some (db.flows.head?, db)
  | .getFlow id, db => (db.flows.find? fun flow => decide (flow.id = id)).map fun flow => (flow, db)
  | .checkFlowAck id, db =>
    (db.flows.find? fun flow => decide (flow.id = id)).map fun flow =>
      if flow.context.ack then (true, db)
      else (false, { db with
        flows := updateRow db.flows id fun row =>
          { row with context := { row.context with ack := true } }
        door := (w, id) :: db.door })
  | .startBody id, db => some ((), { db with
      door := db.door.filter fun e => decide (e ≠ (w, id))
      trace := .started id db.flows :: db.trace })
  | .applyAsync _, db => some ((), db)
  | .save origin _ flow updateFields, db => some ((), { db with
      flows := saveFlow db.flows flow updateFields
      door := if origin = .runError then db.door.filter fun e => decide (e.1 ≠ w) else db.door
      trace := if recordsError flow updateFields then .failed flow.id :: db.trace else db.trace })
  | .createFlow done, db => some ((), { db with flows := db.flows ++ [newFlow db.flows done] })
  | .ask q, db => some (c (.ask q), db)
  | .writeTicket _ target, db => some ((), { db with ticketStatus := target })
  | .leaveTicket _, db => some ((), db)

/-- What one operation of the `w`-th worker can be answered and can make of the database. -/
inductive Served (w : ℕ) (db : Database) : (o : Op) → Res o → Database → Prop
  | listFlows {flows : List Flow} (h : flows.Perm db.flows) : Served w db .listFlows flows db
  | nextFlow : Served w db .nextFlow (db.flows.find? isPending) db
  | anyStarted : Served w db .anyStarted (db.flows.any fun flow => !isPending flow) db
  | lastStarted : Served w db .lastStarted (db.flows.reverse.find? fun flow => !isPending flow) db
  | firstFlow : Served w db .firstFlow db.flows.head? db
  | getFlow {id : ℕ} {flow : Flow} (h : flow ∈ db.flows) (hid : flow.id = id) :
      Served w db (.getFlow id) flow db
  | acked {id : ℕ} : Served w db (.checkFlowAck id) true db
  | entered {id : ℕ} {row : Flow} (h : row ∈ db.flows) (hid : row.id = id)
      (hack : row.context.ack = false) :
      Served w db (.checkFlowAck id) false { db with
        flows := updateRow db.flows id fun row =>
          { row with context := { row.context with ack := true } }
        door := (w, id) :: db.door }
  | startBody {id : ℕ} : Served w db (.startBody id) () { db with
      door := db.door.filter fun e => decide (e ≠ (w, id))
      trace := .started id db.flows :: db.trace }
  | applyAsync {id : ℕ} : Served w db (.applyAsync id) () db
  | save {origin : Origin} {held flow : Flow} {updateFields : List Field} :
      Served w db (.save origin held flow updateFields) () { db with
        flows := saveFlow db.flows flow updateFields
        door := if origin = .runError then db.door.filter fun e => decide (e.1 ≠ w) else db.door
        trace := if recordsError flow updateFields then .failed flow.id :: db.trace else db.trace }
  | createFlow {done : Bool} :
      Served w db (.createFlow done) () { db with flows := db.flows ++ [newFlow db.flows done] }
  | ask {q : Query} (answer : Answer q) : Served w db (.ask q) answer db
  | writeTicket {seen : List (Flow × TicketFlowStatus)} {target : TicketStatus} :
      Served w db (.writeTicket seen target) () { db with ticketStatus := target }
  | leaveTicket {seen : List (Flow × TicketFlowStatus)} : Served w db (.leaveTicket seen) () db

theorem served_of_serve {w : ℕ} {c : (o : Op) → Res o} {o : Op} {db db' : Database} {r : Res o}
    (h : serve w c o db = some (r, db')) : Served w db o r db' := by
  cases o with
  | listFlows =>
    rw [serve] at h
    split at h
    · rename_i hperm
      cases h
      exact .listFlows (List.isPerm_iff.mp hperm)
    · cases h
  | getFlow id =>
    obtain ⟨flow, hfind, heq⟩ := Option.map_eq_some_iff.mp h
    cases heq
    exact .getFlow (List.mem_of_find?_eq_some hfind) (by simpa using List.find?_some hfind)
  | checkFlowAck id =>
    obtain ⟨row, hfind, heq⟩ := Option.map_eq_some_iff.mp h
    split at heq
    · cases heq
      exact .acked
    · rename_i hack
      cases heq
      exact .entered (List.mem_of_find?_eq_some hfind) (by simpa using List.find?_some hfind)
        (eq_false_of_ne_true hack)
  | nextFlow => cases h; exact .nextFlow
  | anyStarted => cases h; exact .anyStarted
  | lastStarted => cases h; exact .lastStarted
  | firstFlow => cases h; exact .firstFlow
  | startBody id => cases h; exact .startBody
  | applyAsync id => cases h; exact .applyAsync
  | save origin held flow updateFields => cases h; exact .save
  | createFlow done => cases h; exact .createFlow
  | ask q => cases h; exact .ask _
  | writeTicket seen target => cases h; exact .writeTicket
  | leaveTicket seen => cases h; exact .leaveTicket

theorem mem_updateRow {flows : List Flow} {id : ℕ} {f : Flow → Flow} {row : Flow}
    (h : row ∈ updateRow flows id f) :
    ∃ old ∈ flows, (old.id = id ∧ row = f old) ∨ (old.id ≠ id ∧ row = old) := by
  obtain ⟨old, hold, rfl⟩ := List.mem_map.mp h
  refine ⟨old, hold, ?_⟩
  split
  · rename_i hid
    exact .inl ⟨hid, rfl⟩
  · rename_i hid
    exact .inr ⟨hid, rfl⟩

/-- Updates of a row that keep its id keep the row. -/
theorem exists_updateRow {flows : List Flow} {id : ℕ} {f : Flow → Flow} {row : Flow}
    (hf : ∀ row, (f row).id = row.id) (h : row ∈ flows) :
    ∃ row' ∈ updateRow flows id f, row'.id = row.id := by
  refine ⟨_, List.mem_map_of_mem h, ?_⟩
  split
  · exact hf row
  · rfl

theorem lt_newFlow {flows : List Flow} {row : Flow} (h : row ∈ flows) (done : Bool) :
    row.id < (newFlow flows done).id := by
  have hle : ∀ ids : List ℕ, ∀ id ∈ ids, id ≤ ids.foldr max 0 := by
    intro ids
    induction ids with
    | nil => simp
    | cons a ids ih =>
      intro id hid
      rw [List.foldr_cons]
      rcases List.mem_cons.mp hid with rfl | hid
      · omega
      · have := ih id hid
        omega
  have := hle _ _ (List.mem_map_of_mem (f := Flow.id) h)
  simp only [newFlow]
  omega

/-- Whether an operation is a save of a row, after which `post_save` is sent. -/
def savesFlow : (o : Op) → Res o → Bool
  | .checkFlowAck _, acked => !acked
  | .save .., _ => true
  | .createFlow _, _ => true
  | _, _ => false

end Ticket
