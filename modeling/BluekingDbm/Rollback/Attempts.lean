import BluekingDbm.Rollback.PlusReplay

/-! The attempts to replay a kvstore, each going on where the one before it failed. -/
namespace Rollback.PlusRestorer

open Program Transition Text

section Kvstore

variable {kvstore : ℕ}

/-- A write of a binlog: the line that the tool prints of it, and what is read of the line. -/
structure Write (kvstore : ℕ) where
  line : String
  args : List String
  id : UInt64
  reads : parseRestoreLine line kvstore = .ok (some (args, id))

def Write.command (w : Write kvstore) : Command := w.args.map word

/-- The binlog id in the key of a command. -/
def commandID (cmd : Command) : UInt64 :=
  match Base64.decode (cmd.getD 2 []) with
  | some raw => UInt64.ofNat (Bytes.ofLe ((raw.drop binlogIDOffset).take 8).reverse)
  | none => 0

/-- The highest id in the backup of a kvstore, and the writes of each of its binlogs up to a time. -/
structure Chain (kvstore : ℕ) where
  base : UInt64
  writes : String → Int64 → List (Write kvstore)

/-- A kvstore holds the commands that went in since its backup was restored. Of the tool that runs,
the lines to come are known, and whether it exits with 0. -/
structure Kvstore where
  held : List Command
  coming : List String
  exits : Bool

def Chain.position (chain : Chain kvstore) (held : List Command) : UInt64 :=
  (held.getLast?.map commandID).getD chain.base

/-- What the tool prints of the writes of a binlog. It exits with 0 when it has printed all of them,
or something that is not a command; what it has printed before it fails may be any part. -/
inductive Prints : List (Write kvstore) → List String → Bool → Prop
  | all : Prints [] [] true
  | failed (ws : List (Write kvstore)) : Prints ws [] false
  | write {w : Write kvstore} {ws : List (Write kvstore)} {coming : List String} {exits : Bool} :
      Prints ws coming exits → Prints (w :: ws) (w.line :: coming) exits
  | blank {line : String} {ws : List (Write kvstore)} {coming : List String} {exits : Bool} :
      parseRestoreLine line kvstore = .ok none → Prints ws coming exits →
        Prints ws (line :: coming) exits
  | other {line : String} {err : LineError} (ws : List (Write kvstore)) (coming : List String)
      (exits : Bool) : parseRestoreLine line kvstore = .error err → Prints ws (line :: coming) exits

/-- How the instance and the tool answer. A batch without an error went in as it was sent; of any
other batch some commands did. -/
def Answers (chain : Chain kvstore) : (o : Op) → Kvstore → Res o → Kvstore → Prop
  | .binlogPos, g, reply, g' => g' = g ∧ ∀ pos, reply.pos = some pos → pos = chain.position g.held
  | .startTool file startPos endMs, g, lines, g' =>
    g'.held = g.held ∧ lines = g'.coming.length ∧
      Prints ((chain.writes file endMs).filter fun w => startPos ≤ w.id) g'.coming g'.exits
  | .readLine, g, line, g' => g.coming = line :: g'.coming ∧ g'.held = g.held ∧ g'.exits = g.exits
  | .finishTool, g, err, g' => g' = g ∧ (err = none → g.exits = true)
  | .execBatch cmds, g, results, g' =>
    ∃ taken, taken.Sublist cmds ∧ (allDone cmds results = true → taken = cmds) ∧
      g' = { g with held := g.held ++ taken }
  | _, g, _, g' => g' = g

end Kvstore

section Attempt

variable {task : Task} {chain : Chain task.kvstore} {done queued ws rest later : List (Write task.kvstore)}
  {s : Replaying} {g : Kvstore}

def Chain.writesOf (chain : Chain task.kvstore) (files : List String) : List (Write task.kvstore) :=
  files.flatMap fun file => chain.writes file task.endMs

/-- The writes that the backup does not hold, in the order of the binlogs. -/
def Chain.due (chain : Chain task.kvstore) : List (Write task.kvstore) :=
  (chain.writesOf task.files).filter fun w => chain.base < w.id

/-- The ids ascend along the chain, and leave room for a position after each. -/
structure InOrder (chain : Chain task.kvstore) : Prop where
  ascending : (chain.writesOf task.files).Pairwise fun v w => v.id < w.id
  base_lt : chain.base.toNat + 1 < 2 ^ 64
  id_lt : ∀ w ∈ chain.writesOf task.files, w.id.toNat + 1 < 2 ^ 64

theorem parse_cases {line : String} {kvstore : ℕ} {args : List String} {id : UInt64}
    (h : parseRestoreLine line kvstore = .ok (some (args, id))) :
    binlogIDFromKey (args.getD 2 "") = .ok id := by
  unfold parseRestoreLine at h
  split at h
  · cases h
  · rename_i cmd printed key value rest _
    split at h
    · cases h
    · split at h
      · cases h
      · cases hkey : binlogIDFromKey key with
        | error err => simp [hkey, Except.map] at h
        | ok read =>
          obtain ⟨rfl, rfl⟩ : cmd :: printed :: key :: value :: rest = args ∧ read = id := by
            simpa [hkey, Except.map] using h
          exact hkey
  · cases h

theorem Write.commandID_command {kvstore : ℕ} (w : Write kvstore) : commandID w.command = w.id := by
  have hkey := parse_cases w.reads
  have hword : w.command.getD 2 [] = word (w.args.getD 2 "") := by
    simp [Write.command, List.getD_eq_getElem?_getD, List.getElem?_map]
    cases w.args[2]? <;> rfl
  unfold binlogIDFromKey at hkey
  rw [commandID, hword]
  split at hkey
  · cases hkey
  · rename_i raw hraw
    rw [hraw]
    split at hkey
    · cases hkey
    · dsimp only at hkey
      split at hkey
      · cases hkey
      · exact Except.ok.inj hkey

/-- The last id of some writes, or that of the backup. -/
def Chain.lastOf (chain : Chain task.kvstore) (ws : List (Write task.kvstore)) : UInt64 :=
  (ws.getLast?.map Write.id).getD chain.base

theorem Chain.position_map (chain : Chain task.kvstore) (ws : List (Write task.kvstore)) :
    chain.position (ws.map Write.command) = chain.lastOf ws := by
  have hid : (commandID ∘ Write.command : Write task.kvstore → UInt64) = Write.id :=
    funext Write.commandID_command
  simp [position, lastOf, List.getLast?_map, hid]

theorem lastOf_concat (ws : List (Write task.kvstore)) (w : Write task.kvstore) :
    chain.lastOf (ws ++ [w]) = w.id := by simp [Chain.lastOf]

section Order

variable (h : InOrder chain)

include h

theorem InOrder.due_ascending : chain.due.Pairwise fun v w => v.id < w.id :=
  h.ascending.filter _

theorem InOrder.lastOf_lt (hdue : chain.due = done ++ rest) {w : Write task.kvstore} (hw : w ∈ rest) :
    chain.lastOf done < w.id := by
  have hmem : w ∈ chain.due := by
    rw [hdue]
    exact List.mem_append_right done hw
  rcases List.eq_nil_or_concat done with rfl | ⟨front, v, rfl⟩
  · exact of_decide_eq_true (List.mem_filter.mp hmem).2
  · have hasc := h.due_ascending
    rw [hdue, List.pairwise_append] at hasc
    rw [List.concat_eq_append, lastOf_concat]
    exact hasc.2.2 v (by simp) w hw

theorem InOrder.le_lastOf (hdue : chain.due = done ++ rest) {w : Write task.kvstore} (hw : w ∈ done) :
    w.id ≤ chain.lastOf done := by
  obtain ⟨front, back, rfl⟩ := List.append_of_mem hw
  rcases List.eq_nil_or_concat back with rfl | ⟨back, v, rfl⟩
  · rw [lastOf_concat]
    exact UInt64.le_refl _
  · have hasc := h.due_ascending
    rw [hdue, List.pairwise_append, List.pairwise_append] at hasc
    have hlt : w.id < v.id := List.rel_of_pairwise_cons hasc.1.2.1 (by simp)
    have hshape : front ++ w :: back.concat v = (front ++ w :: back) ++ [v] := by simp
    rw [hshape, lastOf_concat]
    exact UInt64.le_of_lt hlt

theorem InOrder.lastOf_add_one_le (hdue : chain.due = done ++ rest) {i : UInt64} :
    chain.lastOf done + 1 ≤ i ↔ chain.lastOf done < i := by
  have hbound : (chain.lastOf done).toNat + 1 < 2 ^ 64 := by
    rcases List.eq_nil_or_concat done with rfl | ⟨front, v, rfl⟩
    · exact h.base_lt
    · rw [List.concat_eq_append, lastOf_concat]
      have hv : v ∈ chain.due := by
        rw [hdue]
        simp
      exact h.id_lt v (List.mem_filter.mp hv).1
  rw [UInt64.le_iff_toNat_le, UInt64.lt_iff_toNat_lt, UInt64.toNat_add, UInt64.toNat_one,
    Nat.mod_eq_of_lt hbound]
  omega

/-- What is left of the chain is what comes after the last write that went in. -/
theorem InOrder.rest_eq (hdue : chain.due = done ++ rest) :
    rest = (chain.writesOf task.files).filter fun w => chain.lastOf done < w.id := by
  have hbase : chain.base ≤ chain.lastOf done := by
    rcases List.eq_nil_or_concat done with rfl | ⟨front, v, rfl⟩
    · exact UInt64.le_refl _
    · have hv : v ∈ chain.due := by
        rw [hdue]
        simp
      rw [List.concat_eq_append, lastOf_concat]
      exact UInt64.le_of_lt (of_decide_eq_true (List.mem_filter.mp hv).2)
  have hkept : rest.filter (fun w => decide (chain.lastOf done < w.id)) = rest := by
    apply List.filter_eq_self.mpr
    intro w hw
    exact decide_eq_true (h.lastOf_lt hdue hw)
  have hgone : done.filter (fun w => decide (chain.lastOf done < w.id)) = [] := by
    apply List.filter_eq_nil_iff.mpr
    intro w hw hlt
    exact UInt64.lt_irrefl _ (UInt64.lt_of_lt_of_le (of_decide_eq_true hlt) (h.le_lastOf hdue hw))
  have hfilter := congrArg (List.filter fun w => decide (chain.lastOf done < w.id)) hdue
  rw [List.filter_append, hgone, hkept, List.nil_append, Chain.due, List.filter_filter] at hfilter
  rw [← hfilter]
  apply List.filter_congr
  intro w _
  by_cases hlt : chain.lastOf done < w.id
  · simp [hlt, UInt64.lt_of_le_of_lt hbase hlt]
  · simp [hlt]

end Order

/-- Where a replay stands: a part of the due writes went in, the next are queued, the rest is left. -/
structure Queued (chain : Chain task.kvstore) (done queued rest : List (Write task.kvstore)) (s : Replaying)
    (g : Kvstore) : Prop where
  due : chain.due = done ++ queued ++ rest
  held : g.held = done.map Write.command
  cmds : s.cmds = queued.map Write.args
  last : s.last = chain.lastOf (done ++ queued)

/-- The next attempt can go on from the position of the kvstore. -/
def CanResume (chain : Chain task.kvstore) (g : Kvstore) : Prop :=
  g.held <+: chain.due.map Write.command

theorem Queued.canResume (h : Queued chain done queued rest s g) : CanResume chain g := by
  refine ⟨(queued ++ rest).map Write.command, ?_⟩
  simp [h.held, h.due]

/-- Every batch is the next part of the due writes. -/
def InTurn (chain : Chain task.kvstore) : Op → Kvstore → Prop
  | .execBatch cmds, g => g.held ++ cmds <+: chain.due.map Write.command
  | _, _ => True

/-- A function of the replay: without an error the rest is left, and after an error that is not in
flight the kvstore can be resumed. -/
def Leaves (chain : Chain task.kvstore) (rest : List (Write task.kvstore)) (lines : List String)
    (exits : Bool) (last : UInt64) : Replaying × Option GoError → Kvstore → Prop
  | (s, none), g => (∃ done queued, Queued chain done queued rest s g) ∧ last ≤ s.last ∧
      g.coming = lines ∧ g.exits = exits
  | (_, some err), g => err.inFlight = false → CanResume chain g

theorem allDone_of_onReplies {cmds : List Command} {args : List (List String)} {results : List PipeResult}
    {replies : List (Option String)} {n : ℕ} (hlen : cmds.length = args.length)
    (hbatch : execBatch cmds results = .ok replies) (hdone : (onReplies (args.zip replies) n).2 = none) :
    allDone cmds results = true := by
  unfold execBatch at hbatch
  split at hbatch
  · cases hbatch
  · rename_i hsame
    obtain ⟨hreplies, hall⟩ := (mapM_errorReply results).2 replies hbatch
    have herr := onReplies_err args replies (by omega) n
    rw [hdone] at herr
    simp [allDone, hall, show replies.all Option.isNone = true from herr]
    omega

theorem ensures_flush (h : Queued chain done queued rest s g) :
    Ensures (InTurn chain) (Answers chain)
      (fun r g' => Leaves chain rest g.coming g.exits s.last r g' ∧ (r.2 = none → r.1.cmds = []))
      (flush s) g := by
  unfold flush
  split
  · rename_i hempty
    exact ⟨⟨⟨done, queued, h⟩, UInt64.le_refl _, rfl, rfl⟩, fun _ => hempty⟩
  · have hcmds : (s.cmds.map fun args => args.map word) = queued.map Write.command := by
      rw [h.cmds, List.map_map]
      rfl
    refine ensures_perform ?_ ?_
    · refine ⟨rest.map Write.command, ?_⟩
      rw [hcmds, h.held, h.due, List.map_append, List.map_append]
    · rintro results g' ⟨taken, -, htaken, rfl⟩
      dsimp only
      split
      · exact ⟨(by rintro ⟨⟩), (by rintro ⟨⟩)⟩
      · rename_i replies hbatch
        cases hreplied : onReplies (s.cmds.zip replies) s.applied with
        | mk applied err =>
          cases err with
          | some err => exact ⟨(by rintro ⟨⟩), (by rintro ⟨⟩)⟩
          | none =>
            have hin : taken = queued.map Write.command := by
              rw [htaken (allDone_of_onReplies (by simp) hbatch (congrArg Prod.snd hreplied)), hcmds]
            refine ⟨⟨⟨done ++ queued, [], ?_⟩, UInt64.le_refl _, rfl, rfl⟩, fun _ => rfl⟩
            constructor
            · simpa using h.due
            · simp [hin, h.held]
            · rfl
            · simpa using h.last

theorem ensures_add {w : Write task.kvstore} (h : Queued chain done queued (w :: rest) s g) :
    Ensures (InTurn chain) (Answers chain) (Leaves chain rest g.coming g.exits w.id)
      (add w.args { s with last := w.id }) g := by
  have hadded : ∀ bytes, Queued chain done (queued ++ [w]) rest
      ⟨w.id, s.applied, s.cmds ++ [w.args], bytes⟩ g := by
    intro bytes
    constructor
    · simpa using h.due
    · exact h.held
    · simp [h.cmds]
    · rw [← List.append_assoc, lastOf_concat]
  unfold add
  dsimp only
  split
  · exact (ensures_flush (hadded _)).mono fun r g' hr => hr.1
  · exact ⟨⟨done, queued ++ [w], hadded _⟩, UInt64.le_refl _, rfl, rfl⟩

theorem ensures_stopped {α : Type} {f : Bool → Act α} {Q : α → Kvstore → Prop}
    (hf : ∀ stop, Ensures (InTurn chain) (Answers chain) Q (f stop) g) :
    Ensures (InTurn chain) (Answers chain) Q (perform Op.stopped >>= f) g := by
  refine ensures_perform trivial ?_
  rintro stop g' rfl
  exact hf stop

/-- The tool prints the writes of a binlog, and some are left for the later ones. -/
theorem ensures_readLines (h : InOrder chain) {lines : List String} {exits : Bool}
    (hprints : Prints ws lines exits) (hcoming : g.coming = lines) (hexits : g.exits = exits)
    (hqueued : Queued chain done queued (ws ++ later) s g) :
    Ensures (InTurn chain) (Answers chain) (Leaves chain later [] true s.last)
      (readLines task lines.length s) g := by
  induction hprints generalizing done queued s g with
  | all =>
    refine ensures_perform trivial ?_
    rintro err g' ⟨rfl, -⟩
    cases err with
    | none => exact ⟨⟨done, queued, hqueued⟩, UInt64.le_refl _, hcoming, hexits⟩
    | some err => exact fun _ => hqueued.canResume
  | failed ws =>
    refine ensures_perform trivial ?_
    rintro err g' ⟨rfl, hexit⟩
    cases err with
    | none => cases hexits.symm.trans (hexit rfl)
    | some err => exact fun _ => hqueued.canResume
  | @write w ws coming exits hprints ih =>
    refine ensures_perform trivial ?_
    rintro line g' ⟨hline, hheld, hexits'⟩
    obtain ⟨rfl, hcoming'⟩ : w.line = line ∧ coming = g'.coming := by
      simpa [hcoming] using hline
    have hqueued' : Queued chain done queued (w :: (ws ++ later)) s g' :=
      ⟨hqueued.due, hheld.trans hqueued.held, hqueued.cmds, hqueued.last⟩
    have hlt : s.last < w.id := by
      rw [hqueued.last]
      exact h.lastOf_lt hqueued.due (by simp)
    unfold onLine
    rw [w.reads]
    dsimp only
    rw [if_neg (UInt64.not_le.mpr hlt), Prog.bind_assoc]
    apply ensures_stopped
    intro stop
    cases stop with
    | true => exact fun _ => hqueued'.canResume
    | false =>
      apply (ensures_add hqueued').bind
      rintro ⟨s', err⟩ g'' hleaves
      cases err with
      | some err => exact hleaves
      | none =>
        obtain ⟨⟨done', queued', hqueued''⟩, hle, hcoming'', hexits''⟩ := hleaves
        apply (ih (hcoming''.trans hcoming'.symm) (hexits''.trans (hexits'.trans hexits)) hqueued'').mono
        rintro ⟨s'', err⟩ g hleaves
        cases err with
        | some err => exact hleaves
        | none => exact ⟨hleaves.1, UInt64.le_trans (UInt64.le_of_lt hlt)
            (UInt64.le_trans hle hleaves.2.1), hleaves.2.2⟩
  | @blank line ws coming exits hblank hprints ih =>
    refine ensures_perform trivial ?_
    rintro line g' ⟨hline, hheld, hexits'⟩
    obtain ⟨rfl, hcoming'⟩ := List.cons.inj (hcoming.symm.trans hline)
    unfold onLine
    rw [hblank]
    exact ih hcoming'.symm (hexits'.trans hexits)
      ⟨hqueued.due, hheld.trans hqueued.held, hqueued.cmds, hqueued.last⟩
  | @other line err ws coming exits hother =>
    refine ensures_perform trivial ?_
    rintro line g' ⟨hline, hheld, -⟩
    obtain ⟨rfl, -⟩ := List.cons.inj (hcoming.symm.trans hline)
    unfold onLine
    rw [hother]
    exact fun _ => Queued.canResume
      ⟨hqueued.due, hheld.trans hqueued.held, hqueued.cmds, hqueued.last⟩

/-- Between two binlogs nothing is queued, and what is left stands in the binlogs to come. -/
def Between (chain : Chain task.kvstore) (files : List String) : Replaying × Option GoError → Kvstore → Prop
  | (s, none), g => s.cmds = [] ∧ ∃ done queued, Queued chain done queued
      ((chain.writesOf files).filter fun w => s.last < w.id) s g
  | (_, some err), g => err.inFlight = false → CanResume chain g

theorem ensures_replayFile (h : InOrder chain) {file : String} {files : List String}
    (hbetween : Between chain (file :: files) (s, none) g) :
    Ensures (InTurn chain) (Answers chain) (Between chain files) (replayFile task file s) g := by
  obtain ⟨hempty, done, queued, hqueued⟩ := hbetween
  have hsplit : (chain.writesOf (file :: files)).filter (fun w => decide (s.last < w.id)) =
      (chain.writes file task.endMs).filter (fun w => decide (s.last + 1 ≤ w.id)) ++
        (chain.writesOf files).filter fun w => decide (s.last < w.id) := by
    rw [Chain.writesOf, List.flatMap_cons, List.filter_append]
    congr 1
    apply List.filter_congr
    intro w _
    have hiff := h.lastOf_add_one_le hqueued.due (i := w.id)
    rw [← hqueued.last] at hiff
    exact decide_eq_decide.mpr hiff.symm
  rw [hsplit] at hqueued
  refine ensures_perform trivial ?_
  rintro lines g' ⟨hheld, rfl, hprints⟩
  have hqueued' := Queued.mk hqueued.due (hheld.trans hqueued.held) hqueued.cmds hqueued.last
  apply (ensures_readLines h hprints rfl rfl hqueued').bind
  rintro ⟨s', err⟩ g'' hleaves
  cases err with
  | some err => exact hleaves
  | none =>
    obtain ⟨⟨done', queued', hread⟩, hle, -⟩ := hleaves
    have hfinish : Ensures (InTurn chain) (Answers chain) (Between chain files) (finishFile s') g'' := by
      apply ensures_stopped
      intro stop
      cases stop with
      | true => exact fun _ => hread.canResume
      | false =>
        apply (ensures_flush hread).mono
        rintro ⟨s'', err⟩ g hflushed
        cases err with
        | some err => exact hflushed.1
        | none =>
          obtain ⟨⟨⟨done'', queued'', hsent⟩, hle', -⟩, hempty'⟩ := hflushed
          refine ⟨hempty' rfl, done'', queued'', ?_⟩
          -- what is left is past the last write, as nothing is skipped on the way
          have hsame : (chain.writesOf files).filter (fun w => decide (s''.last < w.id)) =
              (chain.writesOf files).filter fun w => decide (s.last < w.id) := by
            apply List.filter_congr
            intro w hw
            apply decide_eq_decide.mpr
            constructor
            · intro hlt
              exact UInt64.lt_of_le_of_lt (UInt64.le_trans hle hle') hlt
            · intro hlt
              rw [hsent.last]
              exact h.lastOf_lt hsent.due (List.mem_filter.mpr ⟨hw, decide_eq_true hlt⟩)
          rw [hsame]
          exact hsent
    apply hfinish.bind
    rintro ⟨s'', err⟩ g hbetween
    cases err with
    | none => exact hbetween
    | some err => exact hbetween

theorem ensures_replayFiles (h : InOrder chain) {files : List String}
    (hbetween : Between chain files (s, none) g) :
    Ensures (InTurn chain) (Answers chain) (Between chain []) (replayFiles task files s) g := by
  induction files generalizing s g with
  | nil => exact hbetween
  | cons file files ih =>
    apply ensures_stopped
    intro stop
    cases stop with
    | true =>
      obtain ⟨-, done, queued, hqueued⟩ := hbetween
      exact fun _ => hqueued.canResume
    | false =>
      apply (ensures_replayFile h hbetween).bind
      rintro ⟨s', err⟩ g' hbetween'
      cases err with
      | none => exact ih hbetween'
      | some err => exact hbetween'

/-- How an attempt ends. -/
def Attempted (chain : Chain task.kvstore) : ℕ × Option GoError → Kvstore → Prop
  | (_, none), g => g.held = chain.due.map Write.command
  | (_, some err), g => err.inFlight = false → CanResume chain g

theorem ensures_binlogPos {α : Type} {f : Except GoError UInt64 → Act α} {Q : α → Kvstore → Prop}
    (herr : ∀ err, err.inFlight = false → Ensures (InTurn chain) (Answers chain) Q (f (.error err)) g)
    (hpos : Ensures (InTurn chain) (Answers chain) Q (f (.ok (chain.position g.held))) g) :
    Ensures (InTurn chain) (Answers chain) Q (binlogPos task >>= f) g := by
  unfold binlogPos
  rw [Prog.bind_assoc]
  refine ensures_perform trivial ?_
  rintro reply g' ⟨rfl, hreply⟩
  cases hpos' : reply.pos with
  | none =>
    cases reply with
    | failed message => exact herr (.text _) rfl
    | int v => exact herr (.text _) rfl
    | text shown => exact herr (.text _) rfl
    | other shown => exact herr (.text _) rfl
  | some pos =>
    obtain rfl := hreply pos hpos'
    cases reply with
    | failed message => cases hpos'
    | int v => exact hpos
    | text shown => exact hpos
    | other shown => cases hpos'

/-- However the instance and the tool answer, a batch is the next part of the due writes, and the replay
ends with all of them held, or where it can be resumed, or with an error in flight. -/
theorem ensures_replayKvstore (h : InOrder chain) (hresume : CanResume chain g) :
    Ensures (InTurn chain) (Answers chain) (Attempted chain) (replayKvstore task) g := by
  have hresume' := hresume
  obtain ⟨tail, htail⟩ := hresume'
  obtain ⟨done, rest, hdue, hdone, -⟩ := List.append_eq_map_iff.mp htail
  refine ensures_perform trivial ?_
  rintro err g' rfl
  cases err with
  | some message => exact fun _ => hresume
  | none =>
    apply ensures_binlogPos
    · exact fun _ _ _ => hresume
    · have hstart : Between chain task.files (⟨chain.position g'.held, 0, [], 0⟩, none) g' := by
        refine ⟨rfl, done, [], ?_⟩
        have hlast : chain.position g'.held = chain.lastOf done := by
          rw [← hdone, chain.position_map]
        constructor
        · dsimp only
          rw [hlast, ← h.rest_eq hdue, List.append_nil]
          exact hdue
        · exact hdone.symm
        · rfl
        · rw [List.append_nil]
          exact hlast
      apply (ensures_replayFiles h hstart).bind
      rintro ⟨s, err⟩ g hbetween
      cases err with
      | some err => exact hbetween
      | none =>
        obtain ⟨hempty, done, queued, hqueued⟩ := hbetween
        have hheld : g.held = chain.due.map Write.command := by
          have hnone : queued = [] := List.map_eq_nil_iff.mp (hqueued.cmds.symm.trans hempty)
          rw [hqueued.held, hqueued.due, hnone]
          simp [Chain.writesOf]
        apply ensures_binlogPos
        · intro err _ _
          rw [CanResume, hheld]
        · dsimp only
          split
          · exact fun hflight => by cases hflight
          · exact hheld

end Attempt

section Attempts

variable {task : Task} {chain : Chain task.kvstore} {held : List Command} {n : ℕ}
  {es : List (Option (ℕ × Option GoError))}

/-- The attempts on a kvstore. The backup is restored again after an error in flight, and when another
kvstore of the port had one. -/
inductive Attempts (chain : Chain task.kvstore) :
    List Command → Option (ℕ × Option GoError) → List Command → Prop
  | tried {held coming exits r g} : Ends (Answers chain) (replayKvstore task) ⟨held, coming, exits⟩ r g →
      failedInFlight r.2 = false → Attempts chain held (some r) g.held
  | broke {held coming exits r g} : Ends (Answers chain) (replayKvstore task) ⟨held, coming, exits⟩ r g →
      failedInFlight r.2 = true → Attempts chain held (some r) []
  | restored (held : List Command) : Attempts chain held none []

theorem Attempted.canResume {r : ℕ × Option GoError} {g : Kvstore} (h : Attempted chain r g)
    (hflight : failedInFlight r.2 = false) : CanResume chain g := by
  obtain ⟨n, err⟩ := r
  cases err with
  | none =>
    have hheld : g.held = chain.due.map Write.command := h
    exact ⟨[], by rw [hheld, List.append_nil]⟩
  | some err => exact h hflight

theorem prefix_of_attempts (h : InOrder chain) (hrun : Run (Attempts chain) [] es held) :
    held <+: chain.due.map Write.command := by
  apply hrun.invariant (· <+: chain.due.map Write.command) List.nil_prefix
  intro held e held' hheld hstep
  cases hstep with
  | tried hends hflight =>
    exact (hends.ensured (ensures_replayKvstore h hheld)).canResume hflight
  | broke => exact List.nil_prefix
  | restored => exact List.nil_prefix

/-- Over any number of attempts: whatever a kvstore holds when an attempt starts, no batch of it repeats
or leaves out a write, and once an attempt ends without an error the kvstore holds the due writes, each
once and in order. -/
theorem attempts_replay_once (h : InOrder chain) (hrun : Run (Attempts chain) [] es held) :
    (∀ coming exits, Ensures (InTurn chain) (Answers chain) (Attempted chain) (replayKvstore task)
      ⟨held, coming, exits⟩) ∧
    (es.getLast? = some (some (n, none)) → held = chain.due.map Write.command) := by
  constructor
  · intro coming exits
    exact ensures_replayKvstore h (prefix_of_attempts h hrun)
  · intro hlast
    cases hrun with
    | refl => cases hlast
    | snoc hrun hstep =>
      rw [List.getLast?_concat] at hlast
      cases hstep with
      | tried hends _ =>
        obtain rfl := Option.some.inj (Option.some.inj hlast)
        exact hends.ensured (ensures_replayKvstore h (prefix_of_attempts h hrun))
      | broke _ hflight =>
        obtain rfl := Option.some.inj (Option.some.inj hlast)
        cases hflight
      | restored => cases hlast

/-- A binlog of one write, after a backup that holds the ids up to 100. -/
def oneBinlog : Task := ⟨"127.0.0.1:30000", 0, ["a.log"], 0⟩

def oneWrite : Write 0 where
  line := "restorebinlogv2 0 AAAAAAAAAAAAAAAAAAAAAGU= dg=="
  args := ["restorebinlogv2", "0", "AAAAAAAAAAAAAAAAAAAAAGU=", "dg=="]
  id := 101
  reads := by rfl

def oneWriteDue : Chain oneBinlog.kvstore := ⟨100, fun _ _ => [oneWrite]⟩

theorem oneWriteDue_inOrder : InOrder oneWriteDue where
  ascending := List.pairwise_singleton _ _
  base_lt := by decide
  id_lt := by
    intro w hw
    obtain rfl := List.mem_singleton.mp hw
    decide

/-- The first attempt does not start, the second replays the write. -/
theorem oneWriteDue_attempts : Run (Attempts oneWriteDue) []
    [some (0, some (.text "disk full")), some (1, none)] [oneWrite.command] := by
  have hfirst : Attempts oneWriteDue [] (some (0, some (.text "disk full"))) [] := by
    refine @Attempts.tried _ oneWriteDue [] [] true _ ⟨[], [], true⟩ ?_ rfl
    exact .call (r := some "disk full") rfl .done
  have hsecond : Attempts oneWriteDue [] (some (1, none)) [oneWrite.command] := by
    refine @Attempts.tried _ oneWriteDue [] [] true _ ⟨[oneWrite.command], [], true⟩ ?_ rfl
    refine .call (r := none) rfl ?_
    refine .call (r := .int 100) ⟨rfl, ?_⟩ ?_
    · rintro pos hpos
      exact (Option.some.inj hpos).symm
    refine .call (r := false) rfl ?_
    have hprints : Prints ([oneWrite].filter fun w => (100 : UInt64) + 1 ≤ w.id) [oneWrite.line] true := by
      simpa [oneWrite] using Prints.write (w := oneWrite) .all
    refine .call (r := (1 : ℕ)) (s := (⟨[], [oneWrite.line], true⟩ : Kvstore)) ⟨rfl, rfl, hprints⟩ ?_
    refine .call (r := oneWrite.line) (s := ⟨[], [], true⟩) ⟨rfl, rfl, rfl⟩ ?_
    refine .call (r := false) rfl ?_
    refine .call (r := none) ⟨rfl, fun _ => rfl⟩ ?_
    refine .call (r := false) rfl ?_
    refine .call (r := [.done]) (s := ⟨[oneWrite.command], [], true⟩)
      ⟨[oneWrite.command], List.Sublist.refl _, fun _ => rfl, rfl⟩ ?_
    refine .call (r := .int 101) ⟨rfl, ?_⟩ .done
    rintro pos hpos
    exact (Option.some.inj hpos).symm
  exact .snoc (.snoc .refl hfirst) hsecond

theorem oneWriteDue_replayed_once :
    (∀ coming exits, Ensures (InTurn oneWriteDue) (Answers oneWriteDue) (Attempted oneWriteDue)
      (replayKvstore oneBinlog) ⟨[oneWrite.command], coming, exits⟩) ∧
    ([some (0, some (GoError.text "disk full")), some (1, none)].getLast? = some (some (1, none)) →
      [oneWrite.command] = oneWriteDue.due.map Write.command) :=
  attempts_replay_once oneWriteDue_inOrder oneWriteDue_attempts

end Attempts

end Rollback.PlusRestorer
