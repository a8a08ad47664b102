import BluekingDbm.Rollback.SsdWrite

/-! The stream of a TendisSSD binlog, read record by record up to the replay's end. -/
namespace Rollback

open Bytes

def maxSSDBinlogRecord : ℕ := 2 ^ 30

/-- What one stream held. -/
structure SsdDecodeStats where
  records : ℕ
  firstSeq : Int64
  lastSeq : Int64
  stoppedAtEnd : Bool
  deriving DecidableEq

/-- The next record of the stream and what follows it; none where the stream ends. -/
def readRecord (lastSeq : Int64) (bytes : List UInt8) :
    Attempt String (Option (SsdBinlogRecord × List UInt8)) :=
  match readFull 8 bytes with
  | .eof => .ok none
  | .cut _ => .error s!"record at seq {lastSeq}: truncated header: unexpected EOF"
  | .full head rest =>
    let seq := (UInt64.ofNat (ofLe head)).toInt64
    match readFull 8 rest with
    | .eof => .error s!"record at seq {seq}: truncated length: EOF"
    | .cut _ => .error s!"record at seq {seq}: truncated length: unexpected EOF"
    | .full head rest =>
      let length := UInt64.ofNat (ofLe head)
      if length.toNat > maxSSDBinlogRecord then
        .error s!"record at seq {seq}: implausible length {length}"
      else
        match readFull length.toNat rest with
        | .eof => .error s!"record at seq {seq}: file ends inside the record, 0 of {length} bytes"
        | .cut n =>
          .error s!"record at seq {seq}: file ends inside the record, {n} of {length} bytes"
        | .full buf rest =>
          match parseSSDRecord seq buf with
          | .ok rec => .ok (some (rec, rest))
          | .error e => .error s!"record at seq {seq}: {e}"
          | .panic => .panic

theorem readRecord_shorter {lastSeq : Int64} {bytes rest : List UInt8} {rec : SsdBinlogRecord}
    (h : readRecord lastSeq bytes = .ok (some (rec, rest))) : rest.length < bytes.length := by
  unfold readRecord at h
  split at h
  · cases h
  · cases h
  · rename_i head rest₁ hhead
    obtain ⟨hlength, rfl⟩ := readFull_full hhead
    dsimp only at h
    split at h
    · cases h
    · cases h
    · rename_i head' rest₂ hhead'
      obtain ⟨hlength', rfl⟩ := readFull_full hhead'
      split at h
      · cases h
      · split at h
        · cases h
        · cases h
        · rename_i buf rest₃ hbuf
          obtain ⟨-, rfl⟩ := readFull_full hbuf
          split at h
          · obtain ⟨-, rfl⟩ := Prod.mk.inj (Option.some_inj.mp (Attempt.ok.inj h))
            simp only [List.length_append]
            omega
          · cases h
          · cases h

variable {σ : Type*}

/-- The loop over the stream: `onRecord` is handed each record of the replay window. -/
def readRecords (startSeq endMs : Int64) (onRecord : SsdBinlogRecord → σ → Attempt String σ)
    (bytes : List UInt8) (lastSeq : Int64) (st : SsdDecodeStats) (s : σ) :
    SsdDecodeStats × σ × Attempt String Unit :=
  match h : readRecord lastSeq bytes with
  | .panic => (st, s, .panic)
  | .error message => (st, s, .error message)
  | .ok none => (st, s, .ok ())
  | .ok (some (rec, rest)) =>
    have : rest.length < bytes.length := readRecord_shorter h
    if rec.seq < startSeq then readRecords startSeq endMs onRecord rest rec.seq st s
    else if endMs < rec.ts then ({ st with stoppedAtEnd := true }, s, .ok ())
    else
      let st : SsdDecodeStats :=
        { st with
          firstSeq := if st.records = 0 then rec.seq else st.firstSeq
          lastSeq := rec.seq
          records := st.records + 1 }
      match onRecord rec s with
      | .panic => (st, s, .panic)
      | .error message => (st, s, .error message)
      | .ok s => readRecords startSeq endMs onRecord rest rec.seq st s
  termination_by bytes.length

def readSSDBinlog (bytes : List UInt8) (startSeq : UInt64) (endMs : Int64)
    (onRecord : SsdBinlogRecord → σ → Attempt String σ) (s : σ) :
    SsdDecodeStats × σ × Attempt String Unit :=
  readRecords startSeq.toInt64 endMs onRecord bytes 0 ⟨0, 0, 0, false⟩ s

/-- Keeps the records and the commands that they stand for. -/
def collect (nowMs : Int64) (rec : SsdBinlogRecord)
    (s : List SsdBinlogRecord × List (List (List UInt8))) :
    Attempt String (List SsdBinlogRecord × List (List (List UInt8))) :=
  (rec.command nowMs).bind fun args => .ok (s.1 ++ [rec], s.2 ++ args.toList)

/-- A stream decoded into its records and commands. -/
def decodeSSDBinlog (bytes : List UInt8) (startSeq : UInt64) (endMs nowMs : Int64) :
    SsdDecodeStats × (List SsdBinlogRecord × List (List (List UInt8))) × Attempt String Unit :=
  readSSDBinlog bytes startSeq endMs (collect nowMs) ([], [])

/-- One record as encLogVal lays it out. -/
def SsdBinlogRecord.encode (rec : SsdBinlogRecord) : List UInt8 :=
  le 8 rec.seq.toUInt64.toNat ++
    (le 8 (UInt64.ofNat rec.payload.length).toNat ++ rec.payload)

section Records

variable {rec : SsdBinlogRecord} {lastSeq : Int64} {rest : List UInt8} {n : ℕ}

theorem payload_fits (h : rec.payload.length ≤ maxSSDBinlogRecord) :
    (UInt64.ofNat rec.payload.length).toNat = rec.payload.length :=
  UInt64.toNat_ofNat_of_lt (lt_of_le_of_lt h (by decide))

/-- One record is read back, and the stream goes on behind it. -/
theorem readRecord_encode (h : rec.payload.length ≤ maxSSDBinlogRecord) :
    readRecord lastSeq (rec.encode ++ rest) = .ok (some (rec, rest)) := by
  have hlt : rec.payload.length < 2 ^ 64 := lt_of_le_of_lt h (by decide)
  rw [readRecord, SsdBinlogRecord.encode, List.append_assoc, List.append_assoc,
    readFull_append (length_le 8 _)]
  dsimp only
  rw [readFull_append (length_le 8 _)]
  dsimp only
  rw [ofNat_le_uint64, ofNat_le_uint64, payload_fits h, if_neg (by omega), readFull_append rfl]
  dsimp only
  rw [Int64.toInt64_toUInt64, parseSSDRecord_payload hlt]

theorem length_encode : rec.encode.length = 16 + rec.payload.length := by
  rw [SsdBinlogRecord.encode, List.length_append, List.length_append, length_le, length_le]
  omega

/-- A record longer than the reader takes is refused. -/
theorem readRecord_long (h : maxSSDBinlogRecord < rec.payload.length)
    (hlt : rec.payload.length < 2 ^ 64) :
    ∃ message, readRecord lastSeq (rec.encode ++ rest) = .error message := by
  have hlength : (UInt64.ofNat rec.payload.length).toNat = rec.payload.length :=
    UInt64.toNat_ofNat_of_lt hlt
  rw [readRecord, SsdBinlogRecord.encode, List.append_assoc, List.append_assoc,
    readFull_append (length_le 8 _)]
  dsimp only
  rw [readFull_append (length_le 8 _)]
  dsimp only
  rw [ofNat_le_uint64, ofNat_le_uint64, hlength, if_pos h]
  exact ⟨_, rfl⟩

/-- A stream that ends inside a record is refused. -/
theorem readRecord_cut (h : rec.payload.length ≤ maxSSDBinlogRecord) (hn : 0 < n)
    (hcut : n < rec.encode.length) :
    ∃ message, readRecord lastSeq (rec.encode.take n) = .error message := by
  have hlength := @length_encode rec
  by_cases hhead : n < 8
  · have hshort : (rec.encode.take n).length = n := List.length_take_of_le (by omega)
    have hne : rec.encode.take n ≠ [] := by
      intro hnil
      rw [hnil] at hshort
      simp at hshort
      omega
    rw [readRecord, readFull_short hne (by omega)]
    exact ⟨_, rfl⟩
  · have htake : rec.encode.take n = le 8 rec.seq.toUInt64.toNat ++
        (le 8 (UInt64.ofNat rec.payload.length).toNat ++ rec.payload).take (n - 8) := by
      rw [SsdBinlogRecord.encode, List.take_append, length_le, List.take_of_length_le]
      rw [length_le]
      omega
    rw [htake, readRecord, readFull_append (length_le 8 _)]
    dsimp only
    by_cases hlen : n - 8 < 8
    · unfold readFull
      rw [if_neg (by rw [List.length_take, List.length_append, length_le]; omega)]
      split
      · rename_i hcases
        split at hcases
        · exact ⟨_, rfl⟩
        · cases hcases
      · exact ⟨_, rfl⟩
      · rename_i hcases
        split at hcases <;> cases hcases
    · have htake' : (le 8 (UInt64.ofNat rec.payload.length).toNat ++ rec.payload).take (n - 8) =
          le 8 (UInt64.ofNat rec.payload.length).toNat ++ rec.payload.take (n - 16) := by
        have hsub : n - 8 - 8 = n - 16 := by omega
        rw [List.take_append, length_le, hsub, List.take_of_length_le]
        rw [length_le]
        omega
      rw [htake', readFull_append (length_le 8 _)]
      dsimp only
      rw [ofNat_le_uint64, payload_fits h, if_neg (by omega)]
      unfold readFull
      rw [if_neg (by rw [List.length_take]; omega)]
      split
      · exact ⟨_, rfl⟩
      · exact ⟨_, rfl⟩
      · rename_i hcases
        split at hcases <;> cases hcases

/-- No stream makes the reader panic. -/
theorem readRecord_safe (lastSeq : Int64) (bytes : List UInt8) :
    (readRecord lastSeq bytes).Safe := by
  unfold readRecord
  split
  · exact Attempt.safe_ok _
  · exact Attempt.safe_error _
  · dsimp only
    split
    · exact Attempt.safe_error _
    · exact Attempt.safe_error _
    · split
      · exact Attempt.safe_error _
      · split
        · exact Attempt.safe_error _
        · exact Attempt.safe_error _
        · rename_i buf rest _
          split
          · exact Attempt.safe_ok _
          · exact Attempt.safe_error _
          · rename_i hpanic
            exact absurd hpanic (parseSSDRecord_safe _ buf)

end Records

section Streams

variable {startSeq endMs nowMs : Int64} {lastSeq : Int64} {st : SsdDecodeStats} {s s' : σ}
  {onRecord : SsdBinlogRecord → σ → Attempt String σ} {rec : SsdBinlogRecord}
  {bytes rest : List UInt8} {message : String}

theorem readRecords_error (h : readRecord lastSeq bytes = .error message) :
    readRecords startSeq endMs onRecord bytes lastSeq st s = (st, s, .error message) := by
  rw [readRecords]
  split
  · rename_i hpanic
    cases h.symm.trans hpanic
  · rename_i message' herror
    cases h.symm.trans herror
    rfl
  · rename_i hend
    cases h.symm.trans hend
  · rename_i hnext
    cases h.symm.trans hnext

theorem readRecords_end (h : readRecord lastSeq bytes = .ok none) :
    readRecords startSeq endMs onRecord bytes lastSeq st s = (st, s, .ok ()) := by
  rw [readRecords]
  split
  · rename_i hpanic
    cases h.symm.trans hpanic
  · rename_i message' herror
    cases h.symm.trans herror
  · rfl
  · rename_i hnext
    cases h.symm.trans hnext

theorem readRecords_nil :
    readRecords startSeq endMs onRecord [] lastSeq st s = (st, s, .ok ()) := readRecords_end rfl

/-- What the loop does with the record that it reads. -/
theorem readRecords_next (h : readRecord lastSeq bytes = .ok (some (rec, rest))) :
    readRecords startSeq endMs onRecord bytes lastSeq st s =
      if rec.seq < startSeq then readRecords startSeq endMs onRecord rest rec.seq st s
      else if endMs < rec.ts then ({ st with stoppedAtEnd := true }, s, .ok ())
      else
        let st : SsdDecodeStats :=
          { st with
            firstSeq := if st.records = 0 then rec.seq else st.firstSeq
            lastSeq := rec.seq
            records := st.records + 1 }
        match onRecord rec s with
        | .panic => (st, s, .panic)
        | .error message => (st, s, .error message)
        | .ok s => readRecords startSeq endMs onRecord rest rec.seq st s := by
  rw [readRecords]
  split
  · rename_i hpanic
    cases h.symm.trans hpanic
  · rename_i message' herror
    cases h.symm.trans herror
  · rename_i hend
    cases h.symm.trans hend
  · rename_i rec' rest' hnext
    cases h.symm.trans hnext
    rfl

/-- The records of the replay: those from the start on, up to the first past the end. -/
def replayWindow (startSeq endMs : Int64) (entries : List (SsdBinlogRecord × SsdWrite)) :
    List (SsdBinlogRecord × SsdWrite) :=
  (entries.filter fun e => startSeq ≤ e.1.seq).takeWhile fun e => e.1.ts ≤ endMs

/-- The records that come from the start on all fall before the end. -/
def BeforeEnd (startSeq endMs : Int64) (entries : List (SsdBinlogRecord × SsdWrite)) : Prop :=
  ∀ e ∈ entries, startSeq ≤ e.1.seq → e.1.ts ≤ endMs

theorem beforeEnd_cons {e : SsdBinlogRecord × SsdWrite}
    {entries : List (SsdBinlogRecord × SsdWrite)} :
    BeforeEnd startSeq endMs (e :: entries) ↔
      (startSeq ≤ e.1.seq → e.1.ts ≤ endMs) ∧ BeforeEnd startSeq endMs entries :=
  List.forall_mem_cons

instance {entries : List (SsdBinlogRecord × SsdWrite)} :
    Decidable (BeforeEnd startSeq endMs entries) :=
  inferInstanceAs (Decidable (∀ e ∈ entries, startSeq ≤ e.1.seq → e.1.ts ≤ endMs))

/-- A write and its record, which is not longer than the reader takes. -/
def Logged (e : SsdBinlogRecord × SsdWrite) : Prop :=
  Carries e.1 e.2 ∧ e.1.payload.length ≤ maxSSDBinlogRecord

/-- The records and the commands of some writes. -/
def collected (nowMs : Int64) (entries : List (SsdBinlogRecord × SsdWrite)) :
    List SsdBinlogRecord × List (List (List UInt8)) :=
  (entries.map Prod.fst, entries.filterMap fun e => e.2.command nowMs)

theorem collect_logged {e : SsdBinlogRecord × SsdWrite} (h : Logged e)
    (s : List SsdBinlogRecord × List (List (List UInt8))) :
    collect nowMs e.1 s =
      .ok (s.1 ++ (collected nowMs [e]).1, s.2 ++ (collected nowMs [e]).2) := by
  obtain ⟨hcarries, hfits⟩ := h
  have hlength := @length_payload e.1
  have hmax : maxSSDBinlogRecord < 2 ^ 31 := by decide
  rw [collect, command_carries hcarries (by omega), Attempt.ok_bind]
  cases hcommand : e.2.command nowMs <;> simp [collected, hcommand]

theorem collected_cons (e : SsdBinlogRecord × SsdWrite)
    (entries : List (SsdBinlogRecord × SsdWrite)) :
    collected nowMs (e :: entries) = ((collected nowMs [e]).1 ++ (collected nowMs entries).1,
      (collected nowMs [e]).2 ++ (collected nowMs entries).2) := by
  cases hcommand : e.2.command nowMs <;> simp [collected, hcommand]

/-- The loop over records that were written one after another: it keeps those of the window, and
goes on behind them unless one was past the end. -/
theorem readRecords_entries (tail : List UInt8) (entries : List (SsdBinlogRecord × SsdWrite))
    (h : ∀ e ∈ entries, Logged e) (lastSeq : Int64) (st : SsdDecodeStats)
    (s : List SsdBinlogRecord × List (List (List UInt8))) :
    ∃ lastSeq' st', st'.records = st.records + (replayWindow startSeq endMs entries).length ∧
      readRecords startSeq endMs (collect nowMs) (entries.flatMap (fun e => e.1.encode) ++ tail)
          lastSeq st s =
        let s' := (s.1 ++ (collected nowMs (replayWindow startSeq endMs entries)).1,
          s.2 ++ (collected nowMs (replayWindow startSeq endMs entries)).2)
        if BeforeEnd startSeq endMs entries then
          readRecords startSeq endMs (collect nowMs) tail lastSeq' st' s'
        else (st', s', .ok ()) := by
  induction entries generalizing lastSeq st s with
  | nil =>
    refine ⟨lastSeq, st, rfl, ?_⟩
    have hall : BeforeEnd startSeq endMs [] := by
      intro e he
      cases he
    rw [if_pos hall]
    simp [replayWindow, collected]
  | cons e entries ih =>
    have he : Logged e := h e List.mem_cons_self
    have hentries : ∀ e ∈ entries, Logged e := fun e he => h e (List.mem_cons_of_mem _ he)
    have hbytes : (e :: entries).flatMap (fun e => e.1.encode) ++ tail =
        e.1.encode ++ (entries.flatMap (fun e => e.1.encode) ++ tail) := by
      rw [List.flatMap_cons, List.append_assoc]
    rw [hbytes, readRecords_next (readRecord_encode he.2)]
    by_cases hstart : e.1.seq < startSeq
    · -- skipped: the window is the one of the records behind it
      have hwindow : replayWindow startSeq endMs (e :: entries) =
          replayWindow startSeq endMs entries := by
        simp [replayWindow, Int64.not_le.mpr hstart]
      have hall : BeforeEnd startSeq endMs entries ↔ BeforeEnd startSeq endMs (e :: entries) :=
        ⟨fun hall => beforeEnd_cons.mpr ⟨fun hseq => absurd hstart (Int64.not_lt.mpr hseq), hall⟩,
          fun hall => (beforeEnd_cons.mp hall).2⟩
      rw [if_pos hstart, hwindow]
      obtain ⟨lastSeq', st', hrecords, heq⟩ := ih hentries e.1.seq st s
      refine ⟨lastSeq', st', hrecords, ?_⟩
      rw [heq]
      exact if_congr hall rfl rfl
    · rw [if_neg hstart]
      by_cases hend : endMs < e.1.ts
      · have hwindow : replayWindow startSeq endMs (e :: entries) = [] := by
          rw [replayWindow, List.filter_cons_of_pos (by simpa using hstart),
            List.takeWhile_cons_of_neg (by simpa using hend)]
        have hall : ¬ BeforeEnd startSeq endMs (e :: entries) :=
          fun hall => Int64.not_le.mpr hend (hall e List.mem_cons_self (Int64.not_lt.mp hstart))
        refine ⟨lastSeq, { st with stoppedAtEnd := true }, by rw [hwindow]; rfl, ?_⟩
        rw [if_pos hend, if_neg hall, hwindow]
        simp [collected]
      · have hwindow : replayWindow startSeq endMs (e :: entries) =
            e :: replayWindow startSeq endMs entries := by
          simp [replayWindow, Int64.not_lt.mp hstart, Int64.not_lt.mp hend]
        have hall : BeforeEnd startSeq endMs entries ↔ BeforeEnd startSeq endMs (e :: entries) :=
          ⟨fun hall => beforeEnd_cons.mpr ⟨fun _ => Int64.not_lt.mp hend, hall⟩,
            fun hall => (beforeEnd_cons.mp hall).2⟩
        rw [if_neg hend, collect_logged he]
        dsimp only
        obtain ⟨lastSeq', st', hrecords, heq⟩ := ih hentries e.1.seq _ _
        refine ⟨lastSeq', st', ?records, ?run⟩
        case run =>
          rw [heq, hwindow, collected_cons e (replayWindow _ _ _), List.append_assoc,
            List.append_assoc]
          exact if_congr hall rfl rfl
        case records =>
          rw [hrecords, hwindow, List.length_cons]
          dsimp only
          omega

/-- No stream makes the loop panic. -/
theorem readRecords_safe (n : ℕ) (hn : bytes.length ≤ n)
    (s : List SsdBinlogRecord × List (List (List UInt8))) :
    (readRecords startSeq endMs (collect nowMs) bytes lastSeq st s).2.2.Safe := by
  induction n generalizing bytes lastSeq st s with
  | zero =>
    have hnil : bytes = [] := List.eq_nil_of_length_eq_zero (by omega)
    rw [hnil, readRecords_nil]
    exact Attempt.safe_ok _
  | succ n ih =>
    cases hread : readRecord lastSeq bytes with
    | panic => exact absurd hread (readRecord_safe lastSeq bytes)
    | error message =>
      rw [readRecords_error hread]
      exact Attempt.safe_error _
    | ok next =>
      cases next with
      | none =>
        rw [readRecords_end hread]
        exact Attempt.safe_ok _
      | some next =>
        obtain ⟨rec, rest⟩ := next
        have hshorter := readRecord_shorter hread
        rw [readRecords_next hread]
        split
        · exact ih (by omega) _
        · split
          · exact Attempt.safe_ok _
          · dsimp only
            split
            · rename_i hpanic
              refine absurd hpanic ((command_safe rec nowMs).bind fun args _ => ?_)
              exact Attempt.safe_ok _
            · exact Attempt.safe_error _
            · exact ih (by omega) _

end Streams

/-- Decoding what was written gives the records of the replay window, in order, and the commands
of their writes; a stream cut inside a record that the replay comes to is an error; and no bytes
at all make the decoding panic. -/
theorem decodeSSDBinlog_encode (startSeq : UInt64) (endMs nowMs : Int64) :
    (∀ entries : List (SsdBinlogRecord × SsdWrite), (∀ e ∈ entries, Logged e) →
      (∃ st, st.records = (replayWindow startSeq.toInt64 endMs entries).length ∧
        decodeSSDBinlog (entries.flatMap fun e => e.1.encode) startSeq endMs nowMs =
          (st, collected nowMs (replayWindow startSeq.toInt64 endMs entries), .ok ())) ∧
      ∀ (rec : SsdBinlogRecord) (n : ℕ), BeforeEnd startSeq.toInt64 endMs entries →
        rec.payload.length ≤ maxSSDBinlogRecord → 0 < n → n < rec.encode.length →
          ∃ st message, decodeSSDBinlog ((entries.flatMap fun e => e.1.encode) ++ rec.encode.take n)
              startSeq endMs nowMs =
            (st, collected nowMs (replayWindow startSeq.toInt64 endMs entries), .error message)) ∧
    ∀ bytes, (decodeSSDBinlog bytes startSeq endMs nowMs).2.2 ≠ .panic := by
  refine ⟨fun entries hentries => ⟨?_, ?_⟩, ?_⟩
  · obtain ⟨lastSeq, st, hrecords, heq⟩ := @readRecords_entries startSeq.toInt64 endMs nowMs []
      entries hentries 0 ⟨0, 0, 0, false⟩ ([], [])
    refine ⟨st, hrecords.trans (Nat.zero_add _), ?_⟩
    rw [List.append_nil] at heq
    rw [decodeSSDBinlog, readSSDBinlog, heq]
    dsimp only
    rw [readRecords_nil, ite_self]
    rfl
  · intro rec n hall hfits hn hcut
    obtain ⟨lastSeq, st, -, heq⟩ := @readRecords_entries startSeq.toInt64 endMs nowMs
      (rec.encode.take n) entries hentries 0 ⟨0, 0, 0, false⟩ ([], [])
    obtain ⟨message, hmessage⟩ := @readRecord_cut rec lastSeq n hfits hn hcut
    refine ⟨st, message, ?_⟩
    rw [decodeSSDBinlog, readSSDBinlog, heq]
    dsimp only
    rw [if_pos hall, readRecords_error hmessage]
    rfl
  · intro bytes
    exact readRecords_safe bytes.length le_rfl ([], [])

/-- The record of `del k` at one sequence number and time. -/
def delRecord (seq ts : Int64) (val : List UInt8) : SsdBinlogRecord :=
  { seq, logType := LogType.kdel.code, enc := 0, ttl := 0, ts, key := [0, 0, 0, 0, 97, 107], val,
    aux := [] }

theorem delRecord_carries (seq ts : Int64) (val : List UInt8) :
    Carries (delRecord seq ts val) (.del [107]) :=
  ⟨rfl, 97, [0, 0, 0, 0], rfl, rfl⟩

theorem decodeSSDBinlog_encode_del :
    (∃ st, st.records = 1 ∧ decodeSSDBinlog (delRecord 7 1000 []).encode 5 2000 0 =
      (st, ([delRecord 7 1000 []], [[word "del", [107]]]), .ok ())) ∧
    ∃ st message, decodeSSDBinlog ((delRecord 7 1000 []).encode ++
        (delRecord 8 3000 []).encode.take 20) 5 2000 0 =
      (st, ([delRecord 7 1000 []], [[word "del", [107]]]), .error message) := by
  have hentries : ∀ e ∈ [(delRecord 7 1000 [], SsdWrite.del [107])], Logged e := by
    intro e he
    rw [List.mem_singleton.mp he]
    exact ⟨delRecord_carries 7 1000 [], by decide⟩
  have hend : BeforeEnd (5 : UInt64).toInt64 2000 [(delRecord 7 1000 [], SsdWrite.del [107])] := by
    intro e he _
    rw [List.mem_singleton.mp he]
    decide
  obtain ⟨hall, hcut⟩ := (decodeSSDBinlog_encode 5 2000 0).1 _ hentries
  exact ⟨hall, hcut (delRecord 8 3000 []) 20 hend (by decide) (by decide) (by decide)⟩

/-- A record with a negative sequence number lies before every start, and one of more than 1 GiB
is refused whatever the window. -/
theorem decodeSSDBinlog_partial :
    (decodeSSDBinlog (delRecord (-1) 0 []).encode 0 (2 ^ 63 - 1) 0).2.1 = ([], []) ∧
    ¬ ∀ entries : List (SsdBinlogRecord × SsdWrite), (∀ e ∈ entries, Carries e.1 e.2) →
      ∃ startSeq endMs nowMs st, decodeSSDBinlog (entries.flatMap fun e => e.1.encode)
        startSeq endMs nowMs = (st, collected nowMs entries, .ok ()) := by
  constructor
  · have hread : readRecord 0 (delRecord (-1) 0 []).encode =
        .ok (some (delRecord (-1) 0 [], [])) := by
      have hencode := @readRecord_encode (delRecord (-1) 0 []) 0 [] (by decide)
      rwa [List.append_nil] at hencode
    rw [decodeSSDBinlog, readSSDBinlog, readRecords_next hread, if_pos (by decide),
      readRecords_nil]
  · intro hdecode
    obtain ⟨val, hval⟩ : ∃ val : List UInt8, val.length = maxSSDBinlogRecord :=
      ⟨List.replicate maxSSDBinlogRecord 0, List.length_replicate⟩
    have hmax : maxSSDBinlogRecord + 46 < 2 ^ 64 := by decide
    have hcarries : ∀ e ∈ [(delRecord 0 0 val, SsdWrite.del [107])],
        Carries e.1 e.2 := by
      intro e he
      rw [List.mem_singleton.mp he]
      exact delRecord_carries 0 0 _
    obtain ⟨startSeq, endMs, nowMs, st, heq⟩ := hdecode _ hcarries
    have hlength : (delRecord 0 0 val).payload.length = maxSSDBinlogRecord + 46 := by
      rw [length_payload]
      simp only [delRecord, hval, List.length_cons, List.length_nil]
      omega
    obtain ⟨message, hmessage⟩ := @readRecord_long (delRecord 0 0 val) 0 []
      (by omega) (by omega)
    rw [List.flatMap_cons, List.flatMap_nil, decodeSSDBinlog, readSSDBinlog,
      readRecords_error hmessage] at heq
    cases (Prod.mk.inj (Prod.mk.inj heq).2).2

end Rollback
