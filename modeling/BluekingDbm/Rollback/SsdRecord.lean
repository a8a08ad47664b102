import BluekingDbm.Library.Bytes
import BluekingDbm.Library.Text

/-! A record of a TendisSSD binlog: its fields, and the command that it stands for. -/
namespace Rollback

open Bytes

/-- Skips the db id, an optional version injected over it, and the type byte. -/
def rawKeyOffset : ℕ := 4 + 1

/-- The int32 key name length in front of a collection key's name. -/
def itemKeySize : ℕ := 4

/-- Skips the version meta key's prefix, db id and type. -/
def asyncDelKeyOffset : ℕ := 4 + 2 + 1

/-- REDIS_ENCODING_INT: the value is stored as a long instead of bytes. -/
def intEncoding : Int32 := 1

/-- The binlog types; 14 and 15 are not assigned. -/
inductive LogType
  | kset
  | kdel
  | lpush
  | rpush
  | lpop
  | rpop
  | lset
  | hset
  | hdel
  | sadd
  | srem
  | zadd
  | zrem
  | expire
  | cas
  | asyncDel
  | syncVsn
  | rclVsn
  deriving DecidableEq

namespace LogType

def code : LogType → Int32
  | kset => 0
  | kdel => 1
  | lpush => 2
  | rpush => 3
  | lpop => 4
  | rpop => 5
  | lset => 6
  | hset => 7
  | hdel => 8
  | sadd => 9
  | srem => 10
  | zadd => 11
  | zrem => 12
  | expire => 13
  | cas => 16
  | asyncDel => 17
  | syncVsn => 18
  | rclVsn => 19

def all : List LogType :=
  [kset, kdel, lpush, rpush, lpop, rpop, lset, hset, hdel, sadd, srem, zadd, zrem, expire, cas,
    asyncDel, syncVsn, rclVsn]

/-- The type that a record's number stands for. -/
def ofCode (code : Int32) : Option LogType := all.find? fun logType => logType.code = code

theorem ofCode_code (logType : LogType) : ofCode logType.code = some logType := by
  cases logType <;> rfl

end LogType

structure SsdBinlogRecord where
  seq : Int64
  logType : Int32
  enc : Int32
  ttl : Int64
  ts : Int64
  key : List UInt8
  val : List UInt8
  aux : List UInt8
  deriving DecidableEq

/-- The bytes of a word. -/
def word (s : String) : List UInt8 := s.toUTF8.data.toList

/-- `strconv.FormatInt`, to base 10. -/
def formatInt (n : Int64) : List UInt8 := word (Text.decimal n.toInt)

namespace SsdBinlogRecord

variable (rec : SsdBinlogRecord)

/-- The key name of a string key, or of a cas key. -/
def plainName : Attempt String (List UInt8) :=
  if rec.key.length < rawKeyOffset then .error s!"key of {rec.key.length} bytes is too short"
  else slice rec.key rawKeyOffset rec.key.length

/-- A collection key's name and the member stored after it. -/
def itemName : Attempt String (List UInt8 × List UInt8) :=
  if rec.key.length < rawKeyOffset + itemKeySize then
    .error s!"collection key of {rec.key.length} bytes is too short"
  else
    (uint32At rec.key rawKeyOffset).bind fun n =>
      let n := n.toInt32
      let start := rawKeyOffset + itemKeySize
      if n < 0 ∨ n.toInt > rec.key.length - start then
        .error s!"key name length {n} runs past the {rec.key.length}-byte key"
      else
        (slice rec.key start (start + n.toInt.toNat)).bind fun name =>
          (slice rec.key (start + n.toInt.toNat) rec.key.length).bind fun item => .ok (name, item)

def intValue : Attempt String Int64 :=
  if rec.val.length = 0 then .ok 0
  else if rec.val.length < 8 then .error s!"integer value of {rec.val.length} bytes"
  else (uint64At rec.val 0).bind fun v => .ok v.toInt64

/-- The value as a command argument; integer-encoded values are stored as a long. -/
def value : Attempt String (List UInt8) :=
  if rec.enc ≠ intEncoding then .ok rec.val
  else rec.intValue.bind fun v => .ok (formatInt v)

/-- A stored absolute expiry rebased to the replay time and truncated to seconds. -/
def ttlSeconds (nowMs : Int64) : Int64 :=
  (if rec.ttl ≠ -1 ∧ rec.ttl ≠ 0 then rec.ttl - nowMs else rec.ttl) / 1000

/-- What a cas record has between its key and its version. -/
def casValue : Attempt String (List (List UInt8)) :=
  let keyType := rec.key.getD 4 0
  if rec.enc = intEncoding then rec.intValue.bind fun v => .ok [formatInt v]
  else if keyType = 'H'.toUInt8 then
    if rec.val.length < 8 then .error "hash cas without its size"
    else (uint64At rec.val 0).bind fun size => .ok [formatInt size.toInt64]
  else if keyType = 'a'.toUInt8 then
    if rec.val.length < 8 then .error "string cas without its version"
    else (slice rec.val 0 (rec.val.length - 8)).bind fun v => .ok [v]
  else .ok []

def casCommand : Attempt String (List (List UInt8)) :=
  rec.plainName.bind fun name =>
    rec.casValue.bind fun args =>
      if rec.val.length < 8 then .error s!"cas value of {rec.val.length} bytes has no version"
      else
        (uint64At rec.val (rec.val.length - 8)).bind fun vsn =>
          .ok ([word "cas", name] ++ args ++ [formatInt vsn.toInt64])

/-- A push: the command's word, the list and the value. -/
def push (cmd : String) : Attempt String (Option (List (List UInt8))) :=
  rec.itemName.bind fun (name, _) => rec.value.bind fun v => .ok (some [word cmd, name, v])

def pop (cmd : String) : Attempt String (Option (List (List UInt8))) :=
  rec.itemName.bind fun (name, _) => .ok (some [word cmd, name])

/-- An intset member is written in the key as a long instead of bytes. -/
def setMember (cmd : String) : Attempt String (Option (List (List UInt8))) :=
  rec.itemName.bind fun (name, member) =>
    if rec.enc = intEncoding then
      if member.length < 8 then .error s!"integer set member of {member.length} bytes"
      else (uint64At member 0).bind fun v => .ok (some [word cmd, name, formatInt v.toInt64])
    else .ok (some [word cmd, name, member])

/-- The command that a record stands for; none for version metadata, which carries no write. -/
def command (nowMs : Int64) : Attempt String (Option (List (List UInt8))) :=
  match LogType.ofCode rec.logType with
  | some .kset =>
    rec.plainName.bind fun name =>
      rec.value.bind fun v =>
        if rec.ttl = 0 then .ok (some [word "set", name, v])
        else .ok (some [word "setex", name, formatInt (rec.ttlSeconds nowMs), v])
  | some .kdel => rec.plainName.bind fun name => .ok (some [word "del", name])
  | some .lpush => rec.push "lpush"
  | some .rpush => rec.push "rpush"
  | some .lpop => rec.pop "lpop"
  | some .rpop => rec.pop "rpop"
  | some .lset =>
    rec.itemName.bind fun (name, _) =>
      if rec.aux.length < 8 then .error "lset without its list index"
      else
        rec.value.bind fun v =>
          (uint64At rec.aux 0).bind fun index =>
            .ok (some [word "lset", name, formatInt index.toInt64, v])
  | some .hset =>
    rec.itemName.bind fun (name, field) =>
      rec.value.bind fun v => .ok (some [word "hset", name, field, v])
  | some .hdel => rec.itemName.bind fun (name, field) => .ok (some [word "hdel", name, field])
  | some .sadd => rec.setMember "sadd"
  | some .srem => rec.setMember "srem"
  | some .zadd =>
    rec.itemName.bind fun (name, member) =>
      if rec.val.length < 8 then .error "zadd without its score"
      else
        (uint64At rec.val 0).bind fun score =>
          .ok (some [word "zadd", name, formatInt score.toInt64, member])
  | some .zrem => rec.itemName.bind fun (name, member) => .ok (some [word "zrem", name, member])
  | some .expire =>
    rec.plainName.bind fun name =>
      .ok (some [word "expire", name, formatInt (rec.ttlSeconds nowMs)])
  | some .cas => rec.casCommand.bind fun args => .ok (some args)
  | some .asyncDel =>
    if rec.key.length < asyncDelKeyOffset then
      .error s!"async del key of {rec.key.length} bytes is too short"
    else
      (byteAt rec.key 6).bind fun keyType =>
        -- The matching zset record already sends the del.
        if keyType = 'c'.toUInt8 then .ok none
        else
          (slice rec.key asyncDelKeyOffset rec.key.length).bind fun name =>
            .ok (some [word "del", name])
  | some .syncVsn => .ok none
  | some .rclVsn => .ok none
  | none => .error s!"unknown binlog type {rec.logType}"

end SsdBinlogRecord

/-- logtype, enc, ttl, ts, keylen. -/
def recordHeader : ℕ := 4 + 4 + 8 + 8 + 8

/-- One record body split into its fields. -/
def parseSSDRecord (seq : Int64) (buf : List UInt8) : Attempt String SsdBinlogRecord :=
  if buf.length < recordHeader then
    .error s!"body of {buf.length} bytes is shorter than the {recordHeader}-byte header"
  else
    (uint32At buf 0).bind fun logType =>
    (uint32At buf 4).bind fun enc =>
    (uint64At buf 8).bind fun ttl =>
    (uint64At buf 16).bind fun ts =>
    (uint64At buf 24).bind fun keyLen =>
      if keyLen.toNat > buf.length - recordHeader then
        .error s!"key length {keyLen} runs past the {buf.length}-byte body"
      else
        (slice buf recordHeader (recordHeader + keyLen.toNat)).bind fun key =>
          let pos := recordHeader + keyLen.toNat
          if buf.length - pos < 8 then .error "no value length after the key"
          else
            (uint64At buf pos).bind fun valLen =>
              let pos := pos + 8
              if valLen.toNat > buf.length - pos then
                .error s!"value length {valLen} runs past the {buf.length}-byte body"
              else
                (if 0 < valLen.toNat then slice buf pos (pos + valLen.toNat) else .ok []).bind
                  fun val =>
                    (slice buf (pos + valLen.toNat) buf.length).bind fun aux =>
                      .ok
                        { seq, logType := logType.toInt32, enc := enc.toInt32, ttl := ttl.toInt64,
                          ts := ts.toInt64, key, val, aux }

/-- The fields as encLogVal lays them out. -/
def SsdBinlogRecord.payload (rec : SsdBinlogRecord) : List UInt8 :=
  le 4 rec.logType.toUInt32.toNat ++ (le 4 rec.enc.toUInt32.toNat ++
    (le 8 rec.ttl.toUInt64.toNat ++ (le 8 rec.ts.toUInt64.toNat ++
      (le 8 (UInt64.ofNat rec.key.length).toNat ++ (rec.key ++
        (le 8 (UInt64.ofNat rec.val.length).toNat ++ (rec.val ++ rec.aux)))))))

section Parsing

variable {rec : SsdBinlogRecord} {seq : Int64} {buf : List UInt8}

theorem length_payload :
    rec.payload.length = 40 + rec.key.length + rec.val.length + rec.aux.length := by
  simp only [SsdBinlogRecord.payload, List.length_append, length_le]
  omega

/-- A record is read back from its fields. -/
theorem parseSSDRecord_payload (h : rec.payload.length < 2 ^ 64) :
    parseSSDRecord rec.seq rec.payload = .ok rec := by
  have hlength := @length_payload rec
  have hkey : (UInt64.ofNat rec.key.length).toNat = rec.key.length :=
    UInt64.toNat_ofNat_of_lt (lt_of_le_of_lt (show _ ≤ rec.payload.length by omega) h)
  have hval : (UInt64.ofNat rec.val.length).toNat = rec.val.length :=
    UInt64.toNat_ofNat_of_lt (lt_of_le_of_lt (show _ ≤ rec.payload.length by omega) h)
  have hlogType := @uint32At_append String rec.payload [] _ 0 rec.logType.toUInt32 rfl rfl
  have henc := @uint32At_append String rec.payload _ _ 4 rec.enc.toUInt32 rfl (length_le 4 _)
  have httl : uint64At rec.payload 8 = (.ok rec.ttl.toUInt64 : Attempt String _) := by
    apply uint64At_append
    · rw [SsdBinlogRecord.payload, ← List.append_assoc]
    · rw [List.length_append, length_le, length_le]
  have hts : uint64At rec.payload 16 = (.ok rec.ts.toUInt64 : Attempt String _) := by
    apply uint64At_append
    · rw [SsdBinlogRecord.payload, ← List.append_assoc, ← List.append_assoc]
    · simp only [List.length_append, length_le]
  have hkeyLen : uint64At rec.payload 24 =
      (.ok (UInt64.ofNat rec.key.length) : Attempt String _) := by
    apply uint64At_append
    · rw [SsdBinlogRecord.payload, ← List.append_assoc, ← List.append_assoc, ← List.append_assoc]
    · simp only [List.length_append, length_le]
  have hkeySlice : slice rec.payload recordHeader (recordHeader + rec.key.length) =
      (.ok rec.key : Attempt String _) := by
    apply slice_append
    · rw [SsdBinlogRecord.payload, ← List.append_assoc, ← List.append_assoc, ← List.append_assoc,
        ← List.append_assoc]
    · simp only [List.length_append, length_le, recordHeader]
    · rfl
  have hvalLen : uint64At rec.payload (recordHeader + rec.key.length) =
      (.ok (UInt64.ofNat rec.val.length) : Attempt String _) := by
    apply uint64At_append
    · rw [SsdBinlogRecord.payload, ← List.append_assoc, ← List.append_assoc, ← List.append_assoc,
        ← List.append_assoc, ← List.append_assoc]
    · simp only [List.length_append, length_le, recordHeader]
  have hvalSlice : slice rec.payload (recordHeader + rec.key.length + 8)
      (recordHeader + rec.key.length + 8 + rec.val.length) = (.ok rec.val : Attempt String _) := by
    apply slice_append
    · rw [SsdBinlogRecord.payload, ← List.append_assoc, ← List.append_assoc, ← List.append_assoc,
        ← List.append_assoc, ← List.append_assoc, ← List.append_assoc]
    · simp only [List.length_append, length_le, recordHeader]
    · rfl
  have haux : slice rec.payload (recordHeader + rec.key.length + 8 + rec.val.length)
      rec.payload.length = (.ok rec.aux : Attempt String _) := by
    apply @slice_append _ _ _ _ []
    · rw [SsdBinlogRecord.payload, ← List.append_assoc, ← List.append_assoc, ← List.append_assoc,
        ← List.append_assoc, ← List.append_assoc, ← List.append_assoc, ← List.append_assoc,
        List.append_nil]
    · simp only [List.length_append, length_le, recordHeader]
    · rw [hlength]
      simp only [recordHeader]
      omega
  have hslices : (if 0 < rec.val.length then slice rec.payload (recordHeader + rec.key.length + 8)
      (recordHeader + rec.key.length + 8 + rec.val.length) else .ok []) =
        (.ok rec.val : Attempt String _) := by
    split
    · exact hvalSlice
    · rename_i hzero
      rw [List.eq_nil_of_length_eq_zero (Nat.eq_zero_of_not_pos hzero)]
  unfold parseSSDRecord
  rw [if_neg (by rw [hlength, recordHeader]; omega), hlogType, Attempt.ok_bind, henc,
    Attempt.ok_bind, httl, Attempt.ok_bind, hts, Attempt.ok_bind, hkeyLen, Attempt.ok_bind, hkey,
    if_neg (by rw [hlength, recordHeader]; omega), hkeySlice, Attempt.ok_bind]
  dsimp only
  rw [if_neg (by rw [hlength, recordHeader]; omega), hvalLen, Attempt.ok_bind, hval,
    if_neg (by rw [hlength, recordHeader]; omega), hslices, Attempt.ok_bind, haux, Attempt.ok_bind]
  rfl

/-- No body makes the parser panic. -/
theorem parseSSDRecord_safe (seq : Int64) (buf : List UInt8) : (parseSSDRecord seq buf).Safe := by
  have hsize : recordHeader = 32 := rfl
  unfold parseSSDRecord
  split
  · exact Attempt.safe_error _
  · rename_i hheader
    refine (uint32At_safe (by omega)).bind fun logType _ => ?_
    refine (uint32At_safe (by omega)).bind fun enc _ => ?_
    refine (uint64At_safe (by omega)).bind fun ttl _ => ?_
    refine (uint64At_safe (by omega)).bind fun ts _ => ?_
    refine (uint64At_safe (by omega)).bind fun keyLen _ => ?_
    split
    · exact Attempt.safe_error _
    · rename_i hkey
      refine (slice_safe (by omega) (by omega)).bind fun key _ => ?_
      dsimp only
      split
      · exact Attempt.safe_error _
      · rename_i hlen
        refine (uint64At_safe (by omega)).bind fun valLen _ => ?_
        split
        · exact Attempt.safe_error _
        · rename_i hval
          have hvalSafe : (if 0 < valLen.toNat then
              slice buf (recordHeader + keyLen.toNat + 8)
                (recordHeader + keyLen.toNat + 8 + valLen.toNat)
              else .ok [] : Attempt String _).Safe := by
            split
            · exact slice_safe (by omega) (by omega)
            · exact Attempt.safe_ok _
          refine hvalSafe.bind fun val _ => ?_
          refine (slice_safe (by omega) (by omega)).bind fun aux _ => ?_
          exact Attempt.safe_ok _

end Parsing

section Safety

variable (rec : SsdBinlogRecord)

theorem plainName_safe : rec.plainName.Safe := by
  unfold SsdBinlogRecord.plainName
  split
  · exact Attempt.safe_error _
  · exact slice_safe (by omega) (le_refl _)

theorem itemName_safe : rec.itemName.Safe := by
  have hsizes : rawKeyOffset = 5 ∧ itemKeySize = 4 := ⟨rfl, rfl⟩
  unfold SsdBinlogRecord.itemName
  split
  · exact Attempt.safe_error _
  · rename_i hlong
    refine (uint32At_safe (by omega)).bind fun n _ => ?_
    dsimp only
    split
    · exact Attempt.safe_error _
    · rename_i hname
      refine (slice_safe (by omega) (by omega)).bind fun name _ => ?_
      refine (slice_safe (by omega) (by omega)).bind fun item _ => ?_
      exact Attempt.safe_ok _

theorem intValue_safe : rec.intValue.Safe := by
  unfold SsdBinlogRecord.intValue
  split
  · exact Attempt.safe_ok _
  · split
    · exact Attempt.safe_error _
    · exact (uint64At_safe (by omega)).bind fun v _ => Attempt.safe_ok _

theorem value_safe : rec.value.Safe := by
  unfold SsdBinlogRecord.value
  split
  · exact Attempt.safe_ok _
  · exact (intValue_safe rec).bind fun v _ => Attempt.safe_ok _

theorem casValue_safe : rec.casValue.Safe := by
  unfold SsdBinlogRecord.casValue
  dsimp only
  split
  · exact (intValue_safe rec).bind fun v _ => Attempt.safe_ok _
  · split
    · split
      · exact Attempt.safe_error _
      · exact (uint64At_safe (by omega)).bind fun size _ => Attempt.safe_ok _
    · split
      · split
        · exact Attempt.safe_error _
        · exact (slice_safe (by omega) (by omega)).bind fun v _ => Attempt.safe_ok _
      · exact Attempt.safe_ok _

theorem casCommand_safe : rec.casCommand.Safe := by
  refine (plainName_safe rec).bind fun name _ => ?_
  refine (casValue_safe rec).bind fun args _ => ?_
  split
  · exact Attempt.safe_error _
  · exact (uint64At_safe (by omega)).bind fun vsn _ => Attempt.safe_ok _

theorem push_safe (cmd : String) : (rec.push cmd).Safe :=
  (itemName_safe rec).bind fun _ _ => (value_safe rec).bind fun _ _ => Attempt.safe_ok _

theorem pop_safe (cmd : String) : (rec.pop cmd).Safe :=
  (itemName_safe rec).bind fun _ _ => Attempt.safe_ok _

theorem setMember_safe (cmd : String) : (rec.setMember cmd).Safe := by
  refine (itemName_safe rec).bind fun name _ => ?_
  dsimp only
  split
  · split
    · exact Attempt.safe_error _
    · exact (uint64At_safe (by omega)).bind fun v _ => Attempt.safe_ok _
  · exact Attempt.safe_ok _

/-- No record makes its command panic. -/
theorem command_safe (nowMs : Int64) : (rec.command nowMs).Safe := by
  unfold SsdBinlogRecord.command
  split
  · refine (plainName_safe rec).bind fun name _ => (value_safe rec).bind fun v _ => ?_
    split <;> exact Attempt.safe_ok _
  · exact (plainName_safe rec).bind fun _ _ => Attempt.safe_ok _
  · exact push_safe rec _
  · exact push_safe rec _
  · exact pop_safe rec _
  · exact pop_safe rec _
  · refine (itemName_safe rec).bind fun name _ => ?_
    dsimp only
    split
    · exact Attempt.safe_error _
    · refine (value_safe rec).bind fun v _ => ?_
      exact (uint64At_safe (by omega)).bind fun index _ => Attempt.safe_ok _
  · exact (itemName_safe rec).bind fun _ _ => (value_safe rec).bind fun _ _ => Attempt.safe_ok _
  · exact (itemName_safe rec).bind fun _ _ => Attempt.safe_ok _
  · exact setMember_safe rec _
  · exact setMember_safe rec _
  · refine (itemName_safe rec).bind fun name _ => ?_
    dsimp only
    split
    · exact Attempt.safe_error _
    · exact (uint64At_safe (by omega)).bind fun score _ => Attempt.safe_ok _
  · exact (itemName_safe rec).bind fun _ _ => Attempt.safe_ok _
  · exact (plainName_safe rec).bind fun _ _ => Attempt.safe_ok _
  · exact (casCommand_safe rec).bind fun _ _ => Attempt.safe_ok _
  · split
    · exact Attempt.safe_error _
    · rename_i hlong
      have hsize : asyncDelKeyOffset = 7 := rfl
      refine (byteAt_safe (by omega)).bind fun keyType _ => ?_
      split
      · exact Attempt.safe_ok _
      · exact (slice_safe (by omega) (le_refl _)).bind fun _ _ => Attempt.safe_ok _
  · exact Attempt.safe_ok _
  · exact Attempt.safe_ok _
  · exact Attempt.safe_error _

end Safety

end Rollback
