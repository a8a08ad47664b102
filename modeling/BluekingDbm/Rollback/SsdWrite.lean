import BluekingDbm.Rollback.SsdRecord

/-! The writes that binlog records carry, and how their keys and values are laid out. -/
namespace Rollback

open Bytes

/-- A value as tendisssd stores it. -/
inductive SsdValue
  | bytes (b : List UInt8)
  | long (n : Int64)

def SsdValue.arg : SsdValue → List UInt8
  | bytes b => b
  | long n => formatInt n

/-- What a cas puts in: a string, the size of a hash, a long, or nothing but its version. -/
inductive CasValue
  | string (b : List UInt8)
  | hashSize (n : Int64)
  | long (n : Int64)
  | none

def CasValue.args : CasValue → List (List UInt8)
  | string b => [b]
  | hashSize n => [formatInt n]
  | long n => [formatInt n]
  | none => []

/-- A write; `expireAt` is an absolute time in milliseconds, 0 for none. -/
inductive SsdWrite
  | set (name : List UInt8) (value : SsdValue) (expireAt : Int64)
  | del (name : List UInt8)
  | lpush (name : List UInt8) (value : SsdValue)
  | rpush (name : List UInt8) (value : SsdValue)
  | lpop (name : List UInt8)
  | rpop (name : List UInt8)
  | lset (name : List UInt8) (index : Int64) (value : SsdValue)
  | hset (name field : List UInt8) (value : SsdValue)
  | hdel (name field : List UInt8)
  | sadd (name : List UInt8) (member : SsdValue)
  | srem (name : List UInt8) (member : SsdValue)
  | zadd (name member : List UInt8) (score : Int64)
  | zrem (name member : List UInt8)
  | expire (name : List UInt8) (expireAt : Int64)
  | cas (name : List UInt8) (value : CasValue) (vsn : Int64)
  | asyncDel (keyType : UInt8) (name : List UInt8)
  | version

/-- The seconds that a write's expiry leaves at the replay time. -/
def secondsLeft (expireAt nowMs : Int64) : Int64 :=
  (if expireAt ≠ -1 ∧ expireAt ≠ 0 then expireAt - nowMs else expireAt) / 1000

namespace SsdWrite

/-- The command that a write is replayed with. -/
def command (nowMs : Int64) : SsdWrite → Option (List (List UInt8))
  | set name value expireAt =>
    if expireAt = 0 then some [word "set", name, value.arg]
    else some [word "setex", name, formatInt (secondsLeft expireAt nowMs), value.arg]
  | del name => some [word "del", name]
  | lpush name value => some [word "lpush", name, value.arg]
  | rpush name value => some [word "rpush", name, value.arg]
  | lpop name => some [word "lpop", name]
  | rpop name => some [word "rpop", name]
  | lset name index value => some [word "lset", name, formatInt index, value.arg]
  | hset name field value => some [word "hset", name, field, value.arg]
  | hdel name field => some [word "hdel", name, field]
  | sadd name member => some [word "sadd", name, member.arg]
  | srem name member => some [word "srem", name, member.arg]
  | zadd name member score => some [word "zadd", name, formatInt score, member]
  | zrem name member => some [word "zrem", name, member]
  | expire name expireAt => some [word "expire", name, formatInt (secondsLeft expireAt nowMs)]
  | cas name value vsn => some ([word "cas", name] ++ value.args ++ [formatInt vsn])
  | asyncDel keyType name => if keyType = 'c'.toUInt8 then none else some [word "del", name]
  | version => none

end SsdWrite

/-- The bytes of a long. -/
def long (n : Int64) : List UInt8 := le 8 n.toUInt64.toNat

/-- A string key: db id, type, then the name. -/
def PlainKey (key : List UInt8) (keyType : UInt8) (name : List UInt8) : Prop :=
  ∃ dbId : List UInt8, dbId.length = 4 ∧ key = dbId ++ keyType :: name

/-- A collection key: db id, type, key name length, name, item. -/
def ItemKey (key name item : List UInt8) : Prop :=
  ∃ (dbId : List UInt8) (keyType : UInt8), dbId.length = 4 ∧
    key = dbId ++ keyType :: (le 4 (UInt32.ofNat name.length).toNat ++ (name ++ item))

/-- A value as it stands in a record. -/
def StoredValue (rec : SsdBinlogRecord) : SsdValue → Prop
  | .bytes b => rec.enc ≠ intEncoding ∧ rec.val = b
  | .long n => rec.enc = intEncoding ∧ rec.val = long n

/-- A set's member as it stands behind the set's name. -/
def StoredMember (rec : SsdBinlogRecord) (item : List UInt8) : SsdValue → Prop
  | .bytes b => rec.enc ≠ intEncoding ∧ item = b
  | .long n => rec.enc = intEncoding ∧ item = long n

/-- A cas value and the version behind it; a long alone is its own version. -/
def StoredCas (rec : SsdBinlogRecord) (keyType : UInt8) (vsn : Int64) : CasValue → Prop
  | .string b => rec.enc ≠ intEncoding ∧ keyType = 'a'.toUInt8 ∧ rec.val = b ++ long vsn
  | .hashSize n => rec.enc ≠ intEncoding ∧ keyType = 'H'.toUInt8 ∧ rec.val = long n ++ long vsn
  | .long n =>
    rec.enc = intEncoding ∧ (rec.val = long n ++ long vsn ∨ rec.val = long n ∧ vsn = n)
  | .none => rec.enc ≠ intEncoding ∧ keyType ≠ 'a'.toUInt8 ∧ keyType ≠ 'H'.toUInt8 ∧
    ∃ b, rec.val = b ++ long vsn

/-- The record of a write; what its type does not use may be anything. -/
def Carries (rec : SsdBinlogRecord) : SsdWrite → Prop
  | .set name value expireAt => rec.logType = LogType.kset.code ∧
    (∃ keyType, PlainKey rec.key keyType name) ∧ StoredValue rec value ∧ rec.ttl = expireAt
  | .del name => rec.logType = LogType.kdel.code ∧ ∃ keyType, PlainKey rec.key keyType name
  | .lpush name value => rec.logType = LogType.lpush.code ∧
    (∃ item, ItemKey rec.key name item) ∧ StoredValue rec value
  | .rpush name value => rec.logType = LogType.rpush.code ∧
    (∃ item, ItemKey rec.key name item) ∧ StoredValue rec value
  | .lpop name => rec.logType = LogType.lpop.code ∧ ∃ item, ItemKey rec.key name item
  | .rpop name => rec.logType = LogType.rpop.code ∧ ∃ item, ItemKey rec.key name item
  | .lset name index value => rec.logType = LogType.lset.code ∧
    (∃ item, ItemKey rec.key name item) ∧ StoredValue rec value ∧ rec.aux = long index
  | .hset name field value => rec.logType = LogType.hset.code ∧ ItemKey rec.key name field ∧
    StoredValue rec value
  | .hdel name field => rec.logType = LogType.hdel.code ∧ ItemKey rec.key name field
  | .sadd name member => rec.logType = LogType.sadd.code ∧
    ∃ item, ItemKey rec.key name item ∧ StoredMember rec item member
  | .srem name member => rec.logType = LogType.srem.code ∧
    ∃ item, ItemKey rec.key name item ∧ StoredMember rec item member
  | .zadd name member score => rec.logType = LogType.zadd.code ∧ ItemKey rec.key name member ∧
    rec.val = long score
  | .zrem name member => rec.logType = LogType.zrem.code ∧ ItemKey rec.key name member
  | .expire name expireAt => rec.logType = LogType.expire.code ∧
    (∃ keyType, PlainKey rec.key keyType name) ∧ rec.ttl = expireAt
  | .cas name value vsn => rec.logType = LogType.cas.code ∧
    ∃ keyType, PlainKey rec.key keyType name ∧ StoredCas rec keyType vsn value
  | .asyncDel keyType name => rec.logType = LogType.asyncDel.code ∧
    ∃ metaPrefix : List UInt8, metaPrefix.length = 6 ∧ rec.key = metaPrefix ++ keyType :: name
  | .version => rec.logType = LogType.syncVsn.code ∨ rec.logType = LogType.rclVsn.code

section Reading

variable {rec : SsdBinlogRecord} {name item : List UInt8} {keyType : UInt8} {value : SsdValue}
  {n vsn : Int64} {b : List UInt8}

theorem plainName_ok (h : PlainKey rec.key keyType name) : rec.plainName = .ok name := by
  obtain ⟨dbId, hdbId, hkey⟩ := h
  have hlength : rec.key.length = 5 + name.length := by
    rw [hkey, List.length_append, List.length_cons, hdbId]
    omega
  rw [SsdBinlogRecord.plainName, if_neg (by simp only [rawKeyOffset]; omega)]
  apply @slice_append _ _ (dbId ++ [keyType]) _ []
  · simp [hkey]
  · simp [hdbId, rawKeyOffset]
  · rw [hlength, rawKeyOffset]

theorem nameLength (h : name.length < 2 ^ 31) :
    (UInt32.ofNat name.length).toInt32.toInt = name.length := by
  rw [UInt32.toInt32_ofNat', Int32.toInt_ofNat_of_lt h]

theorem itemName_ok (h : ItemKey rec.key name item) (hlong : rec.key.length < 2 ^ 31) :
    rec.itemName = .ok (name, item) := by
  obtain ⟨dbId, keyType, hdbId, hkey⟩ := h
  have hlength : rec.key.length = 9 + name.length + item.length := by
    rw [hkey, List.length_append, List.length_cons, List.length_append, List.length_append,
      length_le, hdbId]
    omega
  have hname := nameLength (show name.length < 2 ^ 31 by omega)
  have hsizes : rawKeyOffset = 5 ∧ itemKeySize = 4 := ⟨rfl, rfl⟩
  have hread : uint32At rec.key rawKeyOffset =
      (.ok (UInt32.ofNat name.length) : Attempt String _) := by
    apply @uint32At_append _ _ (dbId ++ [keyType]) (name ++ item)
    · simp [hkey]
    · simp [hdbId, rawKeyOffset]
  have hnameSlice : slice rec.key (rawKeyOffset + itemKeySize)
      (rawKeyOffset + itemKeySize + name.length) = (.ok name : Attempt String _) := by
    apply @slice_append _ _ (dbId ++ keyType :: le 4 (UInt32.ofNat name.length).toNat) _ item
    · simp [hkey]
    · rw [List.length_append, List.length_cons, length_le, hdbId]
      omega
    · rfl
  have hitemSlice : slice rec.key (rawKeyOffset + itemKeySize + name.length) rec.key.length =
      (.ok item : Attempt String _) := by
    apply @slice_append _ _ (dbId ++ keyType :: (le 4 (UInt32.ofNat name.length).toNat ++ name)) _ []
    · simp [hkey]
    · rw [List.length_append, List.length_cons, List.length_append, length_le, hdbId]
      omega
    · omega
  rw [SsdBinlogRecord.itemName, if_neg (by omega), hread, Attempt.ok_bind]
  dsimp only
  rw [if_neg, hname, Int.toNat_natCast, hnameSlice, Attempt.ok_bind, hitemSlice, Attempt.ok_bind]
  rw [Int32.lt_iff_toInt_lt, hname, Int32.toInt_zero]
  omega

theorem length_long (n : Int64) : (long n).length = 8 := length_le 8 _

theorem longAt {pre post : List UInt8} {lo : ℕ} (hb : b = pre ++ (long n ++ post))
    (hlo : pre.length = lo) : uint64At b lo = (.ok n.toUInt64 : Attempt String _) :=
  uint64At_append _ hb hlo

theorem longAt_zero {post : List UInt8} (hb : b = long n ++ post) :
    uint64At b 0 = (.ok n.toUInt64 : Attempt String _) :=
  @longAt n b [] post 0 hb rfl

theorem intValue_ok {post : List UInt8} (h : rec.val = long n ++ post) : rec.intValue = .ok n := by
  have hlength : 8 ≤ rec.val.length := by
    rw [h, List.length_append, length_long]
    omega
  rw [SsdBinlogRecord.intValue, if_neg (by omega), if_neg (by omega), longAt_zero h,
    Attempt.ok_bind, Int64.toInt64_toUInt64]

theorem value_ok (h : StoredValue rec value) : rec.value = .ok value.arg := by
  cases value with
  | bytes b =>
    obtain ⟨henc, rfl⟩ := h
    exact if_pos henc
  | long n =>
    obtain ⟨henc, hval⟩ := h
    have hval : rec.val = long n ++ [] := by rw [hval, List.append_nil]
    rw [SsdBinlogRecord.value, if_neg (not_not.mpr henc), intValue_ok hval]
    rfl

theorem setMember_ok {cmd : String} (hkey : ItemKey rec.key name item)
    (hlong : rec.key.length < 2 ^ 31) (h : StoredMember rec item value) :
    rec.setMember cmd = .ok (some [word cmd, name, value.arg]) := by
  rw [SsdBinlogRecord.setMember, itemName_ok hkey hlong, Attempt.ok_bind]
  dsimp only
  cases value with
  | bytes b =>
    obtain ⟨henc, rfl⟩ := h
    exact if_neg henc
  | long n =>
    obtain ⟨henc, rfl⟩ := h
    rw [if_pos henc, if_neg (by rw [length_long]; omega), @longAt_zero n (long n) []
      (List.append_nil _).symm, Attempt.ok_bind, Int64.toInt64_toUInt64]
    rfl

/-- The version that ends a cas value. -/
theorem vsn_ok (h : rec.val = b ++ long vsn) :
    uint64At rec.val (rec.val.length - 8) = (.ok vsn.toUInt64 : Attempt String _) := by
  apply @longAt vsn _ b []
  · rw [h, List.append_nil]
  · rw [h, List.length_append, length_long]
    omega

theorem casCommand_ok {value : CasValue} (hkey : PlainKey rec.key keyType name)
    (h : StoredCas rec keyType vsn value) :
    rec.casCommand = .ok ([word "cas", name] ++ value.args ++ [formatInt vsn]) := by
  have htype : rec.key.getD 4 0 = keyType := by
    obtain ⟨dbId, hdbId, hkey⟩ := hkey
    rw [hkey, List.getD_eq_getElem?_getD, List.getElem?_append_right (by omega), hdbId]
    rfl
  have hparts : (∃ b, rec.val = b ++ long vsn) ∧ rec.casValue = .ok value.args := by
    unfold SsdBinlogRecord.casValue
    rw [htype]
    dsimp only
    cases value with
    | string b =>
      obtain ⟨henc, rfl, hval⟩ := h
      have hlength : rec.val.length = b.length + 8 := by
        rw [hval, List.length_append, length_long]
      refine ⟨⟨b, hval⟩, ?_⟩
      rw [if_neg henc, if_neg (by decide), if_pos rfl, if_neg (by omega),
        @slice_append _ _ [] b (long vsn) 0 _ hval rfl (by rw [hlength]; omega), Attempt.ok_bind]
      rfl
    | hashSize n =>
      obtain ⟨henc, rfl, hval⟩ := h
      have hlength : rec.val.length = 16 := by
        rw [hval, List.length_append, length_long, length_long]
      refine ⟨⟨long n, hval⟩, ?_⟩
      rw [if_neg henc, if_pos rfl, if_neg (by omega), longAt_zero hval, Attempt.ok_bind,
        Int64.toInt64_toUInt64]
      rfl
    | long n =>
      obtain ⟨henc, hval | ⟨hval, rfl⟩⟩ := h
      · refine ⟨⟨long n, hval⟩, ?_⟩
        rw [if_pos henc, intValue_ok hval]
        rfl
      · refine ⟨⟨[], hval⟩, ?_⟩
        have hval : rec.val = long vsn ++ [] := by rw [hval, List.append_nil]
        rw [if_pos henc, intValue_ok hval]
        rfl
    | none =>
      obtain ⟨henc, hstring, hhash, hval⟩ := h
      refine ⟨hval, ?_⟩
      rw [if_neg henc, if_neg hhash, if_neg hstring]
      rfl
  obtain ⟨⟨b, hval⟩, hargs⟩ := hparts
  have hlength : ¬ rec.val.length < 8 := by
    rw [hval, List.length_append, length_long]
    omega
  rw [SsdBinlogRecord.casCommand, plainName_ok hkey, Attempt.ok_bind, hargs, Attempt.ok_bind,
    if_neg hlength, vsn_ok hval, Attempt.ok_bind, Int64.toInt64_toUInt64]

/-- A record gives the command of the write that it carries. -/
theorem command_carries {w : SsdWrite} {nowMs : Int64} (h : Carries rec w)
    (hlong : rec.key.length < 2 ^ 31) : rec.command nowMs = .ok (w.command nowMs) := by
  have hcode : ∀ logType : LogType, rec.logType = logType.code →
      LogType.ofCode rec.logType = some logType := by
    intro logType hlogType
    rw [hlogType, LogType.ofCode_code]
  have hpush : ∀ (cmd : String) (name : List UInt8) (value : SsdValue),
      (∃ item, ItemKey rec.key name item) → StoredValue rec value →
        rec.push cmd = .ok (some [word cmd, name, value.arg]) := by
    rintro cmd name value ⟨item, hkey⟩ hval
    rw [SsdBinlogRecord.push, itemName_ok hkey hlong, Attempt.ok_bind]
    dsimp only
    rw [value_ok hval, Attempt.ok_bind]
  have hpop : ∀ (cmd : String) (name : List UInt8), (∃ item, ItemKey rec.key name item) →
      rec.pop cmd = .ok (some [word cmd, name]) := by
    rintro cmd name ⟨item, hkey⟩
    rw [SsdBinlogRecord.pop, itemName_ok hkey hlong, Attempt.ok_bind]
  cases w with
  | set name value expireAt =>
    obtain ⟨hlogType, ⟨keyType, hkey⟩, hval, rfl⟩ := h
    rw [SsdBinlogRecord.command, hcode _ hlogType]
    dsimp only
    rw [plainName_ok hkey, Attempt.ok_bind, value_ok hval, Attempt.ok_bind, SsdWrite.command]
    split <;> rfl
  | del name =>
    obtain ⟨hlogType, keyType, hkey⟩ := h
    rw [SsdBinlogRecord.command, hcode _ hlogType]
    dsimp only
    rw [plainName_ok hkey, Attempt.ok_bind]
    rfl
  | lpush name value =>
    obtain ⟨hlogType, hkey, hval⟩ := h
    rw [SsdBinlogRecord.command, hcode _ hlogType]
    exact hpush _ name value hkey hval
  | rpush name value =>
    obtain ⟨hlogType, hkey, hval⟩ := h
    rw [SsdBinlogRecord.command, hcode _ hlogType]
    exact hpush _ name value hkey hval
  | lpop name =>
    obtain ⟨hlogType, hkey⟩ := h
    rw [SsdBinlogRecord.command, hcode _ hlogType]
    exact hpop _ name hkey
  | rpop name =>
    obtain ⟨hlogType, hkey⟩ := h
    rw [SsdBinlogRecord.command, hcode _ hlogType]
    exact hpop _ name hkey
  | lset name index value =>
    obtain ⟨hlogType, ⟨item, hkey⟩, hval, haux⟩ := h
    have haux' : rec.aux = long index ++ [] := by rw [haux, List.append_nil]
    rw [SsdBinlogRecord.command, hcode _ hlogType]
    dsimp only
    rw [itemName_ok hkey hlong, Attempt.ok_bind]
    dsimp only
    rw [if_neg (by rw [haux, length_long]; omega), value_ok hval, Attempt.ok_bind,
      longAt_zero haux', Attempt.ok_bind, Int64.toInt64_toUInt64]
    rfl
  | hset name field value =>
    obtain ⟨hlogType, hkey, hval⟩ := h
    rw [SsdBinlogRecord.command, hcode _ hlogType]
    dsimp only
    rw [itemName_ok hkey hlong, Attempt.ok_bind]
    dsimp only
    rw [value_ok hval, Attempt.ok_bind]
    rfl
  | hdel name field =>
    obtain ⟨hlogType, hkey⟩ := h
    rw [SsdBinlogRecord.command, hcode _ hlogType]
    dsimp only
    rw [itemName_ok hkey hlong, Attempt.ok_bind]
    rfl
  | sadd name member =>
    obtain ⟨hlogType, item, hkey, hmember⟩ := h
    rw [SsdBinlogRecord.command, hcode _ hlogType]
    exact setMember_ok hkey hlong hmember
  | srem name member =>
    obtain ⟨hlogType, item, hkey, hmember⟩ := h
    rw [SsdBinlogRecord.command, hcode _ hlogType]
    exact setMember_ok hkey hlong hmember
  | zadd name member score =>
    obtain ⟨hlogType, hkey, hval⟩ := h
    have hval' : rec.val = long score ++ [] := by rw [hval, List.append_nil]
    rw [SsdBinlogRecord.command, hcode _ hlogType]
    dsimp only
    rw [itemName_ok hkey hlong, Attempt.ok_bind]
    dsimp only
    rw [if_neg (by rw [hval, length_long]; omega), longAt_zero hval', Attempt.ok_bind,
      Int64.toInt64_toUInt64]
    rfl
  | zrem name member =>
    obtain ⟨hlogType, hkey⟩ := h
    rw [SsdBinlogRecord.command, hcode _ hlogType]
    dsimp only
    rw [itemName_ok hkey hlong, Attempt.ok_bind]
    rfl
  | expire name expireAt =>
    obtain ⟨hlogType, ⟨keyType, hkey⟩, rfl⟩ := h
    rw [SsdBinlogRecord.command, hcode _ hlogType]
    dsimp only
    rw [plainName_ok hkey, Attempt.ok_bind]
    rfl
  | cas name value vsn =>
    obtain ⟨hlogType, keyType, hkey, hval⟩ := h
    rw [SsdBinlogRecord.command, hcode _ hlogType]
    dsimp only
    rw [casCommand_ok hkey hval, Attempt.ok_bind]
    rfl
  | asyncDel keyType name =>
    obtain ⟨hlogType, metaPrefix, hlead, hkey⟩ := h
    have hlength : rec.key.length = 7 + name.length := by
      rw [hkey, List.length_append, List.length_cons, hlead]
      omega
    have htype : byteAt rec.key 6 = (.ok keyType : Attempt String _) := by
      rw [byteAt, hkey, List.getElem?_append_right (by omega), hlead]
      rfl
    have hname : slice rec.key asyncDelKeyOffset rec.key.length =
        (.ok name : Attempt String _) := by
      apply @slice_append _ _ (metaPrefix ++ [keyType]) _ []
      · simp [hkey]
      · simp [hlead, asyncDelKeyOffset]
      · rw [hlength, asyncDelKeyOffset]
    rw [SsdBinlogRecord.command, hcode _ hlogType]
    dsimp only
    rw [if_neg (by rw [hlength, asyncDelKeyOffset]; omega), htype, Attempt.ok_bind, hname,
      Attempt.ok_bind, SsdWrite.command]
    split <;> rfl
  | version =>
    rcases h with hlogType | hlogType
    · rw [SsdBinlogRecord.command, hcode _ hlogType]
      rfl
    · rw [SsdBinlogRecord.command, hcode _ hlogType]
      rfl

end Reading

end Rollback
