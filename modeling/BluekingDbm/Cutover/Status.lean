import BluekingDbm.Library.Numeral
import BluekingDbm.Library.Padded
import Mathlib.Data.List.AList

/-! What a status reply says of the sources of a task: the places in their binlogs, as the synchronisation
tool writes them, and when they have caught up. -/
namespace Cutover

structure BinlogCoord where
  file : String
  position : ℤ
  deriving DecidableEq

/-- What stands between the parentheses, if the text has both. -/
def unwrap (text : String) : String :=
  if text.toList.head? = some '(' ∧ text.toList.getLast? = some ')' then
    Text.trimSpace (String.ofList text.toList.tail.dropLast)
  else text

/-- `"(binlog20000.002894, 12105)"`, with or without the parentheses. -/
def parseBinlogCoord (raw : String) : Option BinlogCoord :=
  let text := Text.trimSpace raw
  if text = "" then none
  else
    match Text.splitN2 (unwrap text) ',' with
    | [front, rest] =>
      let fileName := Text.trimSpace front
      let posText := Text.trimSpace rest
      if fileName = "" ∨ posText = "" then none
      else
        match Numeral.atoi posText with
        | none => none
        | some pos => if pos < 0 then none else some ⟨fileName, pos⟩
    | _ => none

/-- The number behind the last dot of a file name. Digits other than the ASCII ones pass
`unicode.IsDigit`, and `strconv.ParseInt` refuses them. -/
def binlogFileSeq (fileName : String) : Option ℤ :=
  let suffix := (fileName.toList.reverse.takeWhile (· ≠ '.')).reverse
  if '.' ∉ fileName.toList ∨ suffix = [] then none
  else if suffix.all Char.isDigit then Numeral.atoi (String.ofList suffix)
  else none

def comparePosition (a b : BinlogCoord) : Ordering :=
  if a.position < b.position then .lt else if b.position < a.position then .gt else .eq

/-- First the numbers of the files, then the positions in one file. -/
def compareBinlogCoord (a b : BinlogCoord) : Ordering :=
  match binlogFileSeq a.file, binlogFileSeq b.file with
  | some aSeq, some bSeq =>
    if aSeq < bSeq then .lt else if bSeq < aSeq then .gt else comparePosition a b
  | _, _ =>
    if a.file ≠ b.file then (if a.file < b.file then .lt else .gt) else comparePosition a b

def isCaughtUpToSnapshot (syncerBinlog : String) (snapshot : BinlogCoord) (sbm : ℤ) : Bool :=
  if sbm ≠ 0 then false
  else
    match parseBinlogCoord syncerBinlog with
    | none => false
    | some syncer => compareBinlogCoord syncer snapshot ≠ .lt

/-- A place in the binlogs of a server: the number of a file and a position in it. -/
structure Place where
  number : ℕ
  position : ℕ
  fits : number < 2 ^ 63

/-- Its file is one of those that share the base name. -/
def Place.coord (base : String) (place : Place) : BinlogCoord :=
  ⟨base ++ "." ++ String.ofList (Padded.digits 6 place.number), place.position⟩

/-- The order in which a server writes its binlogs. -/
instance : LE Place :=
  ⟨fun a b => a.number < b.number ∨ a.number = b.number ∧ a.position ≤ b.position⟩

section Places

variable {base : String} {a b : Place}

protected theorem Place.le_refl (a : Place) : a ≤ a := Or.inr ⟨rfl, Nat.le_refl a.position⟩

theorem binlogFileSeq_coord (base : String) (a : Place) :
    binlogFileSeq (a.coord base).file = some (a.number : ℤ) := by
  have hsuffix : ((a.coord base).file.toList.reverse.takeWhile (· ≠ '.')).reverse =
      Padded.digits 6 a.number := Padded.takeWhile_digits base 6 a.number
  have hdot : '.' ∈ (a.coord base).file.toList := by
    show '.' ∈ (base ++ "." ++ String.ofList (Padded.digits 6 a.number)).toList
    simp
  have hvalue := Padded.ofDigitChars_digits 6 a.number
  have hdigits : ∀ c ∈ Padded.digits 6 a.number, c.isDigit = true := fun c => Padded.digits_isDigit
  have hne : Padded.digits 6 a.number ≠ [] := Padded.digits_ne_nil 6 a.number
  unfold binlogFileSeq
  simp only [hsuffix]
  generalize Padded.digits 6 a.number = cs at *
  have htext : String.ofList cs ≠ "" := by
    intro hempty
    apply hne
    rw [← String.toList_ofList (l := cs), hempty]
    rfl
  rw [if_neg (by simp [hdot, hne]), if_pos (List.all_eq_true.mpr hdigits),
    Numeral.atoi_digits htext (by rwa [String.toList_ofList]), String.toList_ofList, hvalue,
    if_pos a.fits]

/-- For the files of one base name the comparison is that of the places. -/
theorem compareBinlogCoord_coord : compareBinlogCoord (a.coord base) (b.coord base) ≠ .lt ↔ b ≤ a := by
  have hposition : comparePosition (a.coord base) (b.coord base) ≠ .lt ↔ b.position ≤ a.position := by
    have hcast : (a.coord base).position < (b.coord base).position ↔ a.position < b.position :=
      Int.ofNat_lt
    unfold comparePosition
    split
    · rename_i hlt
      simp only [ne_eq, not_true_eq_false, false_iff]
      have := hcast.mp hlt
      omega
    · rename_i hge
      have hle : b.position ≤ a.position := by
        by_contra hlt
        exact hge (hcast.mpr (by omega))
      split <;> simp [hle]
  unfold compareBinlogCoord
  simp only [binlogFileSeq_coord]
  show _ ↔ (b.number < a.number ∨ b.number = a.number ∧ b.position ≤ a.position)
  split
  · simp only [ne_eq, not_true_eq_false, false_iff]
    omega
  · split
    · simp only [ne_eq, reduceCtorEq, not_false_eq_true, true_iff]
      omega
    · rw [hposition]
      omega

end Places

structure SyncStatus where
  masterBinlog : String
  syncerBinlog : String
  blockingDDLs : List String
  secondsBehindMaster : ℤ
  deriving DecidableEq

/-- The stage is a text of the tool's own. -/
structure TaskStatusItem where
  name : String
  sourceName : String
  stage : String
  errorMsg : String
  syncStatus : Option SyncStatus
  deriving DecidableEq

def statusSourceKey (item : TaskStatusItem) : String :=
  if item.sourceName ≠ "" then item.sourceName else item.name

inductive StatusError
  | empty
  | noSyncStatus (src : String)
  | masterBinlog (src raw : String)
  | noSnapshots
  | blockingDDLs (src : String) (ddls : List String)
  | noSnapshot (src : String)
  | behind (src : String) (sbm : ℤ) (snap : BinlogCoord) (syncer master : String)
  | notReturned (src : String)
  | task (src msg : String)
  | stage (src stage : String)

/-- The places of the sources. -/
abbrev Snapshots := AList fun _ : String => BinlogCoord

def snapshotItems : List TaskStatusItem → Snapshots → Except StatusError Snapshots
  | [], out => .ok out
  | item :: items, out =>
    match item.syncStatus with
    | none => .error (.noSyncStatus (statusSourceKey item))
    | some ss =>
      match parseBinlogCoord ss.masterBinlog with
      | none => .error (.masterBinlog (statusSourceKey item) ss.masterBinlog)
      | some coord => snapshotItems items (out.insert (statusSourceKey item) coord)

def buildLockMasterSnapshots (items : List TaskStatusItem) : Except StatusError Snapshots :=
  if items = [] then .error .empty else snapshotItems items ∅

/-- The check of one item against the snapshots. -/
def checkItem (snapshots : Snapshots) (item : TaskStatusItem) : Except StatusError Unit :=
  let src := statusSourceKey item
  match item.syncStatus with
  | none => .error (.noSyncStatus src)
  | some ss =>
    if ss.blockingDDLs ≠ [] then .error (.blockingDDLs src ss.blockingDDLs)
    else
      match snapshots.lookup src with
      | none => .error (.noSnapshot src)
      | some snap =>
        if isCaughtUpToSnapshot ss.syncerBinlog snap ss.secondsBehindMaster then .ok ()
        else .error (.behind src ss.secondsBehindMaster snap ss.syncerBinlog ss.masterBinlog)

def checkItems (snapshots : Snapshots) : List TaskStatusItem → Except StatusError Unit
  | [] => .ok ()
  | item :: items =>
    match checkItem snapshots item with
    | .error e => .error e
    | .ok () => checkItems snapshots items

def checkSnapshotCatchup (items : List TaskStatusItem) (snapshots : Snapshots) :
    Except StatusError Unit :=
  if items = [] then .error .empty
  else if snapshots.keys = [] then .error .noSnapshots
  else
    match checkItems snapshots items with
    | .error e => .error e
    | .ok () =>
      -- a snapshot of a source that this reply does not list; a map has no order of its own
      match snapshots.keys.find? (· ∉ items.map statusSourceKey) with
      | some src => .error (.notReturned src)
      | none => .ok ()

/-- What an item says that is an error of its task. -/
def itemError (item : TaskStatusItem) : Option StatusError :=
  let stage := Text.trimSpace item.stage
  let src := statusSourceKey item
  let msg := Text.trimSpace item.errorMsg
  if stage = "InvalidStage" then
    if msg ≠ "" then some (.task src msg) else some (.stage src stage)
  else if stage = "Paused" then
    -- without a message it was paused by hand
    if msg = "" then none else some (.task src msg)
  else none

def taskReportError (items : List TaskStatusItem) : Option StatusError := items.findSome? itemError

inductive CatchupPollAction
  | pass
  | retry (e : StatusError)
  | abort (e : StatusError)

def decideCatchupPoll (items : List TaskStatusItem) (snapshots : Snapshots) : CatchupPollAction :=
  match taskReportError items with
  | some e => .abort e
  | none =>
    match checkSnapshotCatchup items snapshots with
    | .error e => .retry e
    | .ok () => .pass

variable {items : List TaskStatusItem} {item : TaskStatusItem} {out snapshots : Snapshots}
  {src : String} {coord : BinlogCoord}

/-- An item that a place can be taken from. -/
def Placed (item : TaskStatusItem) (coord : BinlogCoord) : Prop :=
  ∃ ss, item.syncStatus = some ss ∧ parseBinlogCoord ss.masterBinlog = some coord

/-- Snapshots that are those of the items, where an item is there for its source. -/
theorem snapshotItems_lookup (h : snapshotItems items out = .ok snapshots)
    (hlookup : snapshots.lookup src = some coord) :
    out.lookup src = some coord ∨ ∃ item ∈ items, statusSourceKey item = src ∧ Placed item coord := by
  induction items generalizing out with
  | nil =>
    obtain rfl := Except.ok.inj h
    exact Or.inl hlookup
  | cons item items ih =>
    unfold snapshotItems at h
    split at h
    · cases h
    · rename_i ss hss
      split at h
      · cases h
      · rename_i c hc
        rcases ih h with hout | ⟨other, hin, hkey, hplaced⟩
        · by_cases hsrc : src = statusSourceKey item
          · subst hsrc
            rw [AList.lookup_insert] at hout
            obtain rfl := Option.some.inj hout
            exact Or.inr ⟨item, List.mem_cons_self, rfl, ss, hss, hc⟩
          · rw [AList.lookup_insert_ne hsrc] at hout
            exact Or.inl hout
        · exact Or.inr ⟨other, List.mem_cons_of_mem item hin, hkey, hplaced⟩

theorem snapshotItems_mem (h : snapshotItems items out = .ok snapshots) :
    src ∈ snapshots ↔ src ∈ out ∨ src ∈ items.map statusSourceKey := by
  induction items generalizing out with
  | nil =>
    obtain rfl := Except.ok.inj h
    simp
  | cons item items ih =>
    unfold snapshotItems at h
    split at h
    · cases h
    · split at h
      · cases h
      · rw [ih h, AList.mem_insert, List.map_cons, List.mem_cons, or_assoc, or_left_comm]

/-- Every item has a place. -/
theorem snapshotItems_placed (h : snapshotItems items out = .ok snapshots) (hitem : item ∈ items) :
    ∃ coord, Placed item coord := by
  induction items generalizing out with
  | nil => cases hitem
  | cons first items ih =>
    unfold snapshotItems at h
    split at h
    · cases h
    · rename_i ss hss
      split at h
      · cases h
      · rename_i c hc
        rcases List.mem_cons.mp hitem with rfl | hin
        · exact ⟨c, ss, hss, hc⟩
        · exact ih h hin

theorem checkItems_ok : checkItems snapshots items = .ok () ↔
    ∀ item ∈ items, checkItem snapshots item = .ok () := by
  induction items with
  | nil => simp [checkItems]
  | cons item items ih =>
    rw [checkItems, List.forall_mem_cons, ← ih]
    split
    · rename_i e he
      simp [he]
    · rename_i hok
      simp [hok]

/-- What an item must say to be caught up. -/
theorem checkItem_ok : checkItem snapshots item = .ok () ↔ ∃ ss snap, item.syncStatus = some ss ∧
    ss.blockingDDLs = [] ∧ snapshots.lookup (statusSourceKey item) = some snap ∧
      isCaughtUpToSnapshot ss.syncerBinlog snap ss.secondsBehindMaster = true := by
  unfold checkItem
  dsimp only
  constructor
  · intro h
    split at h
    · cases h
    · rename_i ss hss
      split at h
      · cases h
      · rename_i hddls
        split at h
        · cases h
        · rename_i snap hsnap
          split at h
          · rename_i hcaught
            exact ⟨ss, snap, hss, not_not.mp hddls, hsnap, hcaught⟩
          · cases h
  · rintro ⟨ss, snap, hss, hddls, hsnap, hcaught⟩
    rw [hss]
    dsimp only
    rw [if_neg (not_not.mpr hddls), hsnap]
    dsimp only
    rw [if_pos hcaught]

/-- A reply passes when all it lists is caught up and all snapshots are of sources that it lists. -/
theorem checkSnapshotCatchup_ok : checkSnapshotCatchup items snapshots = .ok () ↔ items ≠ [] ∧
    snapshots.keys ≠ [] ∧ (∀ item ∈ items, checkItem snapshots item = .ok ()) ∧
      ∀ src ∈ snapshots, src ∈ items.map statusSourceKey := by
  unfold checkSnapshotCatchup
  rw [← checkItems_ok]
  constructor
  · intro h
    split at h
    · cases h
    · rename_i hitems
      split at h
      · cases h
      · rename_i hkeys
        split at h
        · cases h
        · rename_i hok
          split at h
          · cases h
          · rename_i hfind
            refine ⟨hitems, hkeys, hok, fun src hsrc => ?_⟩
            have hall := List.find?_eq_none.mp hfind src hsrc
            simpa using hall
  · rintro ⟨hitems, hkeys, hok, hall⟩
    rw [if_neg hitems, if_neg hkeys, hok]
    have hfind : snapshots.keys.find? (· ∉ items.map statusSourceKey) = none := by
      rw [List.find?_eq_none]
      intro src hsrc
      simpa using hall src hsrc
    dsimp only
    rw [hfind]

end Cutover
