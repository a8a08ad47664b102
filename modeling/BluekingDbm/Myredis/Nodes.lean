import BluekingDbm.Library.Panicking
import BluekingDbm.Library.Ranging
import BluekingDbm.Library.Table
import BluekingDbm.Myredis.SlotGrammar

/-! The listing of a cluster's nodes, and the texts on which its decoder panics. -/
namespace Myredis

open Numeral Text

def redisMasterRole : String := "master"

def redisSlaveRole : String := "slave"

def redisLinkStateConnected : String := "connected"

def redisLinkStateDisconnected : String := "disconnected"

/-- `NodeStatusFail`, `NodeStatusPFail`, `NodeStatusHandshake`, `NodeStatusNoAddr` and
`NodeStatusNoFlags`. -/
def nodeStatuses : List String := ["fail", "fail?", "handshake", "noaddr", "noflags"]

structure ClusterNodeData where
  nodeID : String
  addr : String
  ip : String
  port : ℤ
  cPort : ℤ
  role : String
  isMyself : Bool
  linkState : String
  masterID : String
  failStatus : List String
  pingSent : ℤ
  pongRecv : ℤ
  configEpoch : ℤ
  slotSrcStr : String
  slots : List ℤ
  slotsMap : ℤ → Bool
  migratingSlots : AList fun _ : ℤ => String
  importingSlots : AList fun _ : ℤ => String

/-- The node listed last at each address. -/
def addrMapToNodes (clusterNodes : List ClusterNodeData) : AList fun _ : String => ClusterNodeData :=
  clusterNodes.foldl (fun m node => m.insert node.addr node) ∅

/-- The client asks for the listing twice, and reads the second one. -/
def getAllSlaveNodesByMasterAddr (r : RangeOrder ClusterNodeData)
    (listing again : Except String (List ClusterNodeData)) (masterAddr : String) :
    Except String (List ClusterNodeData) :=
  match listing, again with
  | .error err, _ => .error err
  | .ok _, .error err => .error err
  | .ok _, .ok clusterNodes =>
    let m01 := addrMapToNodes clusterNodes
    match m01.lookup masterAddr with
    | none => .error ("not found master node:" ++ masterAddr)
    | some masterNode =>
      if masterNode.role ≠ redisMasterRole then
        .error ("node:" ++ masterAddr ++ " not a master(role:" ++ masterNode.role ++ ")")
      else
        let slaveNodes := (r.order (Table.values m01)).filter fun info =>
          decide (info.role = redisSlaveRole ∧ info.failStatus.length = 0 ∧
            info.masterID = masterNode.nodeID)
        if slaveNodes.length = 0 then .error "not found" else .ok slaveNodes

/-- A number without a leading zero that fits a byte. -/
def isOctet (part : String) : Bool :=
  match digits part.toList with
  | some n => decide (n ≤ 255 ∧ (part.toList.head? = some '0' → part = "0"))
  | none => false

/-- `IsValidIP` of a text without a colon: only four octets are an address then. -/
def isValidIP (ipStr : String) : Bool :=
  (split ipStr '.').length = 4 && (split ipStr '.').all isOctet

/-- `SetRole`, whose error is passed over. -/
def setRole (flags : String) : String :=
  (split flags ',').foldl (fun role val =>
    if val = redisMasterRole then redisMasterRole
    else if val = redisSlaveRole then redisSlaveRole
    else role) ""

/-- `SetFailureStatus`. -/
def setFailureStatus (flags : String) : List String :=
  (split flags ',').filter fun val => decide (val ∈ nodeStatuses)

/-- `SetLinkStatus`, whose error is passed over. -/
def setLinkStatus (status : String) : String :=
  if status = redisLinkStateConnected then redisLinkStateConnected
  else if status = redisLinkStateDisconnected then redisLinkStateDisconnected
  else ""

/-- `SetReferentMaster`. -/
def setReferentMaster (ref : String) : String := if ref = "-" then "" else ref

/-- `strconv.ParseInt`; with an error the field keeps its zero. -/
def parsed (s : String) : ℤ := (atoi s).getD 0

/-- IP and port. A name is cut at its first dot. -/
def readAddr (addr : String) : Panicking SlotsError (String × ℤ) :=
  if addr = "" then .done ("", 0)
  else
    let list02 := split addr ':'
    (Panicking.index list02 0).bind fun host =>
      let ip := if isValidIP host then host else (split addr '.').headD ""
      (Panicking.index list02 1).bind fun port => .done (ip, atoiValue port)

/-- What a node takes from one slot item. The third value that the slot decoder returns, the migrating
slots, is taken for the importing ones, and the fourth for the migrating ones. -/
def ClusterNodeData.addItem (node : ClusterNodeData) (slot : String) (d : Decoded) : ClusterNodeData :=
  { node with
    slotSrcStr := if node.slotSrcStr = "" then slot else node.slotSrcStr ++ " " ++ slot
    slots := node.slots ++ d.slots
    slotsMap := d.slots.foldl (fun m s => Function.update m s true) node.slotsMap
    importingSlots := d.migratingSlots ∪ node.importingSlots
    migratingSlots := d.importingSlots ∪ node.migratingSlots }

def readSlots : List String → ClusterNodeData → Except SlotsError ClusterNodeData
  | [], node => .ok node
  | slot :: rest, node =>
    let d := decodeSlotsFromStr slot " "
    match d.err with
    | some err => .error err
    | none => readSlots rest (node.addItem slot d)

/-- One line; a line of fewer than eight words is skipped. -/
def decodeLine (line : String) : Panicking SlotsError (Option ClusterNodeData) :=
  match fields line with
  | nodeID :: address :: flags :: ref :: ping :: pong :: epoch :: status :: slots =>
    let ipPort := split address '@'
    (Panicking.index ipPort 0).bind fun addr =>
    (readAddr addr).bind fun (ip, port) =>
    (Panicking.index ipPort 1).bind fun cPort =>
      match readSlots slots {
          nodeID, addr, ip, port
          cPort := atoiValue cPort
          role := setRole flags
          isMyself := "myself".toList.isPrefixOf flags.toList
          linkState := setLinkStatus status
          masterID := setReferentMaster ref
          failStatus := setFailureStatus flags
          pingSent := parsed ping
          pongRecv := parsed pong
          configEpoch := parsed epoch
          slotSrcStr := ""
          slots := []
          slotsMap := fun _ => false
          migratingSlots := ∅
          importingSlots := ∅ } with
      | .error err => .failed err
      | .ok node => .done (some node)
  | _ => .done none

/-- With an error come the nodes of the lines before it. -/
def decodeLines : List String → List ClusterNodeData →
    Panicking (List ClusterNodeData × SlotsError) (List ClusterNodeData)
  | [], infos => .done infos
  | line :: lines, infos =>
    match decodeLine line with
    | .done none => decodeLines lines infos
    | .done (some node) => decodeLines lines (infos ++ [node])
    | .failed err => .failed (infos, err)
    | .panicked => .panicked

def decodeClusterNodes (input : String) :
    Panicking (List ClusterNodeData × SlotsError) (List ClusterNodeData) :=
  decodeLines (split input '\n') []

section Panics

variable {s addr address line word slotStr : String} {c : Char} {words lines : List String}
  {node : ClusterNodeData} {infos : List ClusterNodeData}

/-- What stands before the first `@`. -/
def hostPort (address : String) : String := String.ofList (address.toList.takeWhile (· ≠ '@'))

/-- No `@`, or a host without a port before it. -/
def BadAddress (address : String) : Prop :=
  '@' ∉ address.toList ∨ hostPort address ≠ "" ∧ ':' ∉ (hostPort address).toList

/-- A line of enough words with such an address. -/
def BadLine (line : String) : Prop :=
  8 ≤ (fields line).length ∧ BadAddress ((fields line).getD 1 "")

/-- A line of enough words with a slot item that is refused. -/
def RefusedLine (line : String) : Prop :=
  8 ≤ (fields line).length ∧ ∃ item ∈ (fields line).drop 8, Refused (split item '-')

theorem split_head (s : String) (c : Char) :
    (split s c)[0]? = some (String.ofList (s.toList.takeWhile (· ≠ c))) := by
  have hlists : ∀ cs : List Char, (cs.splitOn c)[0]? = some (cs.takeWhile (· ≠ c)) := by
    intro cs
    induction cs with
    | nil => rfl
    | cons x cs ih =>
      rw [List.splitOn_cons_eq_if_modifyHead]
      by_cases hx : x = c
      · rw [if_pos (beq_iff_eq.mpr hx), List.takeWhile_cons_of_neg (by simpa using hx)]
        rfl
      · rw [if_neg (by simpa using hx), List.takeWhile_cons_of_pos (by simpa using hx)]
        cases hsplit : cs.splitOn c with
        | nil => exact absurd hsplit (List.splitOn_ne_nil c cs)
        | cons first rest =>
          rw [hsplit] at ih
          rw [List.modifyHead_cons, List.getElem?_cons_zero, Option.some.inj ih]
  rw [split, List.getElem?_map, hlists]
  rfl

theorem split_second (s : String) (c : Char) : (split s c)[1]? = none ↔ c ∉ s.toList := by
  rw [List.getElem?_eq_none_iff]
  constructor
  · intro hlen hmem
    have hhead := List.mem_of_getElem? (split_head s c)
    have hwhole := eq_of_mem_split (by omega) hhead
    refine mem_split_no_sep hhead ?_
    rw [hwhole]
    exact hmem
  · intro hno
    have hall : ∀ x ∈ s.toList, (x == c) = false := by
      intro x hx
      simpa using fun h : x = c => hno (h ▸ hx)
    have hone : s.toList.splitOn c = [s.toList] := List.splitOnP_eq_singleton hall
    rw [split, hone]
    exact le_refl 1

theorem index_first (s : String) (c : Char) :
    (Panicking.index (split s c) 0 : Panicking SlotsError String) =
      .done (String.ofList (s.toList.takeWhile (· ≠ c))) := by
  rw [Panicking.index, if_pos (Int.le_refl 0), Int.toNat_zero, split_head]

theorem index_second (s : String) (c : Char) :
    ((Panicking.index (split s c) 1 : Panicking SlotsError String) = .panicked ∧ c ∉ s.toList) ∨
      ∃ part, (Panicking.index (split s c) 1 : Panicking SlotsError String) = .done part ∧
        c ∈ s.toList := by
  have hsecond := split_second s c
  rw [Panicking.index, if_pos (by decide), Int.toNat_one]
  cases hpart : (split s c)[1]? with
  | none => exact Or.inl ⟨rfl, hsecond.mp hpart⟩
  | some part =>
    refine Or.inr ⟨part, rfl, ?_⟩
    by_contra hno
    rw [hsecond.mpr hno] at hpart
    cases hpart

theorem readAddr_cases (addr : String) :
    (readAddr addr = .panicked ∧ addr ≠ "" ∧ ':' ∉ addr.toList) ∨
      ∃ p, readAddr addr = .done p ∧ ¬ (addr ≠ "" ∧ ':' ∉ addr.toList) := by
  unfold readAddr
  by_cases hempty : addr = ""
  · rw [if_pos hempty]
    exact Or.inr ⟨_, rfl, fun h => h.1 hempty⟩
  · rw [if_neg hempty]
    dsimp only
    rw [index_first]
    rcases index_second addr ':' with ⟨hpanic, hno⟩ | ⟨part, hpart, hcolon⟩
    · exact Or.inl ⟨by rw [Panicking.bind, hpanic]; rfl, hempty, hno⟩
    · exact Or.inr ⟨_, by rw [Panicking.bind, hpart]; rfl, fun h => h.2 hcolon⟩

theorem isWord_of_mem_fields (h : word ∈ fields s) : IsWord word := by
  obtain ⟨cs, hcs, rfl⟩ := List.mem_map.mp h
  obtain ⟨hmem, hne⟩ := List.mem_filter.mp hcs
  refine ⟨?_, fun x hx => ?_⟩
  · simpa using hne
  · rw [String.toList_ofList] at hx
    exact (Pieces.mem_splitOnP hmem x hx).2

/-- A word is the one item of its text. -/
theorem slotItems_word (h : IsWord word) : slotItems word " " = [word] := by
  rw [slotItems, if_pos (Or.inr (Or.inl rfl)), fields_word h]

theorem decodeSlots_word (h : IsWord word) :
    decodeSlotsFromStr word " " = readItem word word Decoded.empty := by
  rw [decodeSlotsFromStr, slotItems_word h, readItems, trimSpace_eq h.2]
  split
  · rfl
  · rfl

theorem readSlots_error (hwords : ∀ word ∈ words, IsWord word) :
    (∃ err, readSlots words node = .error err) ↔ ∃ item ∈ words, Refused (split item '-') := by
  induction words generalizing node with
  | nil =>
    refine iff_of_false ?_ (by simp)
    rintro ⟨err, herr⟩
    cases herr
  | cons word words ih =>
    obtain ⟨hword, hwords⟩ := List.forall_mem_cons.mp hwords
    have hrefused : (readItem word word Decoded.empty).err.isSome = true ↔
        Refused (split word '-') := readItem_err rfl
    rw [readSlots, decodeSlots_word hword, List.exists_mem_cons_iff, ← hrefused]
    cases herr : (readItem word word Decoded.empty).err with
    | some err => exact iff_of_true ⟨err, rfl⟩ (Or.inl rfl)
    | none =>
      refine (ih hwords).trans ?_
      simp

/-- A line panics if its address is bad; otherwise it is an error if one of its slot items is refused. -/
theorem decodeLine_cases (line : String) :
    (decodeLine line = .panicked ∧ BadLine line) ∨
      (∃ err, decodeLine line = .failed err ∧ ¬ BadLine line ∧ RefusedLine line) ∨
      ∃ node, decodeLine line = .done node ∧ ¬ BadLine line ∧ ¬ RefusedLine line := by
  have hwords : ∀ word ∈ fields line, IsWord word := fun word => isWord_of_mem_fields
  unfold decodeLine BadLine RefusedLine
  generalize fields line = values at hwords ⊢
  split
  case h_1 nodeID address flags ref ping pong epoch status slots =>
    have hslots : ∀ word ∈ slots, IsWord word := fun word hword => hwords word (by simp [hword])
    have hlong : 8 ≤ (nodeID :: address :: flags :: ref :: ping :: pong :: epoch :: status ::
        slots).length := by
      simp
    have haddress : (nodeID :: address :: flags :: ref :: ping :: pong :: epoch :: status ::
        slots).getD 1 "" = address := rfl
    have hitems : (nodeID :: address :: flags :: ref :: ping :: pong :: epoch :: status ::
        slots).drop 8 = slots := rfl
    rw [and_iff_right hlong, and_iff_right hlong, haddress, hitems]
    have hfirst : (Panicking.index (split address '@') 0 : Panicking SlotsError String) =
        .done (hostPort address) := index_first address '@'
    dsimp only
    rw [hfirst]
    dsimp only [Panicking.bind]
    rcases readAddr_cases (hostPort address) with ⟨hpanic, hbad⟩ | ⟨⟨ip, port⟩, haddr, hgood⟩
    · rw [hpanic]
      exact Or.inl ⟨rfl, Or.inr hbad⟩
    · rw [haddr]
      dsimp only
      rcases index_second address '@' with ⟨hpanic, hno⟩ | ⟨cPort, hsecond, hat⟩
      · rw [hpanic]
        exact Or.inl ⟨rfl, Or.inl hno⟩
      · rw [hsecond]
        dsimp only
        have hok : ¬ BadAddress address := fun h => h.elim (fun hno => hno hat) hgood
        refine Or.inr ?_
        generalize hstart : ClusterNodeData.mk _ _ _ _ _ _ _ _ _ _ _ _ _ _ _ _ _ _ = start
        have hrefused := @readSlots_error slots start hslots
        rw [← hrefused]
        cases readSlots slots start with
        | error err => exact Or.inl ⟨err, rfl, hok, err, rfl⟩
        | ok node => exact Or.inr ⟨some node, rfl, hok, fun ⟨err, herr⟩ => nomatch herr⟩
  case h_2 hshort =>
    have hfew : ¬ 8 ≤ values.length := by
      intro hlong
      match values with
      | a :: b :: c :: d :: e :: f :: g :: h :: rest => exact hshort a b c d e f g h rest rfl
    exact Or.inr (Or.inr ⟨none, rfl, fun h => hfew h.1, fun h => hfew h.1⟩)

/-- The decoder does not panic just where every bad line comes after a line that is an error. -/
theorem decodeLines_panicked : decodeLines lines infos ≠ .panicked ↔
    ∀ before line after, lines = before ++ line :: after → BadLine line →
      ∃ earlier ∈ before, RefusedLine earlier := by
  induction lines generalizing infos with
  | nil =>
    refine iff_of_true nofun ?_
    intro before line after hlines
    simp at hlines
  | cons first lines ih =>
    rw [decodeLines]
    rcases decodeLine_cases first with ⟨hline, hbad⟩ | ⟨err, hline, hgood, hrefused⟩ |
      ⟨node, hline, hgood, hread⟩
    · rw [hline]
      refine iff_of_false (fun h => h rfl) fun h => ?_
      obtain ⟨earlier, hearlier, -⟩ := h [] first lines rfl hbad
      exact absurd hearlier List.not_mem_nil
    · rw [hline]
      refine iff_of_true nofun ?_
      intro before line after hlines hbad
      cases before with
      | nil =>
        obtain ⟨rfl, -⟩ := List.cons.inj hlines
        exact absurd hbad hgood
      | cons head before =>
        obtain ⟨rfl, -⟩ := List.cons.inj hlines
        exact ⟨first, List.mem_cons_self, hrefused⟩
    · have htail : (∀ before line after, lines = before ++ line :: after → BadLine line →
            ∃ earlier ∈ before, RefusedLine earlier) ↔
          ∀ before line after, first :: lines = before ++ line :: after → BadLine line →
            ∃ earlier ∈ before, RefusedLine earlier := by
        constructor
        · intro h before line after hlines hbad
          cases before with
          | nil =>
            obtain ⟨rfl, -⟩ := List.cons.inj hlines
            exact absurd hbad hgood
          | cons head before =>
            obtain ⟨-, hrest⟩ := List.cons.inj hlines
            obtain ⟨earlier, hearlier, hrefused⟩ := h before line after hrest hbad
            exact ⟨earlier, List.mem_cons_of_mem _ hearlier, hrefused⟩
        · intro h before line after hlines hbad
          obtain ⟨earlier, hearlier, hrefused⟩ :=
            h (first :: before) line after (congrArg (first :: ·) hlines) hbad
          rcases List.mem_cons.mp hearlier with rfl | hearlier
          · exact absurd hrefused hread
          · exact ⟨earlier, hearlier, hrefused⟩
      rw [hline, ← htail]
      cases node with
      | none => exact ih
      | some node => exact ih

theorem decodeClusterNodes_total_iff (input : String) : decodeClusterNodes input ≠ .panicked ↔
    ∀ before line after, split input '\n' = before ++ line :: after → BadLine line →
      ∃ earlier ∈ before, RefusedLine earlier := decodeLines_panicked

/-- A line of a server that does not print the port of the cluster bus. -/
theorem old_format_panics :
    decodeClusterNodes "07c37dfe 127.0.0.1:30004 master - 0 1426238317239 4 connected" =
      .panicked := by
  rfl

end Panics

end Myredis
