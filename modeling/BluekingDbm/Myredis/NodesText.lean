import BluekingDbm.Myredis.Nodes

/-! The listing as a server renders it, and what the decoder gives back of it. -/
namespace Myredis

open Numeral Text

inductive Role
  | master
  | slave
  deriving DecidableEq

def Role.text : Role → String
  | .master => redisMasterRole
  | .slave => redisSlaveRole

inductive FailFlag
  | fail
  | pFail
  | handshake
  | noAddr
  | noFlags
  deriving DecidableEq

def FailFlag.text : FailFlag → String
  | .fail => "fail"
  | .pFail => "fail?"
  | .handshake => "handshake"
  | .noAddr => "noaddr"
  | .noFlags => "noflags"

/-- What follows the link state of a node. -/
inductive TailItem
  | slots (first last : ℕ)
  | migrating (slot : ℕ) (node : String)
  | importing (slot : ℕ) (node : String)
  deriving DecidableEq

def TailItem.text : TailItem → String
  | .slots first last => runText first last
  | .migrating slot node => "[" ++ slot.repr ++ "-" ++ ">" ++ "-" ++ (node ++ "]")
  | .importing slot node => "[" ++ slot.repr ++ "-" ++ "<" ++ "-" ++ (node ++ "]")

def TailItem.range : TailItem → List ℤ
  | .slots first last => slotsBetween first last
  | _ => []

def TailItem.migrate (m : AList fun _ : ℤ => String) : TailItem → AList fun _ : ℤ => String
  | .migrating slot node => m.insert (slot : ℤ) node
  | _ => m

def TailItem.imports (m : AList fun _ : ℤ => String) : TailItem → AList fun _ : ℤ => String
  | .importing slot node => m.insert (slot : ℤ) node
  | _ => m

/-- Ids have no dash in them. -/
def IsID (node : String) : Prop := IsWord node ∧ '-' ∉ node.toList

def TailItem.Valid : TailItem → Prop
  | .slots first last => first ≤ last ∧ (last : ℤ) ≤ defaultMaxSlots
  | .migrating slot node => (slot : ℤ) ≤ defaultMaxSlots ∧ IsID node
  | .importing slot node => (slot : ℤ) ≤ defaultMaxSlots ∧ IsID node

def fitsInt64 (n : ℤ) : Prop := -2 ^ 63 ≤ n ∧ n < 2 ^ 63

/-- A node as the server knows it. -/
structure NodeRecord where
  nodeID : String
  ip : String
  port : ℕ
  cPort : ℕ
  myself : Bool
  role : Option Role
  failStatus : List FailFlag
  noFailover : Bool
  masterID : Option String
  pingSent : ℤ
  pongRecv : ℤ
  configEpoch : ℤ
  connected : Bool
  items : List TailItem
  id_valid : IsID nodeID
  ip_valid : ∀ c ∈ ip.toList, isSpace c = false ∧ c ≠ '@'
  port_valid : port < 65536
  cPort_valid : cPort < 65536
  flags_valid : myself = true ∨ role.isSome = true ∨ failStatus ≠ [] ∨ noFailover = true
  masterID_valid : ∀ master ∈ masterID, IsID master
  pingSent_valid : fitsInt64 pingSent
  pongRecv_valid : fitsInt64 pongRecv
  configEpoch_valid : fitsInt64 configEpoch
  items_valid : ∀ item ∈ items, item.Valid

namespace NodeRecord

variable (r : NodeRecord)

def flags : List String :=
  (if r.myself then ["myself"] else []) ++ r.role.toList.map Role.text ++
    r.failStatus.map FailFlag.text ++ if r.noFailover then ["nofailover"] else []

def addr : String := r.ip ++ ":" ++ r.port.repr

def words : List String :=
  [r.nodeID, r.addr ++ "@" ++ r.cPort.repr, ",".intercalate r.flags, r.masterID.getD "-",
    decimal r.pingSent, decimal r.pongRecv, decimal r.configEpoch,
    if r.connected then redisLinkStateConnected else redisLinkStateDisconnected] ++
    r.items.map TailItem.text

def line : String := " ".intercalate r.words

def slots : List ℤ := r.items.flatMap TailItem.range

def migratingSlots : AList fun _ : ℤ => String := r.items.foldl TailItem.migrate ∅

def importingSlots : AList fun _ : ℤ => String := r.items.foldl TailItem.imports ∅

end NodeRecord

/-- The output of `CLUSTER NODES`. -/
def clusterNodesText (records : List NodeRecord) : String := unlines (records.map NodeRecord.line)

/-- The decoded node is the recorded one, but for the slots on the move. Where the host has colons its
address is read as a whole only, and a host name is not kept whole. -/
structure SameNode (r : NodeRecord) (node : ClusterNodeData) : Prop where
  nodeID : node.nodeID = r.nodeID
  addr : node.addr = r.addr
  ip : ':' ∉ r.ip.toList → isValidIP r.ip = true → node.ip = r.ip
  port : ':' ∉ r.ip.toList → node.port = r.port
  cPort : node.cPort = r.cPort
  role : node.role = (r.role.map Role.text).getD ""
  isMyself : node.isMyself = r.myself
  linkState : node.linkState =
    if r.connected then redisLinkStateConnected else redisLinkStateDisconnected
  masterID : node.masterID = r.masterID.getD ""
  failStatus : node.failStatus = r.failStatus.map FailFlag.text
  pingSent : node.pingSent = r.pingSent
  pongRecv : node.pongRecv = r.pongRecv
  configEpoch : node.configEpoch = r.configEpoch
  slots : node.slots = r.slots
  slotsMap : ∀ slot, node.slotsMap slot = true ↔ slot ∈ r.slots

structure Matches (r : NodeRecord) (node : ClusterNodeData) : Prop extends SameNode r node where
  migratingSlots : ∀ slot, node.migratingSlots.lookup slot = r.migratingSlots.lookup slot
  importingSlots : ∀ slot, node.importingSlots.lookup slot = r.importingSlots.lookup slot

/-- The decoder gives back the records. -/
def NodesRoundTrip (records : List NodeRecord) : Prop :=
  ∃ nodes, decodeClusterNodes (clusterNodesText records) = .done nodes ∧
    List.Forall₂ Matches records nodes

section Items

variable {item : TailItem} {items : List TailItem} {node : ClusterNodeData} {m : ℕ}
  {id mark : String}

theorem isSlot_repr (h : (m : ℤ) ≤ defaultMaxSlots) : IsSlot m.repr m := ⟨digits_repr m, h⟩

/-- What the slot decoder makes of an item. -/
def TailItem.decoded : TailItem → Decoded
  | .slots first last => Decoded.empty.addSlots (slotsBetween first last)
  | .migrating slot node =>
    { Decoded.empty with migratingSlots := Decoded.empty.migratingSlots.insert (slot : ℤ) node }
  | .importing slot node =>
    { Decoded.empty with importingSlots := Decoded.empty.importingSlots.insert (slot : ℤ) node }

theorem isWord_append {a b : String} (ha : ∀ c ∈ a.toList, isSpace c = false) (hb : IsWord b) :
    IsWord (a ++ b) := by
  refine ⟨?_, fun c hc => ?_⟩
  · intro hempty
    have hlist := congrArg String.toList hempty
    rw [String.toList_append] at hlist
    exact hb.1 (String.toList_eq_nil_iff.mp (List.append_eq_nil_iff.mp hlist).2)
  · rw [String.toList_append] at hc
    rcases List.mem_append.mp hc with hc | hc
    · exact ha c hc
    · exact hb.2 c hc

theorem isWord_moving (hmark : IsWord mark) (hid : IsID id) :
    IsWord ("[" ++ m.repr ++ "-" ++ mark ++ "-" ++ (id ++ "]")) := by
  have hbracket : IsWord "]" := isWord_of_all (by decide) (by decide)
  refine isWord_append ?_ (isWord_append hid.1.2 hbracket)
  intro c hc
  simp only [String.toList_append, List.mem_append] at hc
  rcases hc with (((hc | hc) | hc) | hc) | hc
  · rw [List.mem_singleton.mp hc]
    decide
  · exact isSpace_of_isDigit (repr_isDigit hc)
  · rw [List.mem_singleton.mp hc]
    decide
  · exact hmark.2 c hc
  · rw [List.mem_singleton.mp hc]
    decide

theorem TailItem.Valid.isWord (h : item.Valid) : IsWord item.text := by
  cases item with
  | slots first last =>
    refine ⟨fun hempty => ?_, fun c hc => (runText_plain c hc).2⟩
    exact runText_ne_nil first last (String.toList_eq_nil_iff.mpr hempty)
  | migrating slot node => exact isWord_moving (isWord_of_all (by decide) (by decide)) h.2
  | importing slot node => exact isWord_moving (isWord_of_all (by decide) (by decide)) h.2

theorem TailItem.Valid.decode (h : item.Valid) :
    decodeSlotsFromStr item.text " " = item.decoded := by
  rw [decodeSlots_word h.isWord]
  cases item with
  | slots first last =>
    obtain ⟨hle, hmax⟩ := h
    have hrun : IsRun ((first : ℤ), (last : ℤ)) :=
      ⟨Int.natCast_nonneg first, Int.ofNat_le.mpr hle, hmax⟩
    exact readItem_runText hrun _ _
  | migrating slot node => exact readItem_migrating (isSlot_repr h.1) h.2.2
  | importing slot node => exact readItem_importing (isSlot_repr h.1) h.2.2

theorem TailItem.decoded_err (item : TailItem) : item.decoded.err = none := by
  cases item with
  | slots first last => rfl
  | migrating slot node => rfl
  | importing slot node => rfl

theorem TailItem.decoded_slots (item : TailItem) : item.decoded.slots = item.range := by
  cases item with
  | slots first last => exact List.nil_append _
  | migrating slot node => rfl
  | importing slot node => rfl

theorem insert_empty_union (m : AList fun _ : ℤ => String) (slot : ℤ) (node : String) :
    (∅ : AList fun _ : ℤ => String).insert slot node ∪ m = m.insert slot node := by
  rw [← AList.insert_union, AList.empty_union]

theorem TailItem.decoded_migrating (item : TailItem) (m : AList fun _ : ℤ => String) :
    item.decoded.migratingSlots ∪ m = item.migrate m := by
  cases item with
  | slots first last => exact AList.empty_union
  | migrating slot node => exact insert_empty_union m slot node
  | importing slot node => exact AList.empty_union

theorem TailItem.decoded_importing (item : TailItem) (m : AList fun _ : ℤ => String) :
    item.decoded.importingSlots ∪ m = item.imports m := by
  cases item with
  | slots first last => exact AList.empty_union
  | migrating slot node => exact AList.empty_union
  | importing slot node => exact insert_empty_union m slot node

/-- The slots of a line are read, with the two maps swapped. -/
theorem readSlots_items (h : ∀ item ∈ items, item.Valid) :
    ∃ slotSrcStr, readSlots (items.map TailItem.text) node = .ok { node with
      slotSrcStr
      slots := node.slots ++ items.flatMap TailItem.range
      slotsMap := (items.flatMap TailItem.range).foldl (fun m s => Function.update m s true) node.slotsMap
      importingSlots := items.foldl TailItem.migrate node.importingSlots
      migratingSlots := items.foldl TailItem.imports node.migratingSlots } := by
  induction items generalizing node with
  | nil =>
    refine ⟨node.slotSrcStr, ?_⟩
    simp [readSlots]
  | cons item items ih =>
    obtain ⟨hitem, hitems⟩ := List.forall_mem_cons.mp h
    obtain ⟨slotSrcStr, hread⟩ := @ih (node.addItem item.text item.decoded) hitems
    refine ⟨slotSrcStr, ?_⟩
    rw [List.map_cons, readSlots, hitem.decode, item.decoded_err]
    refine hread.trans ?_
    simp only [ClusterNodeData.addItem, TailItem.decoded_slots, TailItem.decoded_migrating,
      TailItem.decoded_importing, List.flatMap_cons, List.foldl_cons, List.foldl_append,
      List.append_assoc]

end Items

section Flags

variable {r : NodeRecord} {f : String} {flags : List String}

/-- The flags other than that of the node itself. -/
def otherFlags : List String :=
  [redisMasterRole, redisSlaveRole, "fail", "fail?", "handshake", "noaddr", "noflags", "nofailover"]

theorem FailFlag.mem_nodeStatuses (flag : FailFlag) : flag.text ∈ nodeStatuses := by
  cases flag with
  | fail => decide
  | pFail => decide
  | handshake => decide
  | noAddr => decide
  | noFlags => decide

theorem nodeStatuses_other : ∀ status ∈ nodeStatuses, status ∈ otherFlags := by decide

theorem mem_flags (h : f ∈ r.flags) : f = "myself" ∧ r.myself = true ∨ f ∈ otherFlags := by
  rcases List.mem_append.mp h with h | h
  · rcases List.mem_append.mp h with h | h
    · rcases List.mem_append.mp h with h | h
      · split at h
        case isTrue hmyself => exact Or.inl ⟨List.mem_singleton.mp h, hmyself⟩
        case isFalse => exact absurd h List.not_mem_nil
      · obtain ⟨role, -, rfl⟩ := List.mem_map.mp h
        cases role with
        | master => exact Or.inr (by decide)
        | slave => exact Or.inr (by decide)
    · obtain ⟨flag, -, rfl⟩ := List.mem_map.mp h
      exact Or.inr (nodeStatuses_other _ flag.mem_nodeStatuses)
  · split at h
    · rw [List.mem_singleton.mp h]
      exact Or.inr (by decide)
    · exact absurd h List.not_mem_nil

theorem flags_ne_nil (r : NodeRecord) : r.flags ≠ [] := by
  intro hnil
  simp only [NodeRecord.flags, List.append_eq_nil_iff, List.map_eq_nil_iff] at hnil
  obtain ⟨⟨⟨hmyself, hrole⟩, hfail⟩, hnofailover⟩ := hnil
  rcases r.flags_valid with h | h | h | h
  · simp [h] at hmyself
  · obtain ⟨role, hsome⟩ := Option.isSome_iff_exists.mp h
    simp [hsome] at hrole
  · exact h hfail
  · simp [h] at hnofailover

/-- A flag is a word without a comma. -/
theorem flag_word (h : f ∈ r.flags) : IsWord f ∧ ',' ∉ f.toList := by
  have hall : ∀ g ∈ "myself" :: otherFlags, g ≠ "" ∧ g.toList.all (fun x => !isSpace x) = true ∧
      ',' ∉ g.toList := by decide
  have hmem : f ∈ "myself" :: otherFlags := by
    rcases mem_flags h with ⟨rfl, -⟩ | hother
    · exact List.mem_cons_self
    · exact List.mem_cons_of_mem _ hother
  obtain ⟨hne, hspace, hcomma⟩ := hall f hmem
  exact ⟨isWord_of_all hne hspace, hcomma⟩

theorem split_flags (r : NodeRecord) : split (",".intercalate r.flags) ',' = r.flags :=
  split_intercalate rfl (flags_ne_nil r) fun _ hf => (flag_word hf).2

/-- Flags that are no roles leave the role alone. -/
theorem foldl_role (role : String) (h : ∀ f ∈ flags, f ≠ redisMasterRole ∧ f ≠ redisSlaveRole) :
    flags.foldl (fun role val =>
      if val = redisMasterRole then redisMasterRole
      else if val = redisSlaveRole then redisSlaveRole
      else role) role = role := by
  induction flags with
  | nil => rfl
  | cons f flags ih =>
    obtain ⟨⟨hmaster, hslave⟩, hrest⟩ := List.forall_mem_cons.mp h
    rw [List.foldl_cons, if_neg hmaster, if_neg hslave]
    exact ih hrest

theorem setRole_flags (r : NodeRecord) :
    setRole (",".intercalate r.flags) = (r.role.map Role.text).getD "" := by
  have hfails : ∀ f ∈ r.failStatus.map FailFlag.text, f ≠ redisMasterRole ∧ f ≠ redisSlaveRole := by
    intro f hf
    obtain ⟨flag, -, rfl⟩ := List.mem_map.mp hf
    have hall : ∀ status ∈ nodeStatuses, status ≠ redisMasterRole ∧ status ≠ redisSlaveRole := by
      decide
    exact hall _ flag.mem_nodeStatuses
  have hmyself : ∀ f ∈ (if r.myself then ["myself"] else []),
      f ≠ redisMasterRole ∧ f ≠ redisSlaveRole := by
    split
    · decide
    · simp
  have hnofailover : ∀ f ∈ (if r.noFailover then ["nofailover"] else []),
      f ≠ redisMasterRole ∧ f ≠ redisSlaveRole := by
    split
    · decide
    · simp
  rw [setRole, split_flags, NodeRecord.flags, List.foldl_append, List.foldl_append, List.foldl_append,
    foldl_role _ hnofailover, foldl_role _ hfails, foldl_role _ hmyself]
  cases r.role with
  | none => rfl
  | some role =>
    cases role with
    | master => rfl
    | slave => rfl

theorem setFailureStatus_flags (r : NodeRecord) :
    setFailureStatus (",".intercalate r.flags) = r.failStatus.map FailFlag.text := by
  have hfails : (r.failStatus.map FailFlag.text).filter (fun val => decide (val ∈ nodeStatuses)) =
      r.failStatus.map FailFlag.text := by
    refine List.filter_eq_self.mpr ?_
    intro f hf
    obtain ⟨flag, -, rfl⟩ := List.mem_map.mp hf
    exact decide_eq_true flag.mem_nodeStatuses
  rw [setFailureStatus, split_flags, NodeRecord.flags, List.filter_append, List.filter_append,
    List.filter_append, hfails]
  have hmyself : (if r.myself then ["myself"] else []).filter
      (fun val => decide (val ∈ nodeStatuses)) = [] := by
    split
    · decide
    · rfl
  have hnofailover : (if r.noFailover then ["nofailover"] else []).filter
      (fun val => decide (val ∈ nodeStatuses)) = [] := by
    split
    · decide
    · rfl
  have hrole : (r.role.toList.map Role.text).filter (fun val => decide (val ∈ nodeStatuses)) = [] := by
    cases r.role with
    | none => rfl
    | some role =>
      cases role with
      | master => decide
      | slave => decide
  rw [hmyself, hrole, hnofailover, List.append_nil]
  rfl

theorem other_not_myself (h : f ∈ otherFlags) (cs : List Char) :
    "myself".toList.isPrefixOf (f.toList ++ cs) = false := by
  simp only [otherFlags, List.mem_cons, List.not_mem_nil, or_false] at h
  rcases h with rfl | rfl | rfl | rfl | rfl | rfl | rfl | rfl
  · rfl
  · rfl
  · rfl
  · rfl
  · rfl
  · rfl
  · rfl
  · rfl

/-- The flag of the node itself comes first. -/
theorem myself_flags (r : NodeRecord) :
    "myself".toList.isPrefixOf (",".intercalate r.flags).toList = r.myself := by
  obtain ⟨f, rest, hflags⟩ := List.exists_cons_of_ne_nil (flags_ne_nil r)
  obtain ⟨cs, htext⟩ : ∃ cs, (",".intercalate (f :: rest)).toList = f.toList ++ cs := by
    rw [String.toList_intercalate, List.map_cons]
    cases rest with
    | nil => exact ⟨[], by simp⟩
    | cons g rest =>
      rw [List.map_cons, List.intercalate_cons_cons, List.append_assoc]
      exact ⟨_, rfl⟩
  rw [hflags, htext]
  cases hmyself : r.myself with
  | true =>
    obtain rfl : "myself" = f := by
      rw [NodeRecord.flags, if_pos hmyself] at hflags
      exact (List.cons.inj hflags).1
    exact List.isPrefixOf_iff_prefix.mpr ⟨cs, rfl⟩
  | false =>
    have hmem : f ∈ r.flags := by
      rw [hflags]
      exact List.mem_cons_self
    rcases mem_flags hmem with ⟨-, htrue⟩ | hother
    · rw [hmyself] at htrue
      cases htrue
    · exact other_not_myself hother cs

end Flags

section Lines

variable {r : NodeRecord} {records : List NodeRecord} {words : List String}
  {infos : List ClusterNodeData}

theorem fields_intercalate (hne : words ≠ []) (h : ∀ word ∈ words, IsWord word) :
    fields (" ".intercalate words) = words := by
  induction words with
  | nil => exact absurd rfl hne
  | cons word words ih =>
    obtain ⟨hword, hwords⟩ := List.forall_mem_cons.mp h
    cases words with
    | nil => exact fields_word hword
    | cons next words =>
      have hjoin : " ".intercalate (word :: next :: words) =
          word ++ " " ++ " ".intercalate (next :: words) := by
        apply String.toList_injective
        simp [String.toList_intercalate]
      rw [hjoin, fields_append hword, ih (List.cons_ne_nil _ _) hwords]

theorem address_word (r : NodeRecord) : IsWord (r.addr ++ "@" ++ r.cPort.repr) := by
  refine isWord_append ?_ ?_
  · intro c hc
    simp only [NodeRecord.addr, String.toList_append, List.mem_append] at hc
    rcases hc with ((hc | hc) | hc) | hc
    · exact (r.ip_valid c hc).1
    · rw [List.mem_singleton.mp hc]
      decide
    · exact isSpace_of_isDigit (repr_isDigit hc)
    · rw [List.mem_singleton.mp hc]
      decide
  · exact ⟨fun hempty => repr_ne_nil _ (congrArg String.toList hempty),
      fun c hc => isSpace_of_isDigit (repr_isDigit hc)⟩

theorem flags_word (r : NodeRecord) : IsWord (",".intercalate r.flags) := by
  refine ⟨fun hempty => ?_, fun c hc => ?_⟩
  · have hsplit := split_flags r
    rw [hempty] at hsplit
    have hmem : "" ∈ r.flags := by
      rw [← hsplit]
      exact List.mem_singleton_self _
    exact (flag_word hmem).1.1 rfl
  · rw [String.toList_intercalate] at hc
    have hsep : ",".toList = [','] := rfl
    rw [hsep] at hc
    rcases Pieces.mem_intercalate hc with rfl | ⟨u, hu, hc⟩
    · decide
    · obtain ⟨f, hf, rfl⟩ := List.mem_map.mp hu
      exact (flag_word hf).1.2 c hc

theorem words_isWord (r : NodeRecord) : ∀ word ∈ r.words, IsWord word := by
  have hmaster : IsWord (r.masterID.getD "-") := by
    cases hid : r.masterID with
    | none => exact isWord_of_all (by decide) (by decide)
    | some master => exact (r.masterID_valid master hid).1
  have hlink : IsWord (if r.connected then redisLinkStateConnected else redisLinkStateDisconnected) := by
    split
    · exact isWord_of_all (by decide) (by decide)
    · exact isWord_of_all (by decide) (by decide)
  have hitems : ∀ word ∈ r.items.map TailItem.text, IsWord word := by
    intro word hword
    obtain ⟨item, hitem, rfl⟩ := List.mem_map.mp hword
    exact (r.items_valid item hitem).isWord
  intro word hword
  rcases List.mem_append.mp hword with hword | hword
  · simp only [List.mem_cons, List.not_mem_nil, or_false] at hword
    rcases hword with rfl | rfl | rfl | rfl | rfl | rfl | rfl | rfl
    · exact r.id_valid.1
    · exact address_word r
    · exact flags_word r
    · exact hmaster
    · exact decimal_word _
    · exact decimal_word _
    · exact decimal_word _
    · exact hlink
  · exact hitems word hword

theorem addr_no_at (r : NodeRecord) : '@' ∉ r.addr.toList := by
  intro hmem
  simp only [NodeRecord.addr, String.toList_append, List.mem_append] at hmem
  rcases hmem with (hmem | hmem) | hmem
  · exact (r.ip_valid '@' hmem).2 rfl
  · exact absurd hmem (by decide)
  · exact absurd (repr_isDigit hmem) (by decide)

theorem repr_no (n : ℕ) {c : Char} (h : c.isDigit = false) : c ∉ n.repr.toList := by
  intro hmem
  rw [repr_isDigit hmem] at h
  cases h

theorem readAddr_record (r : NodeRecord) : ∃ ip port, readAddr r.addr = .done (ip, port) ∧
    (':' ∉ r.ip.toList → isValidIP r.ip = true → ip = r.ip) ∧
      (':' ∉ r.ip.toList → port = r.port) := by
  have hcolon : ':' ∈ r.addr.toList := by simp [NodeRecord.addr]
  have hne : r.addr ≠ "" := by
    intro hempty
    rw [hempty] at hcolon
    exact absurd hcolon (by decide)
  by_cases hhost : ':' ∈ r.ip.toList
  · rcases readAddr_cases r.addr with ⟨-, -, hno⟩ | ⟨⟨ip, port⟩, hread, -⟩
    · exact absurd hcolon hno
    · exact ⟨ip, port, hread, fun h => absurd hhost h, fun h => absurd hhost h⟩
  · have hsplit : split r.addr ':' = [r.ip, r.port.repr] :=
      split_pair rfl hhost (repr_no_colon r.port)
    have hvalue : atoiValue r.port.repr = r.port := atoiValue_repr (r.port_valid.trans (by decide))
    refine ⟨if isValidIP r.ip then r.ip else (split r.addr '.').headD "", _, ?_, fun _ hvalid => ?_, fun _ => hvalue⟩
    · rw [readAddr, if_neg hne, hsplit]
      rfl
    · exact if_pos hvalid

theorem parsed_decimal {n : ℤ} (h : fitsInt64 n) : parsed (decimal n) = n := by
  rw [parsed, atoi_decimal h.1 h.2]
  rfl

theorem setReferentMaster_record (r : NodeRecord) :
    setReferentMaster (r.masterID.getD "-") = r.masterID.getD "" := by
  cases hid : r.masterID with
  | none => rfl
  | some master =>
    refine if_neg ?_
    rintro rfl
    exact (r.masterID_valid "-" hid).2 (by decide)

/-- A rendered line is read as its record, with the slots on the move swapped. -/
theorem decodeLine_record (r : NodeRecord) : ∃ node, decodeLine r.line = .done (some node) ∧
    SameNode r node ∧ node.migratingSlots = r.importingSlots ∧
      node.importingSlots = r.migratingSlots := by
  have hfields : fields r.line = r.words :=
    fields_intercalate (List.cons_ne_nil _ _) (words_isWord r)
  have hsplit : split (r.addr ++ "@" ++ r.cPort.repr) '@' = [r.addr, r.cPort.repr] :=
    split_pair rfl (addr_no_at r) (repr_no r.cPort (by decide))
  have hcPort : atoiValue r.cPort.repr = r.cPort := atoiValue_repr (r.cPort_valid.trans (by decide))
  obtain ⟨ip, port, haddr, hip, hport⟩ := readAddr_record r
  have hlink : setLinkStatus (if r.connected then redisLinkStateConnected
      else redisLinkStateDisconnected) =
        if r.connected then redisLinkStateConnected else redisLinkStateDisconnected := by
    cases r.connected with
    | true => rfl
    | false => rfl
  have hfirst : (Panicking.index [r.addr, r.cPort.repr] 0 : Panicking SlotsError String) =
      .done r.addr := rfl
  have hsecond : (Panicking.index [r.addr, r.cPort.repr] 1 : Panicking SlotsError String) =
      .done r.cPort.repr := rfl
  unfold decodeLine
  rw [hfields]
  dsimp only [NodeRecord.words, List.cons_append, List.nil_append]
  rw [hsplit, hfirst, hsecond]
  dsimp only [Panicking.bind]
  rw [haddr]
  dsimp only
  rw [hcPort, setRole_flags, myself_flags, hlink, setReferentMaster_record, setFailureStatus_flags,
    parsed_decimal r.pingSent_valid, parsed_decimal r.pongRecv_valid,
    parsed_decimal r.configEpoch_valid]
  generalize hstart : ClusterNodeData.mk _ _ _ _ _ _ _ _ _ _ _ _ _ _ _ _ _ _ = start
  obtain ⟨slotSrcStr, hread⟩ := @readSlots_items r.items start r.items_valid
  rw [hread]
  subst hstart
  refine ⟨_, rfl, ⟨rfl, rfl, hip, hport, rfl, rfl, rfl, rfl, rfl, rfl, rfl, rfl, rfl,
    List.nil_append _, fun slot => ?_⟩, rfl, rfl⟩
  have hmembers := Decoded.empty.slotMap_addSlots r.slots slot
  exact hmembers.trans (by simp [Decoded.empty])

/-- A rendered line has no line break in it. -/
theorem line_no_newline (r : NodeRecord) : '\n' ∉ r.line.toList := by
  intro hmem
  rw [NodeRecord.line, String.toList_intercalate] at hmem
  have hsep : " ".toList = [' '] := rfl
  rw [hsep] at hmem
  rcases Pieces.mem_intercalate hmem with hspace | ⟨u, hu, hc⟩
  · exact absurd hspace (by decide)
  · obtain ⟨word, hword, rfl⟩ := List.mem_map.mp hu
    exact newline_notMem (words_isWord r word hword).2 hc

theorem decodeLines_records (records : List NodeRecord) (infos : List ClusterNodeData) :
    ∃ nodes, decodeLines (records.map NodeRecord.line ++ [""]) infos = .done (infos ++ nodes) ∧
      List.Forall₂ (fun r node => SameNode r node ∧ node.migratingSlots = r.importingSlots ∧
        node.importingSlots = r.migratingSlots) records nodes := by
  induction records generalizing infos with
  | nil =>
    refine ⟨[], ?_, .nil⟩
    rw [List.append_nil]
    rfl
  | cons r records ih =>
    obtain ⟨node, hline, hnode⟩ := decodeLine_record r
    obtain ⟨nodes, hlines, hnodes⟩ := ih (infos ++ [node])
    refine ⟨node :: nodes, ?_, .cons hnode hnodes⟩
    rw [List.map_cons, List.cons_append, decodeLines, hline]
    dsimp only
    rw [hlines, List.append_assoc]
    rfl

theorem decodeClusterNodes_text (records : List NodeRecord) :
    ∃ nodes, decodeClusterNodes (clusterNodesText records) = .done nodes ∧
      List.Forall₂ (fun r node => SameNode r node ∧ node.migratingSlots = r.importingSlots ∧
        node.importingSlots = r.migratingSlots) records nodes := by
  have hsplit : split (clusterNodesText records) '\n' = records.map NodeRecord.line ++ [""] := by
    refine split_unlines fun line hline => ?_
    obtain ⟨r, -, rfl⟩ := List.mem_map.mp hline
    exact line_no_newline r
  obtain ⟨nodes, hdecode, hnodes⟩ := decodeLines_records records []
  refine ⟨nodes, ?_, hnodes⟩
  rw [decodeClusterNodes, hsplit, hdecode]
  rfl

/-- The listing comes back just where every node's slots on the move are the same both ways. -/
theorem nodesRoundTrip_iff (records : List NodeRecord) : NodesRoundTrip records ↔
    ∀ r ∈ records, ∀ slot, r.migratingSlots.lookup slot = r.importingSlots.lookup slot := by
  obtain ⟨nodes, hread, hnodes⟩ := decodeClusterNodes_text records
  have hiff : NodesRoundTrip records ↔ List.Forall₂ Matches records nodes := by
    constructor
    · rintro ⟨nodes', hdecode', hmatches⟩
      rw [hread] at hdecode'
      cases hdecode'
      exact hmatches
    · exact fun hmatches => ⟨nodes, hread, hmatches⟩
  refine hiff.trans ?_
  clear hiff hread
  induction hnodes with
  | nil => exact ⟨fun _ r hr => absurd hr (List.not_mem_nil), fun _ => .nil⟩
  | @cons r node records nodes hnode hnodes ih =>
    obtain ⟨hsame, hmigrating, himporting⟩ := hnode
    have hmatch : Matches r node ↔
        ∀ slot, r.migratingSlots.lookup slot = r.importingSlots.lookup slot := by
      constructor
      · intro h slot
        rw [← h.migratingSlots, hmigrating]
      · intro h
        refine ⟨hsame, fun slot => ?_, fun slot => ?_⟩
        · rw [hmigrating, h]
        · rw [himporting, h]
    apply List.forall₂_cons.trans
    apply Iff.trans (and_congr hmatch ih)
    rw [List.forall_mem_cons]

theorem loopback_plain : ∀ c ∈ "127.0.0.1".toList, isSpace c = false ∧ c ≠ '@' := by
  have hall : "127.0.0.1".toList.all (fun c => !isSpace c && decide (c ≠ '@')) = true := by decide
  intro c hc
  simpa using List.all_eq_true.mp hall c hc

/-- A master that is sending one slot away. -/
def sendingMaster : NodeRecord where
  nodeID := "67ed2db8d677e59ec4a4cefb06858cf2a1a89fa1"
  ip := "127.0.0.1"
  port := 30002
  cPort := 31002
  myself := true
  role := some .master
  failStatus := []
  noFailover := false
  masterID := none
  pingSent := 0
  pongRecv := 1426238316232
  configEpoch := 2
  connected := true
  items := [.slots 5461 10922, .migrating 5461 "e7d1eecce10fd6bb5eb35b9f99a514335d9ba9ca"]
  id_valid := ⟨isWord_of_all (by decide) (by decide), by decide⟩
  ip_valid := loopback_plain
  port_valid := by decide
  cPort_valid := by decide
  flags_valid := .inl rfl
  masterID_valid := nofun
  pingSent_valid := ⟨by decide, by decide⟩
  pongRecv_valid := ⟨by decide, by decide⟩
  configEpoch_valid := ⟨by decide, by decide⟩
  items_valid := by
    intro item hitem
    simp only [List.mem_cons, List.not_mem_nil, or_false] at hitem
    rcases hitem with rfl | rfl
    · exact ⟨by decide, by decide⟩
    · exact ⟨by decide, isWord_of_all (by decide) (by decide), by decide⟩

/-- The slot that it sends away comes back as one that it takes in. -/
theorem sending_read_as_importing : ¬ NodesRoundTrip [sendingMaster] := by
  rintro ⟨nodes', hdecode, hmatches⟩
  obtain ⟨nodes, hread, hnodes⟩ := decodeClusterNodes_text [sendingMaster]
  rw [hread] at hdecode
  cases hdecode
  rcases hnodes with _ | ⟨⟨-, hmigrating, -⟩, -⟩
  rcases hmatches with _ | ⟨hmatch, -⟩
  have hlookup := hmatch.migratingSlots 5461
  rw [hmigrating] at hlookup
  exact absurd hlookup (by decide)

end Lines

end Myredis
