import BluekingDbm.Rollback.Binlogs
import BluekingDbm.Rollback.Manifest
import BluekingDbm.Library.Ranging

/-! The binlogs that the actuator finds on disk, checked against the chain that was planned. -/
namespace Rollback

open Numeral

structure KvstoreBinlog where
  kvstore : ℤ
  binlogs : BinlogPayload

/-- What one port's restore is told of the source and its binlogs. -/
structure InstanceRestore where
  sourceIp : String
  sourcePort : ℤ
  binlogs : BinlogPayload
  kvstoreBinlogs : List KvstoreBinlog

/-- The binlogs in the actuator's payload; Tendisplus gets one digest per kvstore. -/
def actuatorInstance (sha256 : String → String) (plus : Bool) (sourceIp : String) (sourcePort : ℤ)
    (binlogFiles : List BinlogRecord) : InstanceRestore where
  sourceIp
  sourcePort
  binlogs := binlogPayload sha256 (if plus then [] else binlogFiles)
  kvstoreBinlogs :=
    if plus then (kvstoreBinlogs binlogFiles).map fun p => ⟨p.1, binlogPayload sha256 p.2⟩ else []

structure LocalBinlog where
  path : String
  index : ℤ
  deriving DecidableEq

/-- The paths that `binlog-*` matches in a directory, its names listed in any order. -/
def globBinlogs (saveDir : String) (listing : List String) : List String :=
  (listing.filter fun name => "binlog-".toList.isPrefixOf name.toList).map fun name =>
    saveDir ++ "/" ++ name

/-- The numbers behind the port in the name of one of the instance's binlogs. -/
def instanceBinlog (count : ℕ) (inst : InstanceRestore) (name : String) : Option (List String) :=
  match matchBinlogName Char.isDigit count name with
  | some (ip, port :: numbers) =>
    if (ip ≠ "" ∧ ip ≠ inst.sourceIp) ∨ port ≠ Text.decimal inst.sourcePort then none
    else some numbers
  | _ => none

/-- The index of one of the instance's binlogs. -/
def localIndex (inst : InstanceRestore) (name : String) : Option ℤ :=
  (instanceBinlog 2 inst name).map fun numbers => parseInt (numbers.getD 0 "")

/-- The index of one of the instance's binlogs, if the kvstore is the one asked for. -/
def localKvstoreIndex (inst : InstanceRestore) (kvstore : ℤ) (name : String) : Option ℤ :=
  (instanceBinlog 3 inst name).bind fun numbers =>
    if parseInt (numbers.getD 0 "") = kvstore then some (parseInt (numbers.getD 1 "")) else none

def foundBinlogs (saveDir : String) (listing : List String) (index : String → Option ℤ) :
    List LocalBinlog :=
  (globBinlogs saveDir listing).filterMap fun path =>
    (index (baseName path)).map fun index => ⟨path, index⟩

def localLess (a b : LocalBinlog) : Bool :=
  if a.index ≠ b.index then a.index < b.index else a.path < b.path

/-- sha256 over binlog basenames in index order, joined by newlines. -/
def localFingerprint (sha256 : String → String) (names : List String) : String :=
  sha256 ("\n".intercalate names)

structure ChainMismatch where
  want : ℕ
  got : ℕ
  missing : List ℤ
  duplicate : List ℤ
  deriving DecidableEq

def BinlogRange.indexes (rng : BinlogRange) : List ℤ :=
  (List.range (rng.lastIndex + 1 - rng.firstIndex).toNat).map fun n => rng.firstIndex + Int.ofNat n

/-- The binlogs within the planned range, in index order, which must be the planned chain. -/
def checkChain (sha256 : String → String) (r : RangeOrder LocalBinlog) (found : List LocalBinlog)
    (d : BinlogPayload) : Except ChainMismatch (List String) :=
  let chain := r.sortSlice localLess (found.filter fun b =>
    d.binlogRange.firstIndex ≤ b.index ∧ b.index ≤ d.binlogRange.lastIndex)
  let files := chain.map LocalBinlog.path
  let seen := chain.map LocalBinlog.index
  if chain.length = d.binlogCount ∧
      localFingerprint sha256 (files.map baseName) = d.binlogFingerprint then .ok files
  else .error
    { want := d.binlogCount
      got := chain.length
      missing := d.binlogRange.indexes.filter fun index => seen.count index = 0
      duplicate := d.binlogRange.indexes.filter fun index => 1 < seen.count index }

def localBinlogs (sha256 : String → String) (r : RangeOrder LocalBinlog) (saveDir : String)
    (listing : List String) (inst : InstanceRestore) : Except ChainMismatch (List String) :=
  if inst.binlogs.binlogCount = 0 then .ok []
  else checkChain sha256 r (foundBinlogs saveDir listing (localIndex inst)) inst.binlogs

/-- The chains of the kvstores, each entered under its kvstore once it has passed. -/
def checkKvstores (sha256 : String → String) (r : RangeOrder LocalBinlog) (saveDir : String)
    (listing : List String) (inst : InstanceRestore) :
    List KvstoreBinlog → Except ChainMismatch (List (ℤ × List String))
  | [] => .ok []
  | d :: rest =>
    match checkChain sha256 r (foundBinlogs saveDir listing (localKvstoreIndex inst d.kvstore))
      d.binlogs with
    | .error mismatch => .error mismatch
    | .ok files =>
      match checkKvstores sha256 r saveDir listing inst rest with
      | .error mismatch => .error mismatch
      | .ok chains => .ok ((d.kvstore, files) :: chains)

def localKvstoreBinlogs (sha256 : String → String) (r : RangeOrder LocalBinlog) (saveDir : String)
    (listing : List String) (inst : InstanceRestore) :
    Except ChainMismatch (List (ℤ × List String)) :=
  checkKvstores sha256 r saveDir listing inst inst.kvstoreBinlogs

/-- What the engine of the port finds: a Tendis SSD port has one chain, given here under 0. -/
def localChains (sha256 : String → String) (r : RangeOrder LocalBinlog) (plus : Bool)
    (saveDir : String) (listing : List String) (inst : InstanceRestore) :
    Except ChainMismatch (List (ℤ × List String)) :=
  if plus then localKvstoreBinlogs sha256 r saveDir listing inst
  else (localBinlogs sha256 r saveDir listing inst).map fun files => [(0, files)]

section Sorting

variable {r : RangeOrder LocalBinlog} {a b c : LocalBinlog}

theorem localLess_false : localLess b a = false ↔
    a.index < b.index ∨ a.index = b.index ∧ a.path ≤ b.path := by
  unfold localLess
  split
  · rename_i hne
    simp only [decide_eq_false_iff_not]
    omega
  · rename_i heq
    have heq := not_not.mp heq
    simp only [decide_eq_false_iff_not, String.not_lt, heq, lt_irrefl, true_and, false_or]

theorem localLess_sorted (l : List LocalBinlog) :
    (r.sortSlice localLess l).Pairwise fun a b => localLess b a = false := by
  apply RangeOrder.pairwise_sortSlice
  · intro a b c hab hbc
    rw [localLess_false] at hab hbc ⊢
    rcases hab with hab | ⟨hab, hpath⟩
    · left
      rcases hbc with hbc | ⟨hbc, -⟩ <;> omega
    · rcases hbc with hbc | ⟨hbc, hpath'⟩
      · left
        omega
      · exact Or.inr ⟨hab.trans hbc, String.le_trans hpath hpath'⟩
  · intro a b
    rw [localLess_false, localLess_false]
    rcases lt_trichotomy a.index b.index with hlt | heq | hgt
    · exact Or.inl (Or.inl hlt)
    · rcases String.le_total a.path b.path with hpath | hpath
      · exact Or.inl (Or.inr ⟨heq, hpath⟩)
      · exact Or.inr (Or.inr ⟨heq.symm, hpath⟩)
    · exact Or.inr (Or.inl hgt)

theorem localLess_antisymm (hab : localLess b a = false) (hba : localLess a b = false) : a = b := by
  rw [localLess_false] at hab hba
  obtain ⟨path, index⟩ := a
  obtain ⟨path', index'⟩ := b
  dsimp only at hab hba
  rcases hab with hab | ⟨rfl, hpath⟩
  · omega
  · rcases hba with hba | ⟨-, hpath'⟩
    · omega
    · rw [String.le_antisymm hpath hpath']

end Sorting

section Names

variable {inst : InstanceRestore} {count : ℕ} {name : String} {numbers : List String} {index : ℤ}

theorem baseName_join (saveDir : String) (h : '/' ∉ name.toList) :
    baseName (saveDir ++ "/" ++ name) = name := by
  have hlist : (saveDir ++ "/" ++ name).toList = saveDir.toList ++ '/' :: name.toList := by simp
  rw [baseName, Text.split, hlist, List.splitOn_append_cons_self, List.splitOn_eq_singleton h,
    List.map_append, List.map_singleton, List.getLastD_concat, String.ofList_toList]

theorem baseName_self (h : '/' ∉ name.toList) : baseName name = name := by
  rw [baseName, Text.split, List.splitOn_eq_singleton h, List.map_singleton]
  simp

theorem instanceBinlog_match (h : instanceBinlog count inst name = some numbers) :
    ∃ ip port, matchBinlogName Char.isDigit count name = some (ip, port :: numbers) := by
  unfold instanceBinlog at h
  split at h
  · rename_i ip port rest hmatch
    split at h
    · cases h
    · obtain rfl := Option.some_inj.mp h
      exact ⟨ip, port, hmatch⟩
  · cases h

/-- A name that can be a binlog's: one line, no path, and the prefix that is looked for. -/
structure IsBinlogName (name : String) : Prop where
  newline : '\n' ∉ name.toList
  slash : '/' ∉ name.toList
  found : "binlog-".toList.isPrefixOf name.toList = true

theorem instanceBinlog_name (h : instanceBinlog count inst name = some numbers) :
    IsBinlogName name := by
  obtain ⟨ip, port, hmatch⟩ := instanceBinlog_match h
  exact ⟨matchBinlogName_chars (by decide) (by decide) hmatch,
    matchBinlogName_chars (by decide) (by decide) hmatch, matchBinlogName_prefix hmatch⟩

theorem localIndex_name (h : localIndex inst name = some index) : IsBinlogName name := by
  obtain ⟨numbers, hnumbers, -⟩ := Option.map_eq_some_iff.mp h
  exact instanceBinlog_name hnumbers

theorem localKvstoreIndex_name {kvstore : ℤ} (h : localKvstoreIndex inst kvstore name = some index) :
    IsBinlogName name := by
  obtain ⟨numbers, hnumbers, -⟩ := Option.bind_eq_some_iff.mp h
  exact instanceBinlog_name hnumbers

end Names

section Check

variable {sha256 : String → String} {r : RangeOrder LocalBinlog} {saveDir : String}
  {listing : List String} {index : String → Option ℤ} {chain : List BinlogRecord}

/-- Where a planned binlog lies on disk. -/
def localPaths (saveDir : String) (chain : List BinlogRecord) : List String :=
  chain.map fun b => saveDir ++ "/" ++ b.fileName

/-- The text whose digest stands for a chain. -/
def chainNames (chain : List BinlogRecord) : String :=
  "\n".intercalate (chain.map BinlogRecord.fileName)

/-- Within the range, the binlogs in the directory are those of the chain. -/
def HoldsExactly (listing : List String) (index : String → Option ℤ) (rng : BinlogRange)
    (chain : List BinlogRecord) : Prop :=
  ∀ name, (name ∈ listing ∧ ∃ i ∈ index name, rng.firstIndex ≤ i ∧ i ≤ rng.lastIndex) ↔
    name ∈ chain.map BinlogRecord.fileName

theorem mem_foundBinlogs (hindex : ∀ name i, index name = some i → IsBinlogName name)
    (hlisting : ∀ name ∈ listing, '/' ∉ name.toList) {x : LocalBinlog} :
    x ∈ foundBinlogs saveDir listing index ↔
      ∃ name ∈ listing, ∃ i, index name = some i ∧ x = ⟨saveDir ++ "/" ++ name, i⟩ := by
  simp only [foundBinlogs, globBinlogs, List.mem_filterMap, List.mem_map, List.mem_filter]
  constructor
  · rintro ⟨path, ⟨name, ⟨hname, -⟩, rfl⟩, hx⟩
    rw [baseName_join saveDir (hlisting name hname)] at hx
    obtain ⟨i, hi, rfl⟩ := Option.map_eq_some_iff.mp hx
    exact ⟨name, hname, i, hi, rfl⟩
  · rintro ⟨name, hname, i, hi, rfl⟩
    refine ⟨_, ⟨name, ⟨hname, (hindex name i hi).found⟩, rfl⟩, ?_⟩
    rw [baseName_join saveDir (hlisting name hname), hi]
    rfl

theorem join_injective {name name' : String} (h : saveDir ++ "/" ++ name = saveDir ++ "/" ++ name') :
    name = name' := by
  have hlist := congrArg String.toList h
  simp only [String.toList_append] at hlist
  exact String.toList_injective (List.append_cancel_left hlist)

theorem foundBinlogs_nodup (hnodup : listing.Nodup) : (foundBinlogs saveDir listing index).Nodup := by
  have hglob : (globBinlogs saveDir listing).Nodup := by
    apply List.Nodup.map_on _ (hnodup.filter _)
    intro name _ name' _ h
    exact join_injective h
  apply hglob.filterMap
  intro path path' b hb hb'
  obtain ⟨i, -, rfl⟩ := Option.map_eq_some_iff.mp hb
  obtain ⟨i', -, h⟩ := Option.map_eq_some_iff.mp hb'
  exact (LocalBinlog.mk.inj h).1.symm

/-- The planner's digest is the one that the actuator computes from the names. -/
theorem binlogFingerprint_eq (hslash : ∀ b ∈ chain, '/' ∉ b.fileName.toList) :
    binlogFingerprint sha256 (chain.map BinlogRecord.fileName) =
      localFingerprint sha256 (chain.map BinlogRecord.fileName) := by
  have hbase : (chain.map BinlogRecord.fileName).map baseName =
      chain.map BinlogRecord.fileName := by
    rw [List.map_map]
    exact List.map_congr_left fun b hb => baseName_self (hslash b hb)
  rw [binlogFingerprint, hbase, localFingerprint]

theorem baseName_localPaths (hslash : ∀ b ∈ chain, '/' ∉ b.fileName.toList) :
    (localPaths saveDir chain).map baseName = chain.map BinlogRecord.fileName := by
  rw [localPaths, List.map_map]
  exact List.map_congr_left fun b hb => baseName_join saveDir (hslash b hb)

/-- Names are told apart by the digest of their lines. -/
theorem localFingerprint_injective {names : List String} (hne : chain ≠ [])
    (hone : OneToOneAt sha256 (chainNames chain)) (hlength : names.length = chain.length)
    (hchain : ∀ b ∈ chain, '\n' ∉ b.fileName.toList) (hnames : ∀ name ∈ names, '\n' ∉ name.toList)
    (h : localFingerprint sha256 names =
      localFingerprint sha256 (chain.map BinlogRecord.fileName)) :
    names = chain.map BinlogRecord.fileName := by
  have hjoin := hone _ h
  have hnames' : names ≠ [] := by
    rintro rfl
    exact hne (List.eq_nil_of_length_eq_zero hlength.symm)
  have hsplit : Text.split ("\n".intercalate names) '\n' = Text.split (chainNames chain) '\n' :=
    congrArg (fun s => Text.split s '\n') hjoin
  rw [chainNames, Text.split_intercalate rfl hnames' hnames,
    Text.split_intercalate rfl (by simpa using hne)] at hsplit
  · exact hsplit
  · intro name hname
    obtain ⟨b, hb, rfl⟩ := List.mem_map.mp hname
    exact hchain b hb

/-- The check passes when the directory holds exactly the chain within its range, and gives the
chain's paths in the planned order; it fails otherwise. -/
theorem checkChain_spec (hindex : ∀ name i, index name = some i → IsBinlogName name)
    (hlisting : ∀ name ∈ listing, '/' ∉ name.toList) (hnodup : listing.Nodup)
    (hne : chain ≠ []) (hchain : ∀ b ∈ chain, index b.fileName = some b.index)
    (hsorted : (chain.map BinlogRecord.index).Pairwise (· < ·))
    (hone : OneToOneAt sha256 (chainNames chain)) :
    (HoldsExactly listing index (binlogPayload sha256 chain).binlogRange chain →
      checkChain sha256 r (foundBinlogs saveDir listing index) (binlogPayload sha256 chain) =
        .ok (localPaths saveDir chain)) ∧
    (¬ HoldsExactly listing index (binlogPayload sha256 chain).binlogRange chain →
      ∃ mismatch, checkChain sha256 r (foundBinlogs saveDir listing index)
        (binlogPayload sha256 chain) = .error mismatch) := by
  generalize hrng : (binlogPayload sha256 chain).binlogRange = rng
  have hslash : ∀ b ∈ chain, '/' ∉ b.fileName.toList :=
    fun b hb => (hindex _ _ (hchain b hb)).slash
  have hfingerprint : (binlogPayload sha256 chain).binlogFingerprint =
      localFingerprint sha256 (chain.map BinlogRecord.fileName) := by
    rw [binlogPayload, if_neg hne, binlogFingerprint_eq hslash]
  have hcount : (binlogPayload sha256 chain).binlogCount = chain.length := rfl
  generalize hsort : r.sortSlice localLess ((foundBinlogs saveDir listing index).filter fun b =>
    rng.firstIndex ≤ b.index ∧ b.index ≤ rng.lastIndex) = sorted
  have hmem : ∀ x, x ∈ sorted ↔ ∃ name ∈ listing, ∃ i, index name = some i ∧
      (rng.firstIndex ≤ i ∧ i ≤ rng.lastIndex) ∧ x = ⟨saveDir ++ "/" ++ name, i⟩ := by
    intro x
    rw [← hsort, RangeOrder.mem_sortSlice, List.mem_filter, mem_foundBinlogs hindex hlisting]
    constructor
    · rintro ⟨⟨name, hname, i, hi, rfl⟩, hrange⟩
      exact ⟨name, hname, i, hi, by simpa using hrange, rfl⟩
    · rintro ⟨name, hname, i, hi, hrange, rfl⟩
      exact ⟨⟨name, hname, i, hi, rfl⟩, by simpa using hrange⟩
  unfold checkChain
  dsimp only
  rw [hrng, hsort, hfingerprint, hcount]
  constructor
  · intro hexact
    have hperm : sorted.Perm (chain.map fun b => ⟨saveDir ++ "/" ++ b.fileName, b.index⟩) := by
      rw [List.perm_ext_iff_of_nodup]
      · intro x
        rw [hmem, List.mem_map]
        constructor
        · rintro ⟨name, hname, i, hi, hrange, rfl⟩
          obtain ⟨b, hb, rfl⟩ := List.mem_map.mp ((hexact name).mp ⟨hname, i, hi, hrange⟩)
          obtain rfl := Option.some_inj.mp (hi.symm.trans (hchain b hb))
          exact ⟨b, hb, rfl⟩
        · rintro ⟨b, hb, rfl⟩
          obtain ⟨hname, i, hi, hrange⟩ := (hexact b.fileName).mpr (List.mem_map_of_mem hb)
          obtain rfl := Option.some_inj.mp ((Option.mem_def.mp hi).symm.trans (hchain b hb))
          exact ⟨b.fileName, hname, b.index, hi, hrange, rfl⟩
      · rw [← hsort, (r.perm_sortSlice localLess).nodup_iff]
        exact (foundBinlogs_nodup hnodup).filter _
      · refine List.pairwise_map.mpr ((List.pairwise_map.mp hsorted).imp ?_)
        intro a b hab heq
        exact Int.ne_of_lt hab (LocalBinlog.mk.inj heq).2
    have hplanned : (chain.map fun b => (⟨saveDir ++ "/" ++ b.fileName, b.index⟩ : LocalBinlog)).Pairwise
        fun a b => localLess b a = false := by
      refine List.pairwise_map.mpr ((List.pairwise_map.mp hsorted).imp ?_)
      intro a b hab
      exact localLess_false.mpr (Or.inl hab)
    have heq : sorted = chain.map fun b => ⟨saveDir ++ "/" ++ b.fileName, b.index⟩ := by
      apply List.Perm.eq_of_pairwise (fun a b _ _ hab hba => localLess_antisymm hab hba) _
        hplanned hperm
      rw [← hsort]
      exact localLess_sorted _
    have hpaths : sorted.map LocalBinlog.path = localPaths saveDir chain := by
      rw [heq, List.map_map]
      rfl
    rw [hpaths, baseName_localPaths hslash, if_pos ⟨by rw [heq, List.length_map], rfl⟩]
  · intro hnot
    rw [if_neg]
    · exact ⟨_, rfl⟩
    · rintro ⟨hlength, hdigest⟩
      have hnames : (sorted.map LocalBinlog.path).map baseName =
          chain.map BinlogRecord.fileName := by
        apply localFingerprint_injective hne hone (by simpa using hlength)
          (fun b hb => (hindex _ _ (hchain b hb)).newline) _ hdigest
        intro name hname
        obtain ⟨path, hpath, rfl⟩ := List.mem_map.mp hname
        obtain ⟨x, hx, rfl⟩ := List.mem_map.mp hpath
        obtain ⟨name, hin, i, hi, -, rfl⟩ := (hmem x).mp hx
        rw [baseName_join saveDir (hlisting name hin)]
        exact (hindex name i hi).newline
      apply hnot
      intro name
      rw [← hnames, List.map_map]
      constructor
      · rintro ⟨hname, i, hi, hrange⟩
        refine List.mem_map.mpr ⟨_, (hmem _).mpr ⟨name, hname, i, hi, hrange, rfl⟩, ?_⟩
        exact baseName_join saveDir (hlisting name hname)
      · intro hname
        obtain ⟨x, hx, rfl⟩ := List.mem_map.mp hname
        obtain ⟨name', hname', i, hi, hrange, rfl⟩ := (hmem x).mp hx
        rw [Function.comp_apply, baseName_join saveDir (hlisting name' hname')]
        exact ⟨hname', i, hi, hrange⟩

theorem checkKvstores_spec {inst : InstanceRestore} {kvstores : List ℕ} {exact : ℕ → Prop}
    {digests : ℕ → BinlogPayload} {files : ℕ → List String}
    (h : ∀ k ∈ kvstores,
      (exact k → checkChain sha256 r (foundBinlogs saveDir listing (localKvstoreIndex inst k))
        (digests k) = .ok (files k)) ∧
      (¬ exact k → ∃ mismatch, checkChain sha256 r
        (foundBinlogs saveDir listing (localKvstoreIndex inst k)) (digests k) = .error mismatch)) :
    ((∀ k ∈ kvstores, exact k) → checkKvstores sha256 r saveDir listing inst
        (kvstores.map fun (k : ℕ) => ⟨k, digests k⟩) =
          .ok (kvstores.map fun (k : ℕ) => ((k : ℤ), files k))) ∧
    ((¬ ∀ k ∈ kvstores, exact k) → ∃ mismatch, checkKvstores sha256 r saveDir listing inst
        (kvstores.map fun (k : ℕ) => ⟨k, digests k⟩) = .error mismatch) := by
  induction kvstores with
  | nil => exact ⟨fun _ => rfl, fun hnot => absurd (by simp) hnot⟩
  | cons k kvstores ih =>
    obtain ⟨hk, hrest⟩ := List.forall_mem_cons.mp h
    obtain ⟨hok, herror⟩ := ih hrest
    rw [List.map_cons, checkKvstores]
    constructor
    · intro hall
      obtain ⟨hkexact, hall⟩ := List.forall_mem_cons.mp hall
      rw [hk.1 hkexact, hok hall]
      rfl
    · intro hnot
      by_cases hkexact : exact k
      · obtain ⟨mismatch, hmismatch⟩ := herror fun hall =>
          hnot (List.forall_mem_cons.mpr ⟨hkexact, hall⟩)
        rw [hk.1 hkexact, hmismatch]
        exact ⟨mismatch, rfl⟩
      · obtain ⟨mismatch, hmismatch⟩ := hk.2 hkexact
        rw [hmismatch]
        exact ⟨mismatch, rfl⟩

end Check

section Planned

/-- The kvstores of an instance; Tendis SSD has one chain, as if of kvstore 0. -/
def kvstoresOf (plus : Bool) (kvstoreCount : ℕ) : List ℕ :=
  if plus then List.range kvstoreCount else [0]

/-- The planned chain of one kvstore. -/
def chainOf (binlogFiles : List BinlogRecord) (kvstore : ℕ) : List BinlogRecord :=
  binlogFiles.filter fun b => b.kvstore = (kvstore : ℤ)

/-- The index under which a name is one of a kvstore's binlogs. -/
def localPosition (plus : Bool) (inst : InstanceRestore) (kvstore : ℤ) (name : String) : Option ℤ :=
  if plus then localKvstoreIndex inst kvstore name else localIndex inst name

/-- The actuator takes the name for a binlog of the instance, and its numbers fit in 64 bits. -/
structure Readable (plus : Bool) (inst : InstanceRestore) (b : BinlogRecord) : Prop where
  name : (instanceBinlog (if plus then 3 else 2) inst b.fileName).isSome = true
  kvstore : b.kvstore < 2 ^ 63
  index : b.index < 2 ^ 63

variable {sha256 : String → String} {plus : Bool} {files : List (String × ℤ)} {kvstoreCount : ℕ}
  {fullStart recoverAt : ℤ} {allow : Bool} {chain : List BinlogRecord} {inst : InstanceRestore}
  {b : BinlogRecord} {name s : String} {count : ℕ} {numbers : List String} {m : ℤ}

theorem isPyDigit_of_isDigit {c : Char} (h : c.isDigit = true) : isPyDigit c = true := by
  rw [isPyDigit, Py.digitValue_of_isDigit h]
  rfl

theorem withoutLineEnd_self (h : '\n' ∉ name.toList) : withoutLineEnd name = name := by
  rw [withoutLineEnd, if_neg]
  intro hlast
  exact h (List.mem_of_getLast? hlast)

/-- The planner's pattern reads the same of a name that the actuator takes. -/
theorem matchBinlogName_py (hcount : 0 < count)
    (h : instanceBinlog count inst name = some numbers) :
    ∃ ip port, matchBinlogName isPyDigit count (withoutLineEnd (baseName name)) =
      some (ip, port :: numbers) ∧ ∀ s ∈ numbers, isNumber Char.isDigit s = true := by
  obtain ⟨ip, port, hmatch⟩ := instanceBinlog_match h
  have hname := instanceBinlog_name h
  refine ⟨ip, port, ?_, ?_⟩
  · rw [baseName_self hname.slash, withoutLineEnd_self hname.newline]
    exact matchBinlogName_imp (fun c hc => isPyDigit_of_isDigit hc) (by decide) hcount hmatch
  · intro s hs
    exact matchBinlogName_numbers hmatch s (List.mem_cons_of_mem _ hs)

theorem parseInt_number {i : ℕ} (hdigits : ∀ s ∈ numbers, isNumber Char.isDigit s = true)
    (hint : Py.int (numbers.getD i "") = some m) (hm : m < 2 ^ 63) :
    parseInt (numbers.getD i "") = m := by
  have hempty : Py.int "" = none := by decide
  rw [List.getD_eq_getElem?_getD] at hint ⊢
  cases hs : numbers[i]? with
  | none =>
    rw [hs, Option.getD_none, hempty] at hint
    cases hint
  | some s =>
    rw [hs, Option.getD_some] at hint
    obtain ⟨hne, hdigit⟩ := isNumber_iff.mp (hdigits s (List.mem_of_getElem? hs))
    exact parseInt_of_int hne hdigit hint hm

/-- The actuator reads the planner's kvstore and index from the name of a readable binlog. -/
theorem localPosition_planned (hb : b ∈ binlogRecords plus files) (h : Readable plus inst b) :
    localPosition plus inst b.kvstore b.fileName = some b.index := by
  obtain ⟨numbers, hnumbers⟩ := Option.isSome_iff_exists.mp h.name
  obtain ⟨file, -, hposition⟩ := binlogRecords_spec hb
  cases plus with
  | true =>
    rw [if_pos rfl] at hposition hnumbers
    obtain ⟨ip, port, hmatch, hdigits⟩ := matchBinlogName_py (by decide) hnumbers
    rw [plusBinlogPosition, hmatch, Option.bind_some] at hposition
    obtain ⟨kvstore, hkvstore, hposition⟩ := Option.bind_eq_some_iff.mp hposition
    obtain ⟨index, hindex, hpair⟩ := Option.map_eq_some_iff.mp hposition
    obtain ⟨rfl, rfl⟩ := Prod.mk.inj hpair
    rw [List.getD_cons_succ] at hkvstore hindex
    rw [localPosition, if_pos rfl, localKvstoreIndex, hnumbers, Option.bind_some,
      if_pos (parseInt_number hdigits hkvstore h.kvstore), parseInt_number hdigits hindex h.index]
  | false =>
    rw [if_neg Bool.false_ne_true] at hposition hnumbers
    obtain ⟨ip, port, hmatch, hdigits⟩ := matchBinlogName_py (by decide) hnumbers
    have hindex := hposition.2
    rw [binlogIndex, hmatch, Option.bind_some, List.getD_cons_succ] at hindex
    rw [localPosition, if_neg Bool.false_ne_true, localIndex, hnumbers, Option.map_some,
      parseInt_number hdigits hindex h.index]

theorem localPosition_name {kvstore index : ℤ}
    (h : localPosition plus inst kvstore name = some index) : IsBinlogName name := by
  unfold localPosition at h
  split at h
  · exact localKvstoreIndex_name h
  · exact localIndex_name h

/-- A planned chain of a kvstore is not empty and in index order, and it was found for that
kvstore. -/
structure PlannedChain (plus : Bool) (files : List (String × ℤ)) (kvstore : ℕ)
    (chain : List BinlogRecord) : Prop where
  ne : chain ≠ []
  subset : chain ⊆ binlogRecords plus files
  kvstore : ∀ b ∈ chain, b.kvstore = (kvstore : ℤ)
  sorted : (chain.map BinlogRecord.index).Pairwise (· < ·)

theorem plannedBinlogs_plus (h : plannedBinlogs true (binlogRecords true files) kvstoreCount
    fullStart recoverAt allow = some chain) :
    kvstoreBinlogs chain = (List.range kvstoreCount).map (fun (k : ℕ) => ((k : ℤ), chainOf chain k)) ∧
      ∀ k < kvstoreCount, PlannedChain true files k (chainOf chain k) := by
  unfold plannedBinlogs at h
  rw [if_pos rfl] at h
  split at h
  · rename_i chain' gaps hselect
    obtain rfl := Option.some_inj.mp h
    obtain ⟨chains, rfl, hchains⟩ := selectKvstoreChains_spec hselect
    have hplanned : ∀ k < kvstoreCount, PlannedChain true files k (chains k) := by
      intro k hk
      obtain ⟨gaps, hgaps⟩ := hchains k hk
      obtain ⟨hsubset, hlength, hsorted⟩ := selectBinlogChain_spec hgaps
      refine ⟨?_, fun b hb => List.mem_of_mem_filter (hsubset hb), ?_, hsorted⟩
      · intro hnil
        rw [hnil] at hlength
        exact absurd hlength (by decide)
      · intro b hb
        simpa using List.of_mem_filter (hsubset hb)
    have hfilter : ∀ k < kvstoreCount,
        chainOf ((List.range kvstoreCount).flatMap chains) k = chains k :=
      fun k hk => filter_chains (fun j hj => (hplanned j hj).kvstore) hk
    constructor
    · rw [kvstoreBinlogs_chains (fun k hk => (hplanned k hk).kvstore)
        (fun k hk => (hplanned k hk).ne) fun k hk => (hplanned k hk).sorted]
      apply List.map_congr_left
      intro k hk
      rw [hfilter k (List.mem_range.mp hk)]
    · intro k hk
      rw [hfilter k hk]
      exact hplanned k hk
  · cases h

theorem plannedBinlogs_ssd (h : plannedBinlogs false (binlogRecords false files) kvstoreCount
    fullStart recoverAt allow = some chain) :
    chainOf chain 0 = chain ∧ PlannedChain false files 0 chain := by
  unfold plannedBinlogs at h
  rw [if_neg Bool.false_ne_true] at h
  split at h
  · rename_i chain' gaps hselect
    obtain rfl := Option.some_inj.mp h
    obtain ⟨hsubset, hlength, hsorted⟩ := selectBinlogChain_spec hselect
    have hkvstore : ∀ b ∈ chain', b.kvstore = ((0 : ℕ) : ℤ) := by
      intro b hb
      obtain ⟨file, -, hposition⟩ := binlogRecords_spec (hsubset hb)
      rw [if_neg Bool.false_ne_true] at hposition
      exact hposition.1
    refine ⟨?_, ?_, hsubset, hkvstore, hsorted⟩
    · exact List.filter_eq_self.mpr fun b hb => by simpa using hkvstore b hb
    · rintro rfl
      exact absurd hlength (by decide)
  · cases h

/-- One planned chain against the directory. -/
theorem checkChain_planned {r : RangeOrder LocalBinlog} {saveDir : String} {listing : List String}
    {kvstore : ℕ} (hplanned : PlannedChain plus files kvstore chain)
    (hreadable : ∀ b ∈ chain, Readable plus inst b)
    (hlisting : ∀ name ∈ listing, '/' ∉ name.toList) (hnodup : listing.Nodup)
    (hone : OneToOneAt sha256 (chainNames chain)) :
    (HoldsExactly listing (localPosition plus inst kvstore)
        (binlogPayload sha256 chain).binlogRange chain →
      checkChain sha256 r (foundBinlogs saveDir listing (localPosition plus inst kvstore))
        (binlogPayload sha256 chain) = .ok (localPaths saveDir chain)) ∧
    (¬ HoldsExactly listing (localPosition plus inst kvstore)
        (binlogPayload sha256 chain).binlogRange chain →
      ∃ mismatch, checkChain sha256 r
        (foundBinlogs saveDir listing (localPosition plus inst kvstore))
        (binlogPayload sha256 chain) = .error mismatch) := by
  apply checkChain_spec (fun name i hi => localPosition_name hi) hlisting hnodup hplanned.ne _
    hplanned.sorted hone
  intro b hb
  rw [← hplanned.kvstore b hb]
  exact localPosition_planned (hplanned.subset hb) (hreadable b hb)

theorem localChains_cases {r : RangeOrder LocalBinlog} {saveDir : String} {listing : List String}
    {sourceIp : String} {sourcePort : ℤ}
    (hplan : plannedBinlogs plus (binlogRecords plus files) kvstoreCount fullStart recoverAt allow =
      some chain)
    (hreadable : ∀ b ∈ chain, Readable plus (actuatorInstance sha256 plus sourceIp sourcePort chain) b)
    (hlisting : ∀ name ∈ listing, '/' ∉ name.toList) (hnodup : listing.Nodup)
    (hone : ∀ k ∈ kvstoresOf plus kvstoreCount, OneToOneAt sha256 (chainNames (chainOf chain k))) :
    let inst := actuatorInstance sha256 plus sourceIp sourcePort chain
    let exact := ∀ k ∈ kvstoresOf plus kvstoreCount,
      HoldsExactly listing (localPosition plus inst k)
        (binlogPayload sha256 (chainOf chain k)).binlogRange (chainOf chain k)
    (exact → localChains sha256 r plus saveDir listing inst =
      .ok ((kvstoresOf plus kvstoreCount).map fun (k : ℕ) =>
        ((k : ℤ), localPaths saveDir (chainOf chain k)))) ∧
    (¬ exact → ∃ mismatch, localChains sha256 r plus saveDir listing inst = .error mismatch) := by
  intro inst exact
  cases plus with
  | true =>
    obtain ⟨hkvstores, hplanned⟩ := plannedBinlogs_plus hplan
    have hpayload : inst.kvstoreBinlogs = (List.range kvstoreCount).map fun (k : ℕ) =>
        ⟨k, binlogPayload sha256 (chainOf chain k)⟩ := by
      show (kvstoreBinlogs chain).map (fun p => (⟨p.1, binlogPayload sha256 p.2⟩ : KvstoreBinlog)) = _
      rw [hkvstores, List.map_map]
      rfl
    show (_ → localKvstoreBinlogs sha256 r saveDir listing inst = _) ∧
      (_ → ∃ mismatch, localKvstoreBinlogs sha256 r saveDir listing inst = _)
    rw [localKvstoreBinlogs, hpayload]
    apply checkKvstores_spec
    intro k hk
    exact checkChain_planned (hplanned k (List.mem_range.mp hk))
      (fun b hb => hreadable b (List.mem_of_mem_filter hb)) hlisting hnodup (hone k hk)
  | false =>
    obtain ⟨hall, hplanned⟩ := plannedBinlogs_ssd hplan
    have hone := hone 0 List.mem_cons_self
    rw [hall] at hone
    have hcheck := @checkChain_planned sha256 false files chain inst r saveDir listing 0 hplanned
      hreadable hlisting hnodup hone
    have hcount : inst.binlogs.binlogCount ≠ 0 := by
      intro hzero
      exact hplanned.ne (List.eq_nil_of_length_eq_zero hzero)
    have hlocal : localChains sha256 r false saveDir listing inst =
        (checkChain sha256 r (foundBinlogs saveDir listing (localPosition false inst (0 : ℕ)))
          (binlogPayload sha256 chain)).map fun files => [(0, files)] := by
      show (localBinlogs sha256 r saveDir listing inst).map _ = _
      rw [localBinlogs, if_neg hcount]
      rfl
    have hexact : exact ↔ HoldsExactly listing (localPosition false inst (0 : ℕ))
        (binlogPayload sha256 chain).binlogRange chain := by
      show (∀ k ∈ [0], _) ↔ _
      rw [List.forall_mem_singleton, hall]
    rw [hlocal, hexact]
    constructor
    · intro h
      rw [hcheck.1 h]
      show _ = Except.ok [(_, localPaths saveDir (chainOf chain 0))]
      rw [hall]
      rfl
    · intro h
      obtain ⟨mismatch, hmismatch⟩ := hcheck.2 h
      rw [hmismatch]
      exact ⟨mismatch, rfl⟩

/-- The planned names, read back from the planned paths, have the planner's fingerprint. -/
theorem localFingerprint_planned {saveDir : String} {k : ℕ}
    (hplan : plannedBinlogs plus (binlogRecords plus files) kvstoreCount fullStart recoverAt allow =
      some chain) (hreadable : ∀ b ∈ chain, Readable plus inst b)
    (hk : k ∈ kvstoresOf plus kvstoreCount) :
    localFingerprint sha256 ((localPaths saveDir (chainOf chain k)).map baseName) =
      (binlogPayload sha256 (chainOf chain k)).binlogFingerprint := by
  have hslash : ∀ b ∈ chainOf chain k, '/' ∉ b.fileName.toList := by
    intro b hb
    obtain ⟨numbers, hnumbers⟩ :=
      Option.isSome_iff_exists.mp (hreadable b (List.mem_of_mem_filter hb)).name
    exact (instanceBinlog_name hnumbers).slash
  have hne : chainOf chain k ≠ [] := by
    cases plus with
    | true => exact ((plannedBinlogs_plus hplan).2 k (List.mem_range.mp hk)).ne
    | false =>
      obtain ⟨hall, hplanned⟩ := plannedBinlogs_ssd hplan
      obtain rfl := List.mem_singleton.mp hk
      rw [hall]
      exact hplanned.ne
  rw [baseName_localPaths hslash, binlogPayload, if_neg hne, binlogFingerprint_eq hslash]

end Planned

/-- The actuator accepts a directory exactly when, of each kvstore, the port's binlogs within the
planned range are the planned ones; it then gives their paths in the planned order, under the
planner's fingerprint. -/
theorem localChains_planned (sha256 : String → String) (r : RangeOrder LocalBinlog) (plus : Bool)
    (files : List (String × ℤ)) (kvstoreCount : ℕ) (fullStart recoverAt : ℤ) (allow : Bool)
    (chain : List BinlogRecord) (sourceIp : String) (sourcePort : ℤ) (saveDir : String)
    (listing : List String)
    (hplan : plannedBinlogs plus (binlogRecords plus files) kvstoreCount fullStart recoverAt allow =
      some chain)
    (hreadable : ∀ b ∈ chain, Readable plus (actuatorInstance sha256 plus sourceIp sourcePort chain) b)
    (hlisting : ∀ name ∈ listing, '/' ∉ name.toList) (hnodup : listing.Nodup)
    (hone : ∀ k ∈ kvstoresOf plus kvstoreCount, OneToOneAt sha256 (chainNames (chainOf chain k))) :
    let inst := actuatorInstance sha256 plus sourceIp sourcePort chain
    let exact := ∀ k ∈ kvstoresOf plus kvstoreCount,
      HoldsExactly listing (localPosition plus inst k)
        (binlogPayload sha256 (chainOf chain k)).binlogRange (chainOf chain k)
    (exact → localChains sha256 r plus saveDir listing inst =
      .ok ((kvstoresOf plus kvstoreCount).map fun (k : ℕ) =>
        ((k : ℤ), localPaths saveDir (chainOf chain k)))) ∧
    (¬ exact → ∃ mismatch, localChains sha256 r plus saveDir listing inst = .error mismatch) ∧
    ∀ k ∈ kvstoresOf plus kvstoreCount,
      localFingerprint sha256 ((localPaths saveDir (chainOf chain k)).map baseName) =
        (binlogPayload sha256 (chainOf chain k)).binlogFingerprint := by
  intro inst exact
  obtain ⟨haccept, hrefuse⟩ :=
    @localChains_cases sha256 plus files kvstoreCount fullStart recoverAt allow chain r saveDir
      listing sourceIp sourcePort hplan hreadable hlisting hnodup hone
  exact ⟨haccept, hrefuse, fun k hk => localFingerprint_planned hplan hreadable hk⟩

/-- Two records in a row, begun at the full backup and at the target, pass the gate. -/
private theorem selectBinlogChain_pair {a b : BinlogRecord} (hname : a.fileName ≠ b.fileName)
    (htime : a.beginTime < b.beginTime) (hindex : b.index = a.index + 1) :
    selectBinlogChain [a, b] a.beginTime b.beginTime false = .ok ([a, b], none) := by
  have hindexes : a.index < b.index := by omega
  have hunique : uniqueByName [a, b] = [a, b] := by simp [uniqueByName, hname]
  have hsort : [a, b].mergeSort binlogLe = [a, b] := by
    apply List.mergeSort_of_pairwise
    simp [binlogLe, hindexes]
  have hmissing : missingIndexes [a, b] = [] := by
    simp only [missingIndexes, List.head?_cons, List.getLast?_cons_cons, List.getLast?_singleton]
    apply List.filter_eq_nil_iff.mpr
    intro index hmem
    obtain ⟨n, hn, rfl⟩ := List.mem_map.mp hmem
    have hn := List.mem_range.mp hn
    simp only [List.map_cons, List.map_nil, List.mem_cons, List.not_mem_nil, or_false,
      decide_eq_true_eq, not_not, Int.ofNat_eq_natCast]
    omega
  have hheads : [a, b].filter (fun x => x.beginTime ≤ a.beginTime) = [a] := by
    simp [htime]
  have htails : [a, b].filter (fun x => b.beginTime ≤ x.beginTime) = [b] := by
    simp [htime]
  have hchain : [a, b].filter (fun x => a.beginTime ≤ x.beginTime ∧ x.beginTime ≤ b.beginTime) =
      [a, b] := by
    simp [Int.le_of_lt htime]
  unfold selectBinlogChain
  dsimp only
  rw [hunique, hheads, htails]
  simp only [List.map_cons, List.map_nil, List.max?_singleton, List.min?_singleton]
  rw [hchain, hsort, if_neg (by simp), if_neg (by simp [Int.ne_of_lt hindexes]), if_pos hmissing]

private def sampleTime : String := "20240101000000.log.zst"

/-- A binlog of port 30000 with the index as it is written. -/
private def sampleName (index : String) : String :=
  "-".intercalate ["binlog", "10.0.0.1", "30000", index, sampleTime]

private def sampleInstance (chain : List BinlogRecord) : InstanceRestore :=
  actuatorInstance id false "10.0.0.1" 30000 chain

section Samples

variable {digit : Char → Bool} {s first last : String} {index beginTime : ℤ} {n : ℕ}
  {inst : InstanceRestore} {plan : List BinlogRecord}

private theorem matchBinlogName_sample (himp : ∀ c, c.isDigit = true → digit c = true)
    (hs : '-' ∉ s.toList) : matchBinlogName digit 2 (sampleName s) =
      if isNumber digit s then some ("10.0.0.1", ["30000", s]) else none := by
  have hip : isIp digit "10.0.0.1" = true := isIp_imp himp (by decide +kernel)
  have hport : isNumber digit "30000" = true := isNumber_imp himp (by decide +kernel)
  have htime : isTimeAndSuffix digit sampleTime = true :=
    isTimeAndSuffix_imp himp (by decide +kernel)
  have hsplit : Text.split (sampleName s) '-' = ["binlog", "10.0.0.1", "30000", s, sampleTime] := by
    apply Text.split_intercalate rfl (List.cons_ne_nil _ _)
    simp only [List.forall_mem_cons]
    exact ⟨by decide, by decide, by decide, hs, by decide, List.forall_mem_nil _⟩
  rw [matchBinlogName, hsplit]
  simp [hip, matchFields, hport, htime]

private theorem sampleName_injective {s' : String} (hs : '-' ∉ s.toList) (hs' : '-' ∉ s'.toList)
    (hne : s ≠ s') : sampleName s ≠ sampleName s' := by
  intro h
  have hlist := congrArg String.toList h
  simp only [sampleName, String.toList_intercalate, List.map_cons, List.map_nil,
    List.intercalate_cons_cons, List.append_assoc, List.intercalate_singleton] at hlist
  have hcut := List.append_cancel_left (List.append_cancel_left (List.append_cancel_left
    (List.append_cancel_left (List.append_cancel_left (List.append_cancel_left hlist)))))
  exact hne (String.toList_injective (Text.cut_front hs hs' hcut).1)

private theorem dash_repr (n : ℕ) : '-' ∉ n.repr.toList := Text.repr_no_sign n

private theorem isNumber_repr (himp : ∀ c, c.isDigit = true → digit c = true) (n : ℕ) :
    isNumber digit n.repr = true := by
  refine isNumber_iff.mpr ⟨?_, fun c hc => himp c (Text.repr_isDigit hc)⟩
  intro hempty
  exact Text.repr_ne_nil n (congrArg String.toList hempty)

/-- What the planner records of a file whose number it can read. -/
private theorem binlogRecord_sample (hs : '-' ∉ s.toList) (hnumber : isNumber isPyDigit s = true)
    (hindex : Py.int s = some index) :
    binlogRecord false (sampleName s) beginTime = some ⟨sampleName s, beginTime, 0, index⟩ := by
  have hmatch := @matchBinlogName_sample isPyDigit s (fun c hc => isPyDigit_of_isDigit hc) hs
  rw [if_pos hnumber] at hmatch
  have hnewline : '\n' ∉ (sampleName s).toList :=
    matchBinlogName_chars (by decide) (by decide) hmatch
  have hslash : '/' ∉ (sampleName s).toList :=
    matchBinlogName_chars (by decide) (by decide) hmatch
  have hread : binlogIndex (sampleName s) = some index := by
    rw [binlogIndex, baseName_self hslash, withoutLineEnd_self hnewline, hmatch, Option.bind_some,
      List.getD_cons_succ, List.getD_cons_zero, hindex]
  rw [binlogRecord, if_neg Bool.false_ne_true, baseName_self hslash, hread, Option.map_some]

private theorem instanceBinlog_sample (hs : '-' ∉ s.toList) :
    instanceBinlog 2 (sampleInstance plan) (sampleName s) =
      if isNumber Char.isDigit s then some [s] else none := by
  rw [instanceBinlog, matchBinlogName_sample (fun c hc => hc) hs]
  have hport : Text.decimal 30000 = "30000" := by decide
  cases isNumber Char.isDigit s with
  | true => simp [sampleInstance, actuatorInstance, hport]
  | false => rfl

private theorem localIndex_repr (n : ℕ) : localIndex (sampleInstance plan) (sampleName n.repr) =
    some (parseInt n.repr) := by
  rw [localIndex, instanceBinlog_sample (dash_repr n), if_pos (isNumber_repr (fun c hc => hc) n)]
  rfl

private theorem parseInt_repr (n : ℕ) :
    parseInt n.repr = if n < 2 ^ 63 then (n : ℤ) else 2 ^ 63 - 1 := by
  rw [parseInt, atoi_repr]
  split <;> rfl

/-- A plan of two binlogs. -/
private def samplePlan (first last : String) (index : ℤ) : List BinlogRecord :=
  [⟨sampleName first, 0, 0, index⟩, ⟨sampleName last, 10, 0, index + 1⟩]

private theorem chainOf_sample : chainOf (samplePlan first last index) 0 =
    samplePlan first last index := by
  simp [chainOf, samplePlan]

private theorem plannedBinlogs_sample (hne : first ≠ last)
    (hfirst : '-' ∉ first.toList ∧ isNumber isPyDigit first = true ∧ Py.int first = some index)
    (hlast : '-' ∉ last.toList ∧ isNumber isPyDigit last = true ∧
      Py.int last = some (index + 1)) :
    plannedBinlogs false (binlogRecords false [(sampleName first, 0), (sampleName last, 10)]) 0 0 10
      false = some (samplePlan first last index) := by
  have hselect := @selectBinlogChain_pair ⟨sampleName first, 0, 0, index⟩
    ⟨sampleName last, 10, 0, index + 1⟩ (sampleName_injective hfirst.1 hlast.1 hne)
    (show (0 : ℤ) < 10 by decide) rfl
  have hrecords : binlogRecords false [(sampleName first, 0), (sampleName last, 10)] =
      samplePlan first last index := by
    simp only [binlogRecords, List.filterMap_cons, List.filterMap_nil,
      binlogRecord_sample hfirst.1 hfirst.2.1 hfirst.2.2,
      binlogRecord_sample hlast.1 hlast.2.1 hlast.2.2]
    rfl
  rw [plannedBinlogs, if_neg Bool.false_ne_true, hrecords, samplePlan, hselect]

private theorem plannedBinlogs_repr (h : n.repr.toList.length ≤ Py.maxDigits)
    (h' : (n + 1).repr.toList.length ≤ Py.maxDigits) :
    plannedBinlogs false (binlogRecords false
      [(sampleName n.repr, 0), (sampleName (n + 1).repr, 10)]) 0 0 10 false =
        some (samplePlan n.repr (n + 1).repr n) := by
  apply plannedBinlogs_sample
  · intro heq
    exact absurd (Text.repr_injective heq) (Nat.ne_of_lt (Nat.lt_succ_self n))
  · exact ⟨dash_repr n, isNumber_repr (fun c hc => isPyDigit_of_isDigit hc) n, Py.int_repr h⟩
  · exact ⟨dash_repr (n + 1), isNumber_repr (fun c hc => isPyDigit_of_isDigit hc) (n + 1),
      Py.int_repr h'⟩

end Samples

/-- Binlogs 7 and 8. -/
private def sampleChain : List BinlogRecord := samplePlan (7 : ℕ).repr (8 : ℕ).repr 7

private theorem plannedBinlogs_sampleChain :
    plannedBinlogs false (binlogRecords false
      [(sampleName (7 : ℕ).repr, 0), (sampleName (8 : ℕ).repr, 10)]) 0 0 10 false =
        some sampleChain :=
  @plannedBinlogs_repr 7 (by decide) (by decide)

private theorem readable_sample {b : BinlogRecord} (hb : b ∈ sampleChain) :
    Readable false (sampleInstance sampleChain) b := by
  have hname : ∀ n : ℕ, (instanceBinlog 2 (sampleInstance sampleChain)
      (sampleName n.repr)).isSome = true := by
    intro n
    rw [instanceBinlog_sample (dash_repr n), if_pos (isNumber_repr (fun c hc => hc) n)]
    rfl
  rcases List.mem_pair.mp hb with rfl | rfl
  · exact ⟨hname 7, by decide, by decide⟩
  · exact ⟨hname 8, by decide, by decide⟩

/-- Binlogs on disk. -/
private def sampleListing (indexes : List ℕ) : List String :=
  indexes.map fun n => sampleName n.repr

private theorem slash_sample (indexes : List ℕ) :
    ∀ name ∈ sampleListing indexes, '/' ∉ name.toList := by
  intro name hname
  obtain ⟨n, -, rfl⟩ := List.mem_map.mp hname
  exact (localIndex_name (@localIndex_repr [] n)).slash

private theorem nodup_sample {indexes : List ℕ} (h : indexes.Nodup) :
    (sampleListing indexes).Nodup := by
  refine List.pairwise_map.mpr (h.imp ?_)
  intro m n hne
  exact sampleName_injective (dash_repr m) (dash_repr n) fun heq => hne (Text.repr_injective heq)

/-- Of binlogs 7, 8 and maybe 9, those in the range of the plan are 7 and 8. -/
private theorem holdsExactly_sample {indexes : List ℕ} (h7 : 7 ∈ indexes) (h8 : 8 ∈ indexes)
    (hindexes : ∀ n ∈ indexes, 7 ≤ n ∧ n ≤ 9) : ∀ k ∈ kvstoresOf false 0,
      HoldsExactly (sampleListing indexes) (localPosition false (sampleInstance sampleChain) k)
        (binlogPayload id (chainOf sampleChain k)).binlogRange (chainOf sampleChain k) := by
  intro k hk
  obtain rfl := List.mem_singleton.mp hk
  have hchain : chainOf sampleChain 0 = sampleChain := chainOf_sample
  have hindex : ∀ n : ℕ, 7 ≤ n → n ≤ 9 →
      localPosition false (sampleInstance sampleChain) (0 : ℕ) (sampleName n.repr) =
        some (n : ℤ) := by
    intro n hlow hhigh
    have hfits : n < 2 ^ 63 := by omega
    rw [localPosition, if_neg Bool.false_ne_true, localIndex_repr, parseInt_repr, if_pos hfits]
  rw [hchain]
  intro name
  constructor
  · rintro ⟨hname, i, hi, hlow, hhigh⟩
    obtain ⟨n, hn, rfl⟩ := List.mem_map.mp hname
    obtain ⟨hn7, hn9⟩ := hindexes n hn
    obtain rfl := Option.some_inj.mp (hi.symm.trans (hindex n hn7 hn9))
    have hhigh : (n : ℤ) ≤ 7 + 1 := hhigh
    rcases (show n = 7 ∨ n = 8 by omega) with rfl | rfl
    · exact List.mem_cons_self
    · exact List.mem_cons_of_mem _ List.mem_cons_self
  · intro hname
    rcases List.mem_pair.mp hname with rfl | rfl
    · exact ⟨List.mem_map.mpr ⟨7, h7, rfl⟩, 7, hindex 7 (by omega) (by omega),
        show (7 : ℤ) ≤ 7 by omega, show (7 : ℤ) ≤ 7 + 1 by omega⟩
    · exact ⟨List.mem_map.mpr ⟨8, h8, rfl⟩, 8, hindex 8 (by omega) (by omega),
        show (7 : ℤ) ≤ 8 by omega, show (8 : ℤ) ≤ 7 + 1 by omega⟩

private theorem oneToOneAt_id (body : String) : OneToOneAt id body := fun _ h => h

private theorem kvstoresOf_sample :
    ((kvstoresOf false 0).map fun (k : ℕ) => ((k : ℤ), localPaths "/data" (chainOf sampleChain k))) =
      [(0, localPaths "/data" sampleChain)] := by
  have hchain : chainOf sampleChain 0 = sampleChain := chainOf_sample
  rw [kvstoresOf, if_neg Bool.false_ne_true, List.map_singleton, hchain]
  rfl

theorem localChains_planned_pair :
    localChains id .still false "/data" (sampleListing [8, 7]) (sampleInstance sampleChain) =
      .ok [(0, localPaths "/data" sampleChain)] := by
  obtain ⟨haccept, -⟩ := localChains_planned id .still false
    [(sampleName (7 : ℕ).repr, 0), (sampleName (8 : ℕ).repr, 10)] 0 0 10 false sampleChain "10.0.0.1"
    30000 "/data" (sampleListing [8, 7]) plannedBinlogs_sampleChain (fun _ => readable_sample)
    (slash_sample [8, 7]) (nodup_sample (by decide)) fun _ _ => oneToOneAt_id _
  rw [← kvstoresOf_sample]
  exact haccept (holdsExactly_sample (by decide) (by decide) (by decide))

/-- Nothing in the range is refused. -/
private theorem checkChain_nothing {found : List LocalBinlog} {d : BinlogPayload}
    (hfound : found.filter (fun b => d.binlogRange.firstIndex ≤ b.index ∧
      b.index ≤ d.binlogRange.lastIndex) = []) (hcount : d.binlogCount ≠ 0) :
    ∃ mismatch, checkChain id .still found d = .error mismatch := by
  unfold checkChain
  dsimp only
  rw [hfound, if_neg]
  · exact ⟨_, rfl⟩
  · rintro ⟨hlength, -⟩
    rw [(@RangeOrder.perm_sortSlice LocalBinlog .still [] localLess).length_eq] at hlength
    exact hcount hlength.symm

private theorem localChains_nothing {first last : String} {index : ℤ}
    (hslash : ∀ name ∈ [sampleName first, sampleName last], '/' ∉ name.toList)
    (hfound : ∀ name ∈ [sampleName first, sampleName last],
      ∀ i ∈ localIndex (sampleInstance (samplePlan first last index)) name, i < index) :
    ∃ mismatch, localChains id .still false "/data" [sampleName first, sampleName last]
      (sampleInstance (samplePlan first last index)) = .error mismatch := by
  have hcount : (sampleInstance (samplePlan first last index)).binlogs.binlogCount ≠ 0 :=
    Nat.succ_ne_zero 1
  have hnone : (foundBinlogs "/data" [sampleName first, sampleName last]
      (localIndex (sampleInstance (samplePlan first last index)))).filter
        (fun b => index ≤ b.index ∧ b.index ≤ index + 1) = [] := by
    apply List.filter_eq_nil_iff.mpr
    intro b hb
    obtain ⟨name, hname, i, hi, rfl⟩ :=
      (mem_foundBinlogs (fun _ _ h => localIndex_name h) hslash).mp hb
    have hlow := hfound name hname i hi
    simp only [decide_eq_true_eq]
    omega
  obtain ⟨mismatch, hmismatch⟩ := checkChain_nothing hnone hcount
  refine ⟨mismatch, ?_⟩
  rw [localChains, if_neg Bool.false_ne_true, localBinlogs, if_neg hcount, hmismatch]
  rfl

/-- A later binlog of the port does not count; digits that only the planner reads and numbers
beyond 64 bits are refused although the directory holds just what was planned. -/
theorem localChains_not_exact :
    (plannedBinlogs false (binlogRecords false
        [(sampleName (7 : ℕ).repr, 0), (sampleName (8 : ℕ).repr, 10)]) 0 0 10 false =
          some sampleChain ∧
      localIndex (sampleInstance sampleChain) (sampleName (9 : ℕ).repr) = some 9 ∧
      localChains id .still false "/data" (sampleListing [7, 8, 9]) (sampleInstance sampleChain) =
        .ok [(0, localPaths "/data" sampleChain)]) ∧
    (plannedBinlogs false (binlogRecords false [(sampleName "٧", 0), (sampleName "٨", 10)]) 0 0 10
        false = some (samplePlan "٧" "٨" 7) ∧
      ∃ mismatch, localChains id .still false "/data" [sampleName "٧", sampleName "٨"]
        (sampleInstance (samplePlan "٧" "٨" 7)) = .error mismatch) ∧
    (plannedBinlogs false (binlogRecords false
        [(sampleName (2 ^ 63).repr, 0), (sampleName (2 ^ 63 + 1).repr, 10)]) 0 0 10 false =
          some (samplePlan (2 ^ 63).repr (2 ^ 63 + 1).repr (2 ^ 63 : ℕ)) ∧
      ∃ mismatch, localChains id .still false "/data"
        [sampleName (2 ^ 63).repr, sampleName (2 ^ 63 + 1).repr]
        (sampleInstance (samplePlan (2 ^ 63).repr (2 ^ 63 + 1).repr (2 ^ 63 : ℕ))) =
          .error mismatch) := by
  refine ⟨⟨plannedBinlogs_sampleChain, ?_, ?_⟩, ⟨?_, ?_⟩, ?_, ?_⟩
  · rw [localIndex_repr, parseInt_repr]
    rfl
  · rw [← kvstoresOf_sample]
    exact (localChains_cases plannedBinlogs_sampleChain (fun _ => readable_sample)
      (slash_sample [7, 8, 9]) (nodup_sample (by decide)) fun _ _ => oneToOneAt_id _).1
      (holdsExactly_sample (by decide) (by decide) (by decide))
  · exact plannedBinlogs_sample (by decide) ⟨by decide, by decide +kernel, by decide +kernel⟩
      ⟨by decide, by decide +kernel, by decide +kernel⟩
  · apply localChains_nothing
    · intro name hname
      have hmatch : ∀ s : String, '-' ∉ s.toList → isNumber isPyDigit s = true →
          '/' ∉ (sampleName s).toList := by
        intro s hs hnumber
        have hmatch := @matchBinlogName_sample isPyDigit s (fun c hc => isPyDigit_of_isDigit hc) hs
        rw [if_pos hnumber] at hmatch
        exact matchBinlogName_chars (by decide) (by decide) hmatch
      rcases List.mem_pair.mp hname with rfl | rfl
      · exact hmatch "٧" (by decide) (by decide +kernel)
      · exact hmatch "٨" (by decide) (by decide +kernel)
    · intro name hname i hi
      rcases List.mem_pair.mp hname with rfl | rfl
      · rw [localIndex, instanceBinlog_sample (by decide), if_neg (by decide)] at hi
        cases hi
      · rw [localIndex, instanceBinlog_sample (by decide), if_neg (by decide)] at hi
        cases hi
  · exact plannedBinlogs_repr (by decide +kernel) (by decide +kernel)
  · apply localChains_nothing (slash_sample [2 ^ 63, 2 ^ 63 + 1])
    intro name hname i hi
    rcases List.mem_pair.mp hname with rfl | rfl
    · rw [localIndex_repr, parseInt_repr, if_neg (Nat.lt_irrefl _)] at hi
      obtain rfl := Option.some_inj.mp hi
      omega
    · rw [localIndex_repr, parseInt_repr, if_neg (Nat.not_lt.mpr (Nat.le_succ _))] at hi
      obtain rfl := Option.some_inj.mp hi
      omega

end Rollback
