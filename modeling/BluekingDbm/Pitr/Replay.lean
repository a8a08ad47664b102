import BluekingDbm.Pitr.Recover
import Mathlib.Data.List.Chain
import Mathlib.Data.List.Nodup

/-! What a point-in-time restore replays: the full backup, then the incrementals below a limit. -/
namespace Pitr

variable {Op : Type*} (ts : Op → TS) (r : RangeOrder BackupFileName)

instance : LT TS := ⟨fun a b => a.sec < b.sec ∨ a.sec = b.sec ∧ a.i < b.i⟩

instance : LE TS := ⟨fun a b => a.sec < b.sec ∨ a.sec = b.sec ∧ a.i ≤ b.i⟩

theorem TS.lt_iff {a b : TS} : a < b ↔ a.sec < b.sec ∨ a.sec = b.sec ∧ a.i < b.i := Iff.rfl

theorem TS.le_iff {a b : TS} : a ≤ b ↔ a.sec < b.sec ∨ a.sec = b.sec ∧ a.i ≤ b.i := Iff.rfl

instance (a b : TS) : Decidable (a < b) := decidable_of_iff _ TS.lt_iff.symm

instance (a b : TS) : Decidable (a ≤ b) := decidable_of_iff _ TS.le_iff.symm

/-- The query of an incremental dump, from the end of the last backup on. -/
def dumpIncr (oplog : List Op) (lastTs maxTs : TS) : List Op :=
  oplog.filter fun op => lastTs ≤ ts op ∧ ts op ≤ maxTs

/-- A backup file and what it holds. Its end is the timestamp of its last operation, of which a
file name keeps the second. -/
structure Backup (Op : Type*) where
  file : BackupFileName
  lastTs : TS
  ops : List Op
  second : file.lastTs.sec = lastTs.sec
  positive : 0 < lastTs.sec

/-- What `--oplogLimit` is set to; mongorestore replays what lies before it. -/
def oplogLimit (recoverTime : ℕ) : Option TS :=
  if 0 < recoverTime then some ⟨recoverTime, 999⟩ else none

def doReplayOplog (recoverTime : ℕ) (ops : List Op) : List Op :=
  match oplogLimit recoverTime with
  | some limit => ops.filter fun op => ts op < limit
  | none => ops

/-- The operations in the order in which they are restored. -/
def doRecover (full : Backup Op) (incrList : List (Backup Op)) (recoverTime : ℕ) : List Op :=
  full.ops ++ incrList.flatMap fun incr => doReplayOplog ts recoverTime incr.ops

/-- One incremental after another backup. -/
structure Follows (oplog : List Op) (prev incr : Backup Op) : Prop where
  ops : incr.ops = dumpIncr ts oplog prev.lastTs incr.lastTs
  later : prev.lastTs ≤ incr.lastTs
  firstTs : incr.file.version = .v1 → incr.file.firstTs.sec = prev.lastTs.sec

/-- An oplog cut into a full backup and the incrementals after it. -/
structure Cut (oplog : List Op) (full : Backup Op) (chain : List (Backup Op)) : Prop where
  fullType : full.file.type = .full
  fullOps : full.ops = oplog.filter fun op => ts op ≤ full.lastTs
  incr : ∀ b ∈ chain, b.file.type = .incr ∧ b.file.version = full.file.version ∧
    b.file.v0FullStr = full.file.v0FullStr
  numbered : ∀ i, ∀ h : i < chain.length, chain[i].file.v0IncrSeq.toNat = i + 1
  names : ((full :: chain).map Backup.file).Nodup
  ends : ∀ b ∈ full :: chain, ∃ op ∈ oplog, ts op = b.lastTs
  follows : (full :: chain).IsChain (Follows ts oplog)
  covered : ∀ op ∈ oplog, ts op ≤ (chain.getLastD full).lastTs

/-- The restore to a second: every operation up to its end, but those with an ordinal from 999 on,
and none from the limit on. -/
def Exact (oplog : List Op) (recoverTime : ℕ) (restored : List Op) : Prop :=
  (∀ op ∈ oplog, (ts op).sec ≤ recoverTime → (ts op).i < 999 → op ∈ restored) ∧
    ∀ op ∈ restored, op ∈ oplog ∧ ts op < ⟨recoverTime, 999⟩

section Chain

variable {ts} {oplog : List Op} {prev full b : Backup Op} {chain incrs : List (Backup Op)} {op : Op}
  {recoverTime : ℕ}

theorem mem_dumpIncr {lastTs maxTs : TS} : op ∈ dumpIncr ts oplog lastTs maxTs ↔
    op ∈ oplog ∧ lastTs ≤ ts op ∧ ts op ≤ maxTs := by
  rw [dumpIncr, List.mem_filter, decide_eq_true_iff]

theorem Follows.mem (h : Follows ts oplog prev b) :
    op ∈ b.ops ↔ op ∈ oplog ∧ prev.lastTs ≤ ts op ∧ ts op ≤ b.lastTs := by
  rw [h.ops, mem_dumpIncr]

/-- Every operation of a chain lies before the chain's end. -/
theorem chain_le (h : (prev :: chain).IsChain (Follows ts oplog)) :
    prev.lastTs ≤ (chain.getLastD prev).lastTs ∧
      ∀ b ∈ chain, prev.lastTs ≤ b.lastTs ∧ b.lastTs ≤ (chain.getLastD prev).lastTs := by
  induction chain generalizing prev with
  | nil => exact ⟨Or.inr ⟨rfl, Nat.le_refl _⟩, by simp⟩
  | cons b chain ih =>
    obtain ⟨hfollows, hchain⟩ := List.isChain_cons_cons.mp h
    obtain ⟨hend, hrest⟩ := ih hchain
    have hlater := hfollows.later
    rw [List.getLastD_cons]
    simp only [TS.le_iff] at hlater hend hrest ⊢
    refine ⟨by omega, ?_⟩
    intro other hother
    rcases List.mem_cons.mp hother with rfl | hother
    · exact ⟨hlater, hend⟩
    · have hle := hrest other hother
      omega

/-- What lies between the start and the end of a chain is in one of its incrementals. -/
theorem chain_covers (h : (prev :: chain).IsChain (Follows ts oplog)) (hop : op ∈ oplog)
    (hstart : prev.lastTs < ts op) (hend : ts op ≤ (chain.getLastD prev).lastTs) :
    ∃ b ∈ chain, op ∈ b.ops := by
  induction chain generalizing prev with
  | nil =>
    simp only [List.getLastD_nil, TS.le_iff, TS.lt_iff] at hstart hend
    omega
  | cons b chain ih =>
    obtain ⟨hfollows, hchain⟩ := List.isChain_cons_cons.mp h
    by_cases hb : ts op ≤ b.lastTs
    · refine ⟨b, List.mem_cons_self, hfollows.mem.mpr ⟨hop, ?_, hb⟩⟩
      simp only [TS.le_iff, TS.lt_iff] at hstart ⊢
      omega
    · rw [List.getLastD_cons] at hend
      have hstart : b.lastTs < ts op := by
        simp only [TS.le_iff, TS.lt_iff] at hb ⊢
        omega
      obtain ⟨other, hother, hmem⟩ := ih hchain hstart hend
      exact ⟨other, List.mem_cons_of_mem _ hother, hmem⟩

/-- An incremental holds operations of the oplog, from its first timestamp to its end. -/
theorem chain_ops (h : (prev :: chain).IsChain (Follows ts oplog)) (hb : b ∈ chain)
    (hop : op ∈ b.ops) : op ∈ oplog ∧ ts op ≤ b.lastTs ∧
      (b.file.version = .v1 → b.file.firstTs.sec ≤ (ts op).sec) := by
  induction chain generalizing prev with
  | nil => cases hb
  | cons c chain ih =>
    obtain ⟨hfollows, hchain⟩ := List.isChain_cons_cons.mp h
    rcases List.mem_cons.mp hb with rfl | hb
    · obtain ⟨hoplog, hstart, hle⟩ := hfollows.mem.mp hop
      refine ⟨hoplog, hle, fun hversion => ?_⟩
      have hfirst := hfollows.firstTs hversion
      simp only [TS.le_iff] at hstart
      omega
    · exact ih hchain hb

theorem mem_doRecover (hpos : 0 < recoverTime) : op ∈ doRecover ts full incrs recoverTime ↔
    op ∈ full.ops ∨ ∃ b ∈ incrs, op ∈ b.ops ∧ ts op < ⟨recoverTime, 999⟩ := by
  simp [doRecover, doReplayOplog, oplogLimit, hpos]

/-- The backups restored are those of the chain whose files were found. -/
theorem mem_found {needed : List BackupFileName} (hnames : (chain.map Backup.file).Nodup)
    (hincrs : incrs ⊆ chain) (hneeded : incrs.map Backup.file = needed) :
    b ∈ incrs ↔ b ∈ chain ∧ b.file ∈ needed := by
  constructor
  · intro hb
    exact ⟨hincrs hb, hneeded ▸ List.mem_map_of_mem hb⟩
  · rintro ⟨hb, hfile⟩
    rw [← hneeded] at hfile
    obtain ⟨other, hother, heq⟩ := List.mem_map.mp hfile
    have hsame := List.inj_on_of_nodup_map hnames (hincrs hother) hb heq
    exact hsame ▸ hother

end Chain

namespace Cut

variable {ts} {oplog : List Op} {full b : Backup Op} {chain incrs : List (Backup Op)} {op : Op}
  {recoverTime : ℕ} {files needed : List BackupFileName}

theorem mem_full (h : Cut ts oplog full chain) :
    op ∈ full.ops ↔ op ∈ oplog ∧ ts op ≤ full.lastTs := by
  rw [h.fullOps, List.mem_filter, decide_eq_true_iff]

theorem chain_names (h : Cut ts oplog full chain) : (chain.map Backup.file).Nodup :=
  (List.nodup_cons.mp h.names).2

/-- Among the files only the full backup is one. -/
theorem fullsBefore_eq (h : Cut ts oplog full chain)
    (hfiles : files.Perm ((full :: chain).map Backup.file))
    (hbefore : full.file.lastTs.sec ≤ recoverTime) :
    fullsBefore r recoverTime files = [full.file] := by
  have hchain : (chain.map Backup.file).filter
      (fun file => file.type = .full ∧ file.lastTs.sec ≤ recoverTime) = [] := by
    rw [List.filter_eq_nil_iff]
    intro file hfile
    obtain ⟨b, hb, rfl⟩ := List.mem_map.mp hfile
    simp [(h.incr b hb).1]
  have hperm := (r.perm_sortSlice (fun a b => decide (b.lastTs.sec < a.lastTs.sec))).trans
    (hfiles.filter fun file => file.type = .full ∧ file.lastTs.sec ≤ recoverTime)
  rw [List.map_cons, List.filter_cons_of_pos (by simp [h.fullType, hbefore]), hchain] at hperm
  exact List.perm_singleton.mp hperm

/-- A full backup is found only with what the search finds for it. -/
theorem findNeedFiles_ok (h : Cut ts oplog full chain)
    (hfiles : files.Perm ((full :: chain).map Backup.file)) {found : BackupFileName} :
    findNeedFiles r files recoverTime = .ok (found, needed) ↔
      full.file.lastTs.sec ≤ recoverTime ∧ found = full.file ∧
        findIncrList r full.file recoverTime files = .ok needed := by
  constructor
  · intro hfound
    rcases findNeedFiles_cases r files recoverTime with
      ⟨before, full', after, needed', hsplit, hfound', hsearch, -⟩ | ⟨⟨message, herror⟩, -⟩
    · obtain ⟨rfl, rfl⟩ := Prod.mk.inj (Except.ok.inj (hfound.symm.trans hfound'))
      have hmem : found ∈ fullsBefore r recoverTime files := by simp [hsplit]
      obtain ⟨hplace, htype, hbefore⟩ := mem_fullsBefore.mp hmem
      obtain ⟨b, hb, rfl⟩ := List.mem_map.mp (hfiles.mem_iff.mp hplace)
      rcases List.mem_cons.mp hb with rfl | hb
      · exact ⟨hbefore, rfl, hsearch⟩
      · rw [(h.incr b hb).1] at htype
        cases htype
    · cases hfound.symm.trans herror
  · rintro ⟨hbefore, rfl, hsearch⟩
    simp [findNeedFiles, h.fullsBefore_eq r hfiles hbefore, hsearch]

/-- The incrementals of the full backup, sorted by their last seconds and numbered without a hole,
are the chain. -/
theorem byLastTs_eq (h : Cut ts oplog full chain)
    (hfiles : files.Perm ((full :: chain).map Backup.file)) (hversion : full.file.version = .v0)
    (hnumbered : Numbered (byLastTs r (incrsOf files full.file))) :
    byLastTs r (incrsOf files full.file) = chain.map Backup.file := by
  have hfilter : ((full :: chain).map Backup.file).filter (fun file =>
      file.type = .incr ∧ file.version = .v0 ∧ file.v0FullStr = full.file.v0FullStr) =
        chain.map Backup.file := by
    rw [List.map_cons, List.filter_cons_of_neg (by simp [h.fullType]), List.filter_eq_self]
    intro file hfile
    obtain ⟨b, hb, rfl⟩ := List.mem_map.mp hfile
    obtain ⟨htype, hversion', hfull⟩ := h.incr b hb
    simp [htype, hversion', hversion, hfull]
  have hperm : (byLastTs r (incrsOf files full.file)).Perm (chain.map Backup.file) := by
    rw [← hfilter]
    exact (r.perm_sortSlice _).trans (hfiles.filter _)
  have hlength : (byLastTs r (incrsOf files full.file)).length = chain.length := by
    rw [hperm.length_eq, List.length_map]
  apply List.ext_getElem hperm.length_eq
  intro i hi hi'
  -- the file at a place has its place's number, and so has the one of the chain there
  obtain ⟨j, hj, hsame⟩ := List.mem_iff_getElem.mp (hperm.mem_iff.mp (List.getElem_mem hi))
  have hseq := hnumbered i hi
  rw [← hsame] at hseq ⊢
  rw [List.length_map] at hj
  rw [List.getElem_map] at hseq
  have hnum := h.numbered j hj
  have hlast := h.numbered i (by omega)
  have hfits := chain[i].file.v0IncrSeq.toNat_lt
  rw [hseq, UInt32.toNat_ofNat_of_lt' (show i + 1 < 2 ^ 32 by omega)] at hnum
  obtain rfl : i = j := by omega
  rfl

/-- The files found among backups of version 0 are those of the chain's front, up to the first
backup that ends in the second or later. -/
theorem kept_v0 (h : Cut ts oplog full chain)
    (hfiles : files.Perm ((full :: chain).map Backup.file)) (hversion : full.file.version = .v0)
    (hbefore : full.file.lastTs.sec ≤ recoverTime)
    (hsearch : findIncrListV0 r full.file recoverTime files = .ok needed) :
    ∃ kept rest, chain = kept ++ rest ∧ needed = kept.map Backup.file ∧
      recoverTime ≤ (kept.getLastD full).lastTs.sec ∧ kept.getLastD full ∈ full :: chain ∧
      ∀ b ∈ full :: chain, recoverTime ≤ b.lastTs.sec →
        (kept.getLastD full).lastTs ≤ b.lastTs := by
  have hle := (chain_le h.follows).2
  have hsec := full.second
  rcases findIncrListV0_cases r full.file recoverTime files with
    ⟨hexact, hok⟩ | ⟨hexact, ⟨last, -, hnumbered, -, needed', hok, hupTo⟩ | ⟨-, message, herror⟩⟩
  · refine ⟨[], chain, rfl, Except.ok.inj (hsearch.symm.trans hok), ?_, List.mem_cons_self, ?_⟩
    · rw [List.getLastD_nil]
      omega
    · intro b hb _
      rcases List.mem_cons.mp hb with rfl | hb
      · exact Or.inr ⟨rfl, Nat.le_refl _⟩
      · exact (hle b hb).1
  · obtain rfl := Except.ok.inj (hsearch.symm.trans hok)
    rw [h.byLastTs_eq r hfiles hversion hnumbered] at hupTo
    obtain ⟨hit, hhit, hreaches⟩ := hupTo.reaches
    obtain ⟨init, rfl⟩ := List.getLast?_eq_some_iff.mp hhit
    obtain ⟨tail, htail⟩ := hupTo.front
    obtain ⟨kept, rest, rfl, hkept, -⟩ := List.map_eq_append_iff.mp htail.symm
    obtain ⟨start, last, rfl, hstart, hlast⟩ := List.map_eq_append_iff.mp hkept
    obtain ⟨e, rfl, rfl⟩ := List.map_eq_singleton_iff.mp hlast
    have hesec := e.second
    have hlastD : (start ++ [e]).getLastD full = e := by simp [List.getLastD_eq_getLast?]
    refine ⟨start ++ [e], rest, rfl, hkept.symm, ?_, ?_, ?_⟩
    · rw [hlastD]
      omega
    · rw [hlastD]
      simp
    · intro b hb hsecond
      rw [hlastD]
      have hchain := h.follows
      rw [List.append_assoc, List.singleton_append, ← List.cons_append] at hchain
      have hrest := (chain_le hchain.right_of_append).2
      rcases List.mem_cons.mp hb with rfl | hb
      · omega
      · rcases List.mem_append.mp hb with hb | hb
        · rcases List.mem_append.mp hb with hb | hb
          · have hfewest := hupTo.fewest b.file
              (by rw [List.dropLast_concat, ← hstart]; exact List.mem_map_of_mem hb)
            have hbsec := b.second
            omega
          · obtain rfl := List.mem_singleton.mp hb
            exact Or.inr ⟨rfl, Nat.le_refl _⟩
        · exact (hrest b hb).1
  · cases hsearch.symm.trans herror

/-- The files found among backups of version 1 are those that end behind the full backup and begin
no later than the second. -/
theorem mem_needed_v1 {file : BackupFileName}
    (hsearch : findIncrListV1 r full.file recoverTime files = .ok needed) :
    file ∈ needed ↔ file ∈ files ∧ file.type = .incr ∧ file.version = .v1 ∧
      full.file.lastTs.sec ≤ file.lastTs.sec ∧ file.firstTs.sec ≤ recoverTime := by
  have hneeded : needed = byLastTs r (files.filter fun file =>
      file.type = .incr ∧ file.version = .v1 ∧ full.file.lastTs.sec ≤ file.lastTs.sec ∧
        file.firstTs.sec ≤ recoverTime) := by
    unfold findIncrListV1 at hsearch
    dsimp only at hsearch
    split at hsearch
    · split at hsearch
      · cases hsearch
      · split at hsearch
        · cases hsearch
        · split at hsearch
          · cases hsearch
          · exact (Except.ok.inj hsearch).symm
    · rename_i hnone
      split at hsearch
      · obtain rfl := Except.ok.inj hsearch
        generalize byLastTs r _ = l at hnone ⊢
        cases l with
        | nil => rfl
        | cons first rest => exact absurd rfl (hnone first _ rfl)
      · cases hsearch
  rw [hneeded, byLastTs, RangeOrder.mem_sortSlice, List.mem_filter, decide_eq_true_iff]

/-- What a restore with the files found among version 0 holds. -/
theorem mem_doRecover_v0 {kept rest : List (Backup Op)} (h : Cut ts oplog full chain)
    (hchain : chain = kept ++ rest) (hpos : 0 < recoverTime) (hincrs : ∀ b, b ∈ incrs ↔ b ∈ kept) :
    op ∈ doRecover ts full incrs recoverTime ↔ op ∈ oplog ∧ (ts op ≤ full.lastTs ∨
      ts op ≤ (kept.getLastD full).lastTs ∧ ts op < ⟨recoverTime, 999⟩) := by
  have hkept : (full :: kept).IsChain (Follows ts oplog) := by
    have hfollows := h.follows
    rw [hchain, ← List.cons_append] at hfollows
    exact hfollows.left_of_append
  rw [mem_doRecover hpos, h.mem_full]
  constructor
  · rintro (⟨hop, hle⟩ | ⟨b, hb, hmem, hlimit⟩)
    · exact ⟨hop, Or.inl hle⟩
    · have hb := (hincrs b).mp hb
      obtain ⟨hop, hle, -⟩ := chain_ops hkept hb hmem
      have hend := ((chain_le hkept).2 b hb).2
      refine ⟨hop, Or.inr ⟨?_, hlimit⟩⟩
      simp only [TS.le_iff] at hle hend ⊢
      omega
  · rintro ⟨hop, hle | ⟨hle, hlimit⟩⟩
    · exact Or.inl ⟨hop, hle⟩
    · by_cases hfull : ts op ≤ full.lastTs
      · exact Or.inl ⟨hop, hfull⟩
      · have hstart : full.lastTs < ts op := by
          simp only [TS.le_iff, TS.lt_iff] at hfull ⊢
          omega
        obtain ⟨b, hb, hmem⟩ := chain_covers hkept hop hstart hle
        exact Or.inr ⟨b, (hincrs b).mpr hb, hmem, hlimit⟩

/-- A restore from version 0 is exact if and only if the full backup ends below the limit and no
backup that ends in the second leaves operations below the limit behind it. -/
theorem exact_v0 (h : Cut ts oplog full chain)
    (hfiles : files.Perm ((full :: chain).map Backup.file)) (hversion : full.file.version = .v0)
    (hbefore : full.file.lastTs.sec ≤ recoverTime)
    (hsearch : findIncrListV0 r full.file recoverTime files = .ok needed)
    (hincrs : incrs ⊆ chain) (hneeded : incrs.map Backup.file = needed) :
    Exact ts oplog recoverTime (doRecover ts full incrs recoverTime) ↔
      full.lastTs < ⟨recoverTime, 999⟩ ∧ ∀ b ∈ full :: chain, b.lastTs.sec = recoverTime →
        ∀ op ∈ oplog, b.lastTs < ts op → ¬ ts op < ⟨recoverTime, 999⟩ := by
  have hpos : 0 < recoverTime := by
    have hsec := full.second
    have hfull := full.positive
    omega
  obtain ⟨kept, rest, hchain, hkept, hreaches, hend, hfirst⟩ :=
    h.kept_v0 r hfiles hversion hbefore hsearch
  have hsame : ∀ b, b ∈ incrs ↔ b ∈ kept := by
    intro b
    rw [mem_found h.chain_names hincrs hneeded, hkept, hchain]
    constructor
    · rintro ⟨hb, hfile⟩
      obtain ⟨other, hother, heq⟩ := List.mem_map.mp hfile
      have hin : other ∈ chain := hchain ▸ List.mem_append_left _ hother
      exact List.inj_on_of_nodup_map h.chain_names hin (hchain ▸ hb) heq ▸ hother
    · intro hb
      exact ⟨List.mem_append_left _ hb, List.mem_map_of_mem hb⟩
  have hmem : ∀ op, op ∈ doRecover ts full incrs recoverTime ↔ op ∈ oplog ∧
      (ts op ≤ full.lastTs ∨ ts op ≤ (kept.getLastD full).lastTs ∧ ts op < ⟨recoverTime, 999⟩) :=
    fun op => h.mem_doRecover_v0 hchain hpos hsame
  have hfull : full.lastTs ≤ (kept.getLastD full).lastTs := by
    have hle := (chain_le h.follows).2
    rcases List.mem_cons.mp hend with heq | hin
    · rw [heq]
      exact Or.inr ⟨rfl, Nat.le_refl _⟩
    · exact (hle _ hin).1
  constructor
  · rintro ⟨hall, hnone⟩
    constructor
    · obtain ⟨op, hop, heq⟩ := h.ends full List.mem_cons_self
      have hlast := (hnone op ((hmem op).mpr ⟨hop, Or.inl (heq ▸ Or.inr ⟨rfl, Nat.le_refl _⟩)⟩)).2
      exact heq ▸ hlast
    · intro b hb hsec op hop hbehind hlimit
      have hkeptEnd := hfirst b hb (by omega)
      have hrestored : op ∈ doRecover ts full incrs recoverTime := by
        simp only [TS.lt_iff] at hbehind hlimit
        exact hall op hop (by omega) (by omega)
      obtain ⟨-, hle⟩ := (hmem op).mp hrestored
      simp only [TS.le_iff, TS.lt_iff] at hbehind hlimit hkeptEnd hle hfull
      omega
  · rintro ⟨hlimit, hbehind⟩
    constructor
    · intro op hop hsec hordinal
      refine (hmem op).mpr ⟨hop, Or.inr ⟨?_, ?_⟩⟩
      · by_contra hgt
        refine hbehind _ hend ?_ op hop ?_ ?_
        · simp only [TS.le_iff] at hgt
          omega
        · simp only [TS.le_iff, TS.lt_iff] at hgt ⊢
          omega
        · simp only [TS.lt_iff]
          omega
      · simp only [TS.lt_iff]
        omega
    · intro op hop
      obtain ⟨hin, hle | ⟨-, hlt⟩⟩ := (hmem op).mp hop
      · refine ⟨hin, ?_⟩
        simp only [TS.le_iff, TS.lt_iff] at hle hlimit ⊢
        omega
      · exact ⟨hin, hlt⟩

/-- A restore from version 1 is exact if and only if the full backup ends below the limit. -/
theorem exact_v1 (h : Cut ts oplog full chain)
    (hfiles : files.Perm ((full :: chain).map Backup.file)) (hversion : full.file.version = .v1)
    (hbefore : full.file.lastTs.sec ≤ recoverTime)
    (hsearch : findIncrListV1 r full.file recoverTime files = .ok needed)
    (hincrs : incrs ⊆ chain) (hneeded : incrs.map Backup.file = needed) :
    Exact ts oplog recoverTime (doRecover ts full incrs recoverTime) ↔
      full.lastTs < ⟨recoverTime, 999⟩ := by
  have hsecond := full.second
  have hpos : 0 < recoverTime := by
    have hfull := full.positive
    omega
  constructor
  · rintro ⟨-, hnone⟩
    obtain ⟨op, hop, heq⟩ := h.ends full List.mem_cons_self
    have hmem : op ∈ full.ops := h.mem_full.mpr ⟨hop, heq ▸ Or.inr ⟨rfl, Nat.le_refl _⟩⟩
    exact heq ▸ (hnone op ((mem_doRecover hpos).mpr (Or.inl hmem))).2
  · intro hlimit
    constructor
    · intro op hop hsec hordinal
      have hlt : ts op < ⟨recoverTime, 999⟩ := by
        simp only [TS.lt_iff]
        omega
      rw [mem_doRecover hpos, h.mem_full]
      by_cases hfull : ts op ≤ full.lastTs
      · exact Or.inl ⟨hop, hfull⟩
      · have hstart : full.lastTs < ts op := by
          simp only [TS.le_iff, TS.lt_iff] at hfull ⊢
          omega
        obtain ⟨b, hb, hmem⟩ := chain_covers h.follows hop hstart (h.covered op hop)
        obtain ⟨htype, hsame, -⟩ := h.incr b hb
        have hv1 : b.file.version = .v1 := hsame.trans hversion
        have hfirst := (chain_ops h.follows hb hmem).2.2 hv1
        have hlater := ((chain_le h.follows).2 b hb).1
        have hbsec := b.second
        refine Or.inr ⟨b, (mem_found h.chain_names hincrs hneeded).mpr ⟨hb, ?_⟩, hmem, hlt⟩
        refine (mem_needed_v1 r hsearch).mpr ⟨?_, htype, hv1, ?_, by omega⟩
        · exact hfiles.mem_iff.mpr (List.mem_map_of_mem (List.mem_cons_of_mem _ hb))
        · simp only [TS.le_iff] at hlater
          omega
    · intro op hop
      rcases (mem_doRecover hpos).mp hop with hmem | ⟨b, hb, hmem, hlt⟩
      · obtain ⟨hin, hle⟩ := h.mem_full.mp hmem
        refine ⟨hin, ?_⟩
        simp only [TS.le_iff, TS.lt_iff] at hle hlimit ⊢
        omega
      · exact ⟨(chain_ops h.follows (hincrs hb) hmem).1, hlt⟩

end Cut

/-- For every oplog cut into a full backup and incrementals, every order of their files and every
time at which files are found: the restore to that second is exact if and only if the full backup
ends below the limit and, for files of version 0, no backup that ends in the second leaves
operations below the limit to the backup after it. -/
theorem doRecover_exact (r : RangeOrder BackupFileName) {oplog : List Op} {full : Backup Op}
    {chain incrs : List (Backup Op)} {files needed : List BackupFileName} {found : BackupFileName}
    {recoverTime : ℕ} (h : Cut ts oplog full chain)
    (hfiles : files.Perm ((full :: chain).map Backup.file))
    (hfound : findNeedFiles r files recoverTime = .ok (found, needed))
    (hincrs : incrs ⊆ chain) (hneeded : incrs.map Backup.file = needed) :
    found = full.file ∧ (Exact ts oplog recoverTime (doRecover ts full incrs recoverTime) ↔
      full.lastTs < ⟨recoverTime, 999⟩ ∧ (full.file.version = .v0 →
        ∀ b ∈ full :: chain, b.lastTs.sec = recoverTime →
          ∀ op ∈ oplog, b.lastTs < ts op → ¬ ts op < ⟨recoverTime, 999⟩)) := by
  obtain ⟨hbefore, hfull, hsearch⟩ := (h.findNeedFiles_ok r hfiles).mp hfound
  refine ⟨hfull, ?_⟩
  cases hversion : full.file.version with
  | v0 =>
    rw [findIncrList, hversion] at hsearch
    rw [h.exact_v0 r hfiles hversion hbefore hsearch hincrs hneeded]
    exact and_congr_right fun _ => ⟨fun hbehind _ => hbehind, fun hbehind => hbehind rfl⟩
  | v1 =>
    rw [findIncrList, hversion] at hsearch
    rw [h.exact_v1 r hfiles hversion hbefore hsearch hincrs hneeded]
    exact ⟨fun hlimit => ⟨hlimit, fun hv0 => by cases hv0⟩, fun hlimit => hlimit.1⟩

private def cutFile (type : BackupType) (seq : UInt32) (sec : ℕ) : BackupFileName :=
  ⟨.v0, "", type, 0, ⟨0, 0⟩, ⟨sec, 0⟩, "2018031304", seq⟩

/-- A full backup that ends with the first operation of second 100. -/
def fullAt100 : Backup TS :=
  ⟨cutFile .full 0 100, ⟨100, 1⟩, [⟨100, 1⟩], rfl, by decide⟩

/-- The incremental after it, with one operation more. -/
def incrTo (second i : ℕ) (h : 0 < second) : Backup TS :=
  ⟨cutFile .incr 1 second, ⟨second, i⟩, [⟨100, 1⟩, ⟨second, i⟩], rfl, h⟩

theorem cut_incrTo {second i : ℕ} (h : 0 < second) (hlater : (⟨100, 1⟩ : TS) < ⟨second, i⟩) :
    Cut id [⟨100, 1⟩, ⟨second, i⟩] fullAt100 [incrTo second i h] := by
  have hle : (⟨100, 1⟩ : TS) ≤ ⟨second, i⟩ := by
    simp only [TS.le_iff, TS.lt_iff] at hlater ⊢
    omega
  have hrefl : ∀ t : TS, t ≤ t := fun t => Or.inr ⟨rfl, Nat.le_refl _⟩
  have hgt : ¬ (⟨second, i⟩ : TS) ≤ ⟨100, 1⟩ := by
    simp only [TS.le_iff, TS.lt_iff] at hlater ⊢
    omega
  constructor
  case fullType => rfl
  case fullOps => simp [fullAt100, hrefl, hgt]
  case incr => simp [incrTo, fullAt100, cutFile]
  case numbered =>
    intro j hj
    obtain rfl : j = 0 := by simpa using hj
    rfl
  case names => simp [incrTo, fullAt100, cutFile]
  case ends => simp [incrTo, fullAt100]
  case follows =>
    refine List.isChain_pair.mpr ⟨?_, hle, fun hversion => by cases hversion⟩
    simp [incrTo, fullAt100, dumpIncr, hrefl, hle]
  case covered =>
    intro op hop
    rcases List.mem_cons.mp hop with rfl | hop
    · exact hle
    · rw [List.mem_singleton.mp hop]
      exact hrefl _

theorem findNeedFiles_incrTo {second i : ℕ} (h : 0 < second)
    (hlater : (⟨100, 1⟩ : TS) < ⟨second, i⟩) :
    findNeedFiles .still [fullAt100.file, (incrTo second i h).file] 100 =
      .ok (fullAt100.file, []) :=
  ((cut_incrTo h hlater).findNeedFiles_ok .still (.refl _)).mpr ⟨Nat.le_refl _, rfl, rfl⟩

/-- The next operation is of the next second, and the restore is exact. -/
theorem doRecover_exact_next_second :
    Exact id [⟨100, 1⟩, ⟨101, 1⟩] 100 (doRecover id fullAt100 [] 100) := by
  refine (doRecover_exact id .still (cut_incrTo (by decide : 0 < 101) (by decide : _ < (⟨101, 1⟩ : TS)))
    (.refl _) (findNeedFiles_incrTo _ (by decide)) (List.nil_subset _) rfl).2.mpr ⟨by decide, ?_⟩
  intro _
  decide

/-- The next operation is of the same second, and it is lost. -/
theorem doRecover_loses_rest_of_second :
    ¬ ∀ (oplog : List TS) (full : Backup TS) (chain incrs : List (Backup TS))
      (files needed : List BackupFileName) (found : BackupFileName) (recoverTime : ℕ),
      Cut id oplog full chain → files.Perm ((full :: chain).map Backup.file) →
      findNeedFiles .still files recoverTime = .ok (found, needed) → incrs ⊆ chain →
      incrs.map Backup.file = needed →
        Exact id oplog recoverTime (doRecover id full incrs recoverTime) := by
  intro hexact
  have hrestored := (hexact _ _ _ [] _ [] _ 100 (cut_incrTo (by decide : 0 < 100)
    (by decide : _ < (⟨100, 5⟩ : TS))) (.refl _) (findNeedFiles_incrTo _ (by decide))
    (List.nil_subset _) rfl).1 ⟨100, 5⟩ (by decide) (by decide) (by decide)
  revert hrestored
  decide

end Pitr
