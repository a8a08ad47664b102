import BluekingDbm.Library.Lists
import BluekingDbm.Rotate.Run
import Mathlib.Data.List.Nodup

/-! The listing of a run: where names of one length make it follow the numbers. -/
namespace Rotate

/-- The binlogs of an instance, in the order in which the server wrote them. -/
structure Files (port : String) (dir : List BinlogFile) : Prop where
  named : ∀ f ∈ dir, f.filename = binlogName port (number f.filename)
  numbers : dir.Pairwise fun a b => number a.filename < number b.filename
  mtimes : dir.Pairwise fun a b => a.mtime ≤ b.mtime

/-- All names have one length: the numbers have not rolled over to one digit more. -/
def OneLength (dir : List BinlogFile) : Prop :=
  ∀ f ∈ dir, ∀ g ∈ dir, f.filename.length = g.filename.length

/-- Older than sixty days. -/
def Old (now : ℕ) (f : BinlogFile) : Prop := f.mtime + 60 * day < now

instance (now : ℕ) (f : BinlogFile) : Decidable (Old now f) := inferInstanceAs (Decidable (_ < _))

/-- Kept for too long. -/
def Expired (env : Env) (f : BinlogFile) : Prop := f.mtime < env.now - env.maxKeepDuration

instance (env : Env) (f : BinlogFile) : Decidable (Expired env f) :=
  inferInstanceAs (Decidable (_ < _))

/-- The run removes what has been kept for too long. -/
def Clearing (env : Env) : Prop := ¬ (env.maxKeepDuration = 0 ∨ env.hour ≠ 6)

section

variable {port : String} {env : Env} {dir files : List BinlogFile} {f g last : BinlogFile} {s t : Host}

namespace Files

theorem sublist (h : Files port dir) (hfiles : files.Sublist dir) : Files port files :=
  ⟨fun f hf => h.named f (hfiles.subset hf), h.numbers.sublist hfiles, h.mtimes.sublist hfiles⟩

theorem lt_iff (h : Files port dir) (hlength : OneLength dir) (hf : f ∈ dir) (hg : g ∈ dir) :
    f.filename < g.filename ↔ number f.filename < number g.filename := by
  have hsame := hlength f hf g hg
  rw [h.named f hf, h.named g hg] at hsame ⊢
  rw [binlogName_lt hsame, number_binlogName, number_binlogName]

theorem names_nodup (h : Files port dir) : (dir.map BinlogFile.filename).Nodup := by
  apply List.pairwise_map.mpr
  refine h.numbers.imp ?_
  intro a b hlt heq
  rw [heq] at hlt
  omega

theorem filename_inj (h : Files port dir) (hf : f ∈ dir) (hg : g ∈ dir)
    (hname : f.filename = g.filename) : f = g :=
  List.inj_on_of_nodup_map h.names_nodup hf hg hname

/-- The last file is the one with the greatest number. -/
theorem le_last (h : Files port dir) (hlast : last ∈ dir.getLast?) (hf : f ∈ dir) :
    f = last ∨ number f.filename < number last.filename ∧ f.mtime ≤ last.mtime := by
  obtain ⟨init, rfl⟩ := List.getLast?_eq_some_iff.mp hlast
  rcases List.mem_append.mp hf with hf | hf
  · right
    exact ⟨(List.pairwise_append.mp h.numbers).2.2 f hf last (List.mem_singleton_self _),
      (List.pairwise_append.mp h.mtimes).2.2 f hf last (List.mem_singleton_self _)⟩
  · exact Or.inl (List.mem_singleton.mp hf)

theorem mem_dropLast (h : Files port dir) (hlast : last ∈ dir.getLast?) :
    f ∈ dir.dropLast ↔ f ∈ dir ∧ number f.filename < number last.filename := by
  obtain ⟨init, rfl⟩ := List.getLast?_eq_some_iff.mp hlast
  rw [List.dropLast_concat]
  constructor
  · intro hf
    exact ⟨List.mem_append_left _ hf,
      (List.pairwise_append.mp h.numbers).2.2 f hf last (List.mem_singleton_self _)⟩
  · rintro ⟨hf, hlt⟩
    rcases List.mem_append.mp hf with hf | hf
    · exact hf
    · rw [List.mem_singleton.mp hf] at hlt
      omega

/-- A part of the files that has the last one ends with it. -/
theorem getLast?_sublist (h : Files port dir) (hlast : last ∈ dir.getLast?)
    (hfiles : files.Sublist dir) (hmem : last ∈ files) : files.getLast? = some last := by
  have hne : files ≠ [] := List.ne_nil_of_mem hmem
  obtain ⟨g, hg⟩ : ∃ g, files.getLast? = some g := ⟨_, List.getLast?_eq_some_getLast hne⟩
  have hgdir := hfiles.subset (List.mem_of_getLast? hg)
  rcases (h.sublist hfiles).le_last hg hmem with heq | ⟨hlt, -⟩
  · rw [hg, heq]
  · rcases h.le_last hlast hgdir with heq | ⟨hgt, -⟩
    · rw [hg, heq]
    · omega

theorem last_notMem_take (h : Files port dir) (hlast : last ∈ dir.getLast?) {k : ℕ}
    (hk : k < dir.length) : last ∉ dir.take k := by
  intro htake
  obtain ⟨init, rfl⟩ := List.getLast?_eq_some_iff.mp hlast
  rw [List.length_append, List.length_singleton] at hk
  rw [List.take_append_of_le_length (by omega)] at htake
  have hlt := (List.pairwise_append.mp h.numbers).2.2 last (List.take_subset _ _ htake) last
    (List.mem_singleton_self _)
  omega

end Files

theorem readDir_eq (h : Files port dir) (hlength : OneLength dir) : readDir dir = dir := by
  apply List.mergeSort_of_pairwise
  refine h.numbers.imp_of_mem ?_
  intro a b ha hb hlt
  have hnot : ¬ b.filename < a.filename := by
    rw [h.lt_iff hlength hb ha]
    omega
  simpa using hnot

/-- The listing holds the files of the last sixty days, in their order. -/
theorem getBinlogFilesLocal_eq (h : Files port dir) (hlength : OneLength dir) :
    getBinlogFilesLocal env dir = dir.filter fun f => ¬ Old env.now f := by
  have hdot : ∀ f ∈ dir, lastIndexDot f.filename = ("binlog" ++ port).utf8ByteSize := by
    intro f hf
    rw [h.named f hf, lastIndexDot_binlogName]
  rw [getBinlogFilesLocal, readDir_eq h hlength]
  apply RangeOrder.pdqsort_of_no_descent
  intro a ha b hb
  have ha := hdot a (List.mem_of_mem_filter ha)
  have hb := hdot b (List.mem_of_mem_filter hb)
  rw [ha, hb]
  simp

/-- What is removed for its age lies in front of the reserve. -/
theorem overdue_eq (env : Env) (files : List BinlogFile) :
    overdue env files = (files.take (files.length - 9)).filter fun f => Expired env f := by
  have hcount : ∀ (l : List BinlogFile) (num n : ℕ),
      ((l.zipIdx n).filter fun p => p.1.mtime < env.now - env.maxKeepDuration ∧
        ¬ num < p.2 + reserveMinBinlogNum).map Prod.fst =
          (l.take (num - 9 - n)).filter fun f => Expired env f := by
    intro l
    induction l with
    | nil => simp
    | cons f l ih =>
      intro num n
      have hih := ih num (n + 1)
      by_cases hreserve : num < n + reserveMinBinlogNum
      · have hzero : num - 9 - n = 0 := by
          simp only [reserveMinBinlogNum] at hreserve
          omega
        have hnext : num - 9 - (n + 1) = 0 := by omega
        rw [hnext, List.take_zero, List.filter_nil] at hih
        rw [hzero, List.zipIdx_cons, List.filter_cons_of_neg (by simp [hreserve]), hih]
        rfl
      · have hexp : Expired env f ↔ f.mtime < env.now - env.maxKeepDuration := Iff.rfl
        have hsucc : num - 9 - n = num - 9 - (n + 1) + 1 := by
          simp only [reserveMinBinlogNum] at hreserve
          omega
        rw [hsucc, List.take_succ_cons, List.zipIdx_cons]
        by_cases hexpired : f.mtime < env.now - env.maxKeepDuration
        · rw [List.filter_cons_of_pos (by simpa [hexpired] using hreserve),
            List.filter_cons_of_pos (by simpa using hexp.mpr hexpired), List.map_cons, hih]
        · rw [List.filter_cons_of_neg (by simp [hexpired]),
            List.filter_cons_of_neg (by simpa using fun h => hexpired (hexp.mp h)), hih]
  exact hcount files files.length 0

/-- What the start of a run leaves. -/
structure Flushed (env : Env) (s t : Host) : Prop where
  dir : t.dir.Sublist s.dir
  listed : t.binlogFiles.Sublist t.dir
  mem : ∀ f ∈ t.dir, f ∈ t.binlogFiles ↔ ¬ Old env.now f
  db : t.db.Sublist s.db
  rows : ∀ row ∈ s.db, row ∈ t.db ∨
    Clearing env ∧ row.fileMtime < rfc3339 (env.now - env.maxKeepDuration)
  last : ∀ last ∈ s.dir.getLast?, last ∈ t.dir ∧ t.binlogFiles.getLast? = some last ∧
    (getBinlogFilesLocal env s.dir).getLast? = some last
  rest : t.binlogFiles <:+ getBinlogFilesLocal env s.dir
  reserve : ∀ f ∈ t.binlogFiles, Clearing env → Expired env f →
    f ∈ (getBinlogFilesLocal env s.dir).drop ((getBinlogFilesLocal env s.dir).length - 9)

/-- The files that the start of a run removes. -/
def gone (env : Env) (files : List BinlogFile) : List BinlogFile :=
  if env.maxKeepDuration = 0 ∨ env.hour ≠ 6 then [] else overdue env files

theorem gone_subset : gone env files ⊆ files.take (files.length - 9) := by
  intro f hf
  unfold gone at hf
  split at hf
  · cases hf
  · rw [overdue_eq] at hf
    exact List.mem_of_mem_filter hf

/-- A file in front of one that is removed is as old, and in front of the reserve too. -/
theorem gone_front (h : Files port files) :
    files.Pairwise fun a b => a ∉ gone env files → b ∉ gone env files := by
  refine (h.numbers.and h.mtimes).imp_of_mem ?_
  rintro a b ha hb ⟨hlt, hle⟩ hkept hgone
  apply hkept
  unfold gone at hgone ⊢
  split at hgone
  · cases hgone
  · rename_i hclear
    rw [if_neg hclear]
    rw [overdue_eq, List.mem_filter, decide_eq_true_iff] at hgone ⊢
    obtain ⟨hbtake, hexpired⟩ := hgone
    have hsorted : files.Pairwise fun a b => ¬ number b.filename < number a.filename :=
      h.numbers.imp fun hlt => Nat.lt_asymm hlt
    exact ⟨Ends.mem_take_of_before hsorted hbtake ha hlt, Nat.lt_of_le_of_lt hle hexpired⟩

/-- What the start of a run does with its listing. -/
theorem flushLogs_eq (hflush : flushLogs env s = some t) :
    getBinlogFilesLocal env s.dir ≠ [] ∧
    t.dir = s.dir.filter (fun f =>
      f.filename ∉ (gone env (getBinlogFilesLocal env s.dir)).map BinlogFile.filename) ∧
    t.binlogFiles = (getBinlogFilesLocal env s.dir).filter (fun f =>
      f ∉ gone env (getBinlogFilesLocal env s.dir)) ∧
    t.db = if env.maxKeepDuration = 0 ∨ env.hour ≠ 6 then s.db
      else deleteExpired (env.now - env.maxKeepDuration) s.db := by
  unfold flushLogs at hflush
  dsimp only at hflush
  split at hflush
  · cases hflush
  · rename_i hne
    refine ⟨hne, ?_⟩
    obtain rfl := Option.some.inj hflush
    unfold removeMaxKeepDuration gone
    split <;> simp

theorem flushLogs_flushed (h : Files port s.dir) (hlength : OneLength s.dir)
    (hflush : flushLogs env s = some t) : Flushed env s t := by
  obtain ⟨hne, hdir, hlisted, hdb⟩ := flushLogs_eq hflush
  have hlisting := @getBinlogFilesLocal_eq port env s.dir h hlength
  have hfiles : Files port (getBinlogFilesLocal env s.dir) := by
    rw [hlisting]
    exact h.sublist List.filter_sublist
  obtain ⟨old, hold⟩ : ∃ old, gone env (getBinlogFilesLocal env s.dir) = old := ⟨_, rfl⟩
  have hsub : old ⊆ (getBinlogFilesLocal env s.dir).take
      ((getBinlogFilesLocal env s.dir).length - 9) := hold ▸ gone_subset
  rw [hold] at hdir hlisted
  have hgone : ∀ f ∈ s.dir,
      f.filename ∉ old.map BinlogFile.filename ↔
        f ∉ old := by
    intro f hf
    rw [not_iff_not]
    constructor
    · intro hname
      obtain ⟨g, hg, heq⟩ := List.mem_map.mp hname
      have hgdir : g ∈ s.dir := by
        have hmem := List.take_subset _ _ (hsub hg)
        rw [hlisting] at hmem
        exact List.mem_of_mem_filter hmem
      exact h.filename_inj hgdir hf heq ▸ hg
    · exact fun hmem => List.mem_map_of_mem hmem
  have hmem : ∀ f, f ∈ t.dir ↔ f ∈ s.dir ∧ f ∉ old := by
    intro f
    rw [hdir, List.mem_filter, decide_eq_true_iff]
    exact and_congr_right fun hf => hgone f hf
  have hmemListed : ∀ f, f ∈ t.binlogFiles ↔
      f ∈ s.dir ∧ ¬ Old env.now f ∧ f ∉ old := by
    intro f
    rw [hlisted, List.mem_filter, decide_eq_true_iff]
    rw [hlisting, List.mem_filter, decide_eq_true_iff, and_assoc]
  have hdirSub : t.dir.Sublist s.dir := by
    rw [hdir]
    exact List.filter_sublist
  have hlistedSub : t.binlogFiles.Sublist t.dir := by
    rw [hlisted, hdir, hlisting, List.filter_filter]
    have hboth : s.dir.filter (fun f => decide (f ∉ old) &&
        decide (¬ Old env.now f)) = (s.dir.filter fun f => decide (f.filename ∉
          old.map BinlogFile.filename)).filter
            fun f => decide (¬ Old env.now f) := by
      rw [List.filter_filter]
      apply List.filter_congr
      intro f hf
      rw [Bool.and_comm, decide_eq_decide.mpr (hgone f hf)]
    rw [hboth]
    exact List.filter_sublist
  constructor
  case dir => exact hdirSub
  case listed => exact hlistedSub
  case mem =>
    intro f hf
    obtain ⟨hfdir, hnot⟩ := (hmem f).mp hf
    rw [hmemListed]
    exact ⟨fun hboth => hboth.2.1, fun hnew => ⟨hfdir, hnew, hnot⟩⟩
  case db =>
    rw [hdb]
    split
    · exact List.Sublist.refl _
    · exact List.filter_sublist
  case rows =>
    intro row hrow
    rw [hdb]
    split
    · exact Or.inl hrow
    · rename_i hclear
      by_cases hexpired : row.fileMtime < rfc3339 (env.now - env.maxKeepDuration)
      · exact Or.inr ⟨hclear, hexpired⟩
      · exact Or.inl (List.mem_filter.mpr ⟨hrow, decide_eq_true hexpired⟩)
  case last =>
    intro last hlast
    have hlastDir := List.mem_of_getLast? hlast
    -- a listed file is at most sixty days old, and so the last one is
    obtain ⟨f, hf⟩ := List.exists_mem_of_ne_nil _ hne
    have hnew : ¬ Old env.now last := by
      rw [hlisting, List.mem_filter, decide_eq_true_iff] at hf
      rcases h.le_last hlast hf.1 with rfl | ⟨-, hle⟩
      · exact hf.2
      · have hfnew := hf.2
        unfold Old at hfnew ⊢
        omega
    have hlistingLast : (getBinlogFilesLocal env s.dir).getLast? = some last := by
      refine h.getLast?_sublist hlast ?_ ?_
      · rw [hlisting]
        exact List.filter_sublist
      · rw [hlisting]
        exact List.mem_filter.mpr ⟨hlastDir, decide_eq_true hnew⟩
    have hkept : last ∉ old := by
      intro hin
      have hpos := List.length_pos_of_ne_nil hne
      exact hfiles.last_notMem_take hlistingLast (by omega) (hsub hin)
    have hlastListed := (hmemListed last).mpr ⟨hlastDir, hnew, hkept⟩
    exact ⟨(hmem last).mpr ⟨hlastDir, hkept⟩,
      h.getLast?_sublist hlast (hlistedSub.trans hdirSub) hlastListed, hlistingLast⟩
  case rest =>
    rw [hlisted]
    apply Ends.filter_suffix
    have hfront := @gone_front port env _ hfiles
    rw [hold] at hfront
    refine hfront.imp ?_
    intro a b hab ha
    rw [decide_eq_true_iff] at ha ⊢
    exact hab ha
  case reserve =>
    intro f hf hclear hexpired
    obtain ⟨hfdir, hnew, hnot⟩ := (hmemListed f).mp hf
    have hin : f ∈ getBinlogFilesLocal env s.dir := by
      rw [hlisting]
      exact List.mem_filter.mpr ⟨hfdir, decide_eq_true hnew⟩
    rw [← hold, gone, if_neg hclear, overdue_eq] at hnot
    have hsplit := List.take_append_drop ((getBinlogFilesLocal env s.dir).length - 9)
      (getBinlogFilesLocal env s.dir)
    rw [← hsplit] at hin
    rcases List.mem_append.mp hin with htake | hdrop
    · exact absurd (List.mem_filter.mpr ⟨htake, decide_eq_true hexpired⟩) hnot
    · exact hdrop

end

end Rotate
