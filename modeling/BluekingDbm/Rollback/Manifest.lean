import BluekingDbm.Library.Numeral

/-! The manifest of the files that a host must hold, as the planner writes and the actuator reads
it. -/
namespace Rollback

open Numeral Text

/-- A file of the plan: a full backup or a binlog. -/
structure FileRef where
  fileName : String
  size : ℤ

structure RollbackItem where
  destIp : String
  fullFiles : List FileRef
  binlogFiles : List FileRef

structure RollbackManifest where
  content : String
  fingerprint : String
  count : ℕ

def MANIFEST_NO_MD5 : String := "-"

def manifestNoMD5 : String := "-"

/-- The files that one host must hold, in the order of the plan. -/
def filesOf (items : List RollbackItem) (ip : String) : List FileRef :=
  (items.filter fun item => item.destIp = ip).flatMap fun item => item.fullFiles ++ item.binlogFiles

def manifestLine (f : FileRef) : String :=
  f.fileName ++ " " ++ decimal f.size ++ " " ++ MANIFEST_NO_MD5

def manifestLines (items : List RollbackItem) (ip : String) : List String :=
  (filesOf items ip).map manifestLine

def headerPrefix : String := "# redis rollback manifest plan="

def manifestHeader (planId : ℤ) (count : ℕ) (fingerprint : String) : String :=
  headerPrefix ++ decimal planId ++ " files=" ++ decimal count ++ " sha256=" ++ fingerprint

/-- `sha256` stands for the hex digest of a text's bytes. -/
def rollbackManifest (sha256 : String → String) (items : List RollbackItem) (planId : ℤ)
    (ip : String) : RollbackManifest :=
  let lines := manifestLines items ip
  let body := unlines lines
  let fingerprint := sha256 body
  { content := manifestHeader planId lines.length fingerprint ++ "\n" ++ body
    fingerprint
    count := lines.length }

structure ManifestEntry where
  name : String
  size : ℤ
  md5 : String
  deriving DecidableEq, Repr

/-- `[0-9a-f]`. -/
def isHexDigit (c : Char) : Bool := c.isDigit || ('a' ≤ c && c ≤ 'f')

/-- `\S`. -/
def isNonSpace (c : Char) : Bool := c ∉ ['\t', '\n', '\x0c', '\r', ' ']

/-- What is left of a text behind a word that it must begin with. -/
def behind (word : String) (cs : List Char) : Option (List Char) := word.toList.isPrefixOf? cs

/-- The line count and the digest of a header that `manifestHeaderReg` matches. -/
def matchHeader (line : String) : Option (String × String) :=
  (behind headerPrefix line.toList).bind fun cs =>
    let plan := cs.takeWhile isNonSpace
    (behind " files=" (cs.dropWhile isNonSpace)).bind fun cs =>
      let count := cs.takeWhile Char.isDigit
      (behind " sha256=" (cs.dropWhile Char.isDigit)).bind fun sum =>
        if plan ≠ [] ∧ count ≠ [] ∧ sum.length = 64 ∧ sum.all isHexDigit then
          some (String.ofList count, String.ofList sum)
        else none

inductive ManifestError
  | header (line : String)
  | line (number : ℕ) (line : String)
  | size (number : ℕ) (line : String)
  | damaged (count sum : String) (entries : ℕ) (fingerprint : String)
  deriving DecidableEq

/-- The loop over the lines behind the header: the text that is hashed and the entries. -/
def readManifestLines : ℕ → List String → String → List ManifestEntry →
    Except ManifestError (String × List ManifestEntry)
  | _, [], body, entries => .ok (body, entries)
  | number, line :: rest, body, entries =>
    if line = "" then readManifestLines (number + 1) rest body entries
    else
      match fields line with
      | [name, size, md5] =>
        match atoi size with
        | none => .error (.size number line)
        | some size =>
          readManifestLines (number + 1) rest (body ++ (line ++ "\n"))
            (entries ++ [⟨name, size, md5⟩])
      | _ => .error (.line number line)

/-- `Atoi` of digits, with its error passed over: a number out of range is taken as the greatest. -/
def wantedCount (count : String) : ℤ := (atoi count).getD (2 ^ 63 - 1)

def parseManifest (sha256 : String → String) (content : String) :
    Except ManifestError (List ManifestEntry × String) :=
  let lines := split content '\n'
  match matchHeader (trimSpace (lines.headD "")) with
  | none => .error (.header (lines.headD ""))
  | some (count, sum) =>
    match readManifestLines 2 lines.tail "" [] with
    | .error message => .error message
    | .ok (body, entries) =>
      let fingerprint := sha256 body
      if wantedCount count ≠ entries.length ∨ sum ≠ fingerprint then
        .error (.damaged count sum entries.length fingerprint)
      else .ok (entries, fingerprint)

/-- What the plan says of a file. -/
def FileRef.entry (f : FileRef) : ManifestEntry := ⟨f.fileName, f.size, manifestNoMD5⟩

/-- A file that one manifest line can stand for: its name is a word and its size a 64-bit integer. -/
structure FileRef.Listable (f : FileRef) : Prop where
  name : IsWord f.fileName
  size : -2 ^ 63 ≤ f.size ∧ f.size < 2 ^ 63

/-- A hex digest. -/
structure IsDigest (sum : String) : Prop where
  length : sum.toList.length = 64
  hex : ∀ c ∈ sum.toList, isHexDigit c = true

section Header

variable {planId : ℤ} {count : ℕ} {fingerprint : String} {c : Char}

theorem behind_append (word : String) (cs : List Char) :
    behind word (word.toList ++ cs) = some cs := by
  rw [behind]
  induction word.toList with
  | nil => rfl
  | cons c word ih => simp [List.isPrefixOf?, ih]

theorem isNonSpace_of_isDigit (h : c.isDigit = true) : isNonSpace c = true := by
  by_contra hnot
  simp only [isNonSpace, decide_eq_true_eq, not_not, List.mem_cons, List.not_mem_nil,
    or_false] at hnot
  rcases hnot with rfl | rfl | rfl | rfl | rfl <;> cases h

/-- A run of characters is cut off before a word that does not go on with it. -/
theorem cut_run {p : Char → Bool} {run : List Char} {word : String} {x : Char}
    (hrun : ∀ c ∈ run, p c = true) (hword : word.toList.head? = some x) (hx : p x = false)
    (cs : List Char) : (run ++ (word.toList ++ cs)).takeWhile p = run ∧
      behind word ((run ++ (word.toList ++ cs)).dropWhile p) = some cs := by
  rw [List.takeWhile_append_of_pos hrun, List.dropWhile_append_of_pos hrun]
  have hbehind := behind_append word cs
  cases hlist : word.toList with
  | nil =>
    rw [hlist] at hword
    cases hword
  | cons y ys =>
    rw [hlist] at hword hbehind
    obtain rfl : y = x := by simpa using hword
    simpa [hx] using hbehind

theorem matchHeader_manifestHeader (hsum : IsDigest fingerprint) :
    matchHeader (manifestHeader planId count fingerprint) = some (count.repr, fingerprint) := by
  have hplan : ∀ c ∈ (decimal planId).toList, isNonSpace c = true := by
    intro c hc
    rcases mem_decimal hc with hdigit | rfl
    · exact isNonSpace_of_isDigit hdigit
    · decide
  have hcount : ∀ c ∈ count.repr.toList, c.isDigit = true := fun c hc => repr_isDigit hc
  have hlist : (manifestHeader planId count fingerprint).toList = headerPrefix.toList ++
      ((decimal planId).toList ++ (" files=".toList ++ (count.repr.toList ++
        (" sha256=".toList ++ fingerprint.toList)))) := by
    have hdecimal : decimal (count : ℤ) = count.repr := rfl
    simp only [manifestHeader, String.toList_append, hdecimal, List.append_assoc]
  obtain ⟨htake, hbehind⟩ := @cut_run isNonSpace _ " files=" ' ' hplan rfl (by decide)
    (count.repr.toList ++ (" sha256=".toList ++ fingerprint.toList))
  obtain ⟨htake', hbehind'⟩ := @cut_run Char.isDigit _ " sha256=" ' ' hcount rfl (by decide)
    fingerprint.toList
  have hne : (decimal planId).toList ≠ [] := by simpa using (decimal_word planId).1
  have hall : fingerprint.toList.all isHexDigit = true := List.all_eq_true.mpr hsum.hex
  rw [matchHeader, hlist, behind_append, Option.bind_some]
  dsimp only
  rw [hbehind, Option.bind_some, hbehind', Option.bind_some, htake, htake',
    if_pos ⟨hne, repr_ne_nil count, hsum.length, hall⟩, String.ofList_toList, String.ofList_toList]

theorem isSpace_of_isHexDigit (h : isHexDigit c = true) : isSpace c = false := by
  have hrange : c.isDigit = true ∨ 97 ≤ c.toNat ∧ c.toNat ≤ 102 := by
    simpa [isHexDigit, Char.le_def, UInt32.le_iff_toNat_le] using h
  rcases hrange with hdigit | ⟨hlow, hhigh⟩
  · exact isSpace_of_isDigit hdigit
  · simp only [isSpace, Bool.or_eq_false_iff, decide_eq_false_iff_not, Bool.and_eq_false_iff,
      List.mem_cons, List.not_mem_nil, or_false]
    omega

/-- The header is one line, and nothing is trimmed off it. -/
theorem manifestHeader_line (hsum : IsDigest fingerprint) :
    '\n' ∉ (manifestHeader planId count fingerprint).toList ∧
      trimSpace (manifestHeader planId count fingerprint) =
        manifestHeader planId count fingerprint := by
  have hspace : ∀ c ∈ fingerprint.toList, isSpace c = false :=
    fun c hc => isSpace_of_isHexDigit (hsum.hex c hc)
  constructor
  · simp only [manifestHeader, String.toList_append, List.mem_append, not_or]
    exact ⟨⟨⟨⟨⟨by decide, newline_notMem (decimal_word planId).2⟩, by decide⟩,
      newline_notMem (decimal_word count).2⟩, by decide⟩, newline_notMem hspace⟩
  · have hne : fingerprint.toList ≠ [] := by
      intro h
      have hlength := hsum.length
      simp [h] at hlength
    have hlast := List.getLast?_eq_some_getLast hne
    apply trimSpace_ends
    · intro x hx
      simp only [manifestHeader, String.toList_append, List.append_assoc] at hx
      obtain rfl : '#' = x := Option.some_inj.mp hx
      decide
    · intro x hx
      simp only [manifestHeader, String.toList_append] at hx
      rw [List.getLast?_append, hlast] at hx
      obtain rfl := Option.some_inj.mp hx
      exact hspace _ (List.getLast_mem hne)

end Header

section Lines

variable {sha256 : String → String} {items : List RollbackItem} {planId : ℤ} {ip text : String}
  {files : List FileRef} {f : FileRef} {lines : List String} {body body' : String}
  {entries entries' : List ManifestEntry} {number : ℕ}

theorem manifestLine_no_newline (h : f.Listable) : '\n' ∉ (manifestLine f).toList := by
  simp only [manifestLine, String.toList_append, List.mem_append, not_or]
  exact ⟨⟨⟨⟨newline_notMem h.name.2, by decide⟩, newline_notMem (decimal_word f.size).2⟩,
    by decide⟩, by decide⟩

theorem manifestLine_ne (f : FileRef) : manifestLine f ≠ "" := by
  intro h
  have hlist := congrArg String.toList h
  simp [manifestLine] at hlist

theorem fields_manifestLine (h : f.Listable) :
    fields (manifestLine f) = [f.fileName, decimal f.size, MANIFEST_NO_MD5] := by
  have hmd5 : IsWord MANIFEST_NO_MD5 := isWord_of_all (by decide) (by decide)
  have hline : manifestLine f =
      f.fileName ++ " " ++ (decimal f.size ++ " " ++ MANIFEST_NO_MD5) := by
    simp only [manifestLine, String.append_assoc]
  rw [hline, fields_append h.name, fields_append (decimal_word f.size), fields_word hmd5]

/-- The lines of files that can be listed are read back. -/
theorem readManifestLines_files (h : ∀ f ∈ files, f.Listable) :
    readManifestLines number (files.map manifestLine) body entries =
      .ok (body ++ unlines (files.map manifestLine), entries ++ files.map FileRef.entry) := by
  induction files generalizing number body entries with
  | nil => simp [readManifestLines, unlines]
  | cons f files ih =>
    obtain ⟨hf, hrest⟩ := List.forall_mem_cons.mp h
    rw [List.map_cons, readManifestLines, if_neg (manifestLine_ne f), fields_manifestLine hf]
    simp only [atoi_decimal hf.size.1 hf.size.2]
    rw [ih hrest, unlines_cons, String.append_assoc, List.map_cons, List.append_assoc]
    rfl

/-- Blank lines are passed over; the line numbers matter to the errors only. -/
theorem readManifestLines_blank (number number' : ℕ) :
    (readManifestLines number lines body entries).toOption =
      (readManifestLines number' (lines.filter (· ≠ "")) body entries).toOption := by
  induction lines generalizing number number' body entries with
  | nil => rfl
  | cons line lines ih =>
    rw [readManifestLines]
    by_cases hblank : line = ""
    · rw [if_pos hblank, List.filter_cons_of_neg (by simpa using hblank)]
      exact ih (number + 1) number'
    · rw [if_neg hblank, List.filter_cons_of_pos (by simpa using hblank), readManifestLines,
        if_neg hblank]
      split
      · split
        · rfl
        · exact ih (number + 1) (number' + 1)
      · rfl

/-- What is hashed is the lines that are not blank. -/
theorem readManifestLines_body (h : readManifestLines number lines body entries = .ok (body', entries')) :
    body' = body ++ unlines (lines.filter (· ≠ "")) := by
  induction lines generalizing number body entries with
  | nil =>
    obtain ⟨rfl, rfl⟩ := Prod.mk.inj (Except.ok.inj h)
    simp [unlines]
  | cons line lines ih =>
    rw [readManifestLines] at h
    by_cases hblank : line = ""
    · rw [if_pos hblank] at h
      rw [List.filter_cons_of_neg (by simpa using hblank)]
      exact ih h
    · rw [if_neg hblank] at h
      rw [List.filter_cons_of_pos (by simpa using hblank), unlines_cons, ← String.append_assoc]
      split at h
      · split at h
        · cases h
        · exact ih h
      · cases h

/-- The header that the planner writes is found in every text that begins with it. -/
theorem parseManifest_header (hsum : IsDigest (sha256 (unlines (manifestLines items ip))))
    (hcount : (filesOf items ip).length < 2 ^ 63)
    (htext : (split text '\n').head? = some (manifestHeader planId (manifestLines items ip).length
      (sha256 (unlines (manifestLines items ip))))) :
    parseManifest sha256 text =
      match readManifestLines 2 (split text '\n').tail "" [] with
      | .error message => .error message
      | .ok (body, entries) =>
        if (filesOf items ip).length ≠ entries.length ∨
            sha256 (unlines (manifestLines items ip)) ≠ sha256 body then
          .error (.damaged (manifestLines items ip).length.repr
            (sha256 (unlines (manifestLines items ip))) entries.length (sha256 body))
        else .ok (entries, sha256 body) := by
  have hlength : (manifestLines items ip).length = (filesOf items ip).length := by
    simp [manifestLines]
  have hwanted : wantedCount (manifestLines items ip).length.repr =
      ((filesOf items ip).length : ℤ) := by
    rw [wantedCount, atoi_repr, hlength, if_pos hcount]
    rfl
  have hfirst : (split text '\n').headD "" = manifestHeader planId (manifestLines items ip).length
      (sha256 (unlines (manifestLines items ip))) := by
    rw [List.headD_eq_head?_getD, htext]
    rfl
  unfold parseManifest
  simp only [hfirst, (manifestHeader_line hsum).2, matchHeader_manifestHeader hsum,
    hwanted, ne_eq, Int.natCast_inj]

/-- The lines of the planner's text. -/
theorem split_content (hsum : IsDigest (sha256 (unlines (manifestLines items ip))))
    (hnewline : ∀ line ∈ manifestLines items ip, '\n' ∉ line.toList) :
    split (rollbackManifest sha256 items planId ip).content '\n' =
      manifestHeader planId (manifestLines items ip).length
        (sha256 (unlines (manifestLines items ip))) :: (manifestLines items ip ++ [""]) := by
  have hcontent : (rollbackManifest sha256 items planId ip).content =
      unlines (manifestHeader planId (manifestLines items ip).length
        (sha256 (unlines (manifestLines items ip))) :: manifestLines items ip) :=
    (unlines_cons _ _).symm
  rw [hcontent, split_unlines]
  · rfl
  · intro line hline
    rcases List.mem_cons.mp hline with rfl | hline
    · exact (manifestHeader_line hsum).1
    · exact hnewline line hline

theorem filter_lines (items : List RollbackItem) (ip : String) :
    (manifestLines items ip).filter (· ≠ "") = manifestLines items ip := by
  apply List.filter_eq_self.mpr
  intro line hline
  obtain ⟨f, -, rfl⟩ := List.mem_map.mp hline
  simpa using manifestLine_ne f

/-- A text with the planner's first line and, blank lines apart, the planner's other lines is read
as the plan. -/
theorem parseManifest_same (hsum : IsDigest (sha256 (unlines (manifestLines items ip))))
    (hfiles : ∀ f ∈ filesOf items ip, f.Listable) (hcount : (filesOf items ip).length < 2 ^ 63)
    (hfirst : (split text '\n').head? = some (manifestHeader planId (manifestLines items ip).length
      (sha256 (unlines (manifestLines items ip)))))
    (hlines : (split text '\n').tail.filter (· ≠ "") = manifestLines items ip) :
    parseManifest sha256 text =
      .ok ((filesOf items ip).map FileRef.entry, sha256 (unlines (manifestLines items ip))) := by
  rw [parseManifest_header hsum hcount hfirst]
  have hread := @readManifestLines_blank (split text '\n').tail "" [] 2 2
  have hplan := @readManifestLines_files (filesOf items ip) "" [] 2 hfiles
  rw [hlines, manifestLines, hplan] at hread
  cases hok : readManifestLines 2 (split text '\n').tail "" [] with
  | error message =>
    rw [hok] at hread
    cases hread
  | ok r =>
    rw [hok] at hread
    obtain rfl := Option.some_inj.mp hread
    simp [manifestLines]

end Lines

/-- The digest of one text has no other text. -/
def OneToOneAt (sha256 : String → String) (body : String) : Prop :=
  ∀ other, sha256 other = sha256 body → other = body

/-- The actuator reads from the planner's text exactly the planned files in their order, under the
same fingerprint; and of the texts that keep the first line it reads this from those that differ
in blank lines only, and refuses all others. -/
theorem parseManifest_rollbackManifest (sha256 : String → String) (items : List RollbackItem)
    (planId : ℤ) (ip : String) (hdigest : ∀ s, IsDigest (sha256 s))
    (honeToOne : OneToOneAt sha256 (unlines (manifestLines items ip)))
    (hfiles : ∀ f ∈ filesOf items ip, f.Listable) (hcount : (filesOf items ip).length < 2 ^ 63) :
    let manifest := rollbackManifest sha256 items planId ip
    let planned := ((filesOf items ip).map FileRef.entry, manifest.fingerprint)
    parseManifest sha256 manifest.content = .ok planned ∧
      ∀ text, (split text '\n').head? = (split manifest.content '\n').head? →
        if (split text '\n').tail.filter (· ≠ "") = manifestLines items ip then
          parseManifest sha256 text = .ok planned
        else ∃ message, parseManifest sha256 text = .error message := by
  intro manifest planned
  have hsum := hdigest (unlines (manifestLines items ip))
  have hnewline : ∀ line ∈ manifestLines items ip, '\n' ∉ line.toList := by
    intro line hline
    obtain ⟨f, hf, rfl⟩ := List.mem_map.mp hline
    exact manifestLine_no_newline (hfiles f hf)
  have hsplit : split manifest.content '\n' =
      manifestHeader planId (manifestLines items ip).length manifest.fingerprint ::
        (manifestLines items ip ++ [""]) := split_content hsum hnewline
  have hfirst : (split manifest.content '\n').head? =
      some (manifestHeader planId (manifestLines items ip).length manifest.fingerprint) := by
    rw [hsplit]
    rfl
  constructor
  · apply parseManifest_same hsum hfiles hcount hfirst
    rw [hsplit, List.tail_cons, List.filter_append, filter_lines]
    simp
  · intro text htext
    have htext := htext.trans hfirst
    split
    · rename_i hlines
      exact parseManifest_same hsum hfiles hcount htext hlines
    · rename_i hlines
      rw [parseManifest_header hsum hcount htext]
      cases hok : readManifestLines 2 (split text '\n').tail "" [] with
      | error message => exact ⟨message, rfl⟩
      | ok r =>
        obtain ⟨body, entries⟩ := r
        have hbody := readManifestLines_body hok
        refine ⟨_, if_pos (Or.inr ?_)⟩
        intro hsame
        apply hlines
        apply unlines_injective ?_ hnewline
        · rw [← honeToOne body hsame.symm, hbody]
          simp
        · intro line hline
          exact mem_split_no_sep (List.mem_of_mem_tail (List.mem_filter.mp hline).1)

/-- A digest function that is the real one on the manifest of one file. -/
private def digestOf (s : String) : String :=
  if s = "a.tar 10 -\n" then "384a670cfdfb23a96aa85ef3d45008bcdf4cc36ff0ec809984d2d8595fe803a7"
  else "e3b0c44298fc1c149afbf4c8996fb92427ae41e4649b934ca495991b7852b855"

private theorem digestOf_isDigest (s : String) : IsDigest (digestOf s) := by
  unfold digestOf
  split
  · exact ⟨by decide, List.all_eq_true.mp (by decide)⟩
  · exact ⟨by decide, List.all_eq_true.mp (by decide)⟩

private def oneFile (fileName : String) : List RollbackItem := [⟨"1.1.1.1", [⟨fileName, 10⟩], []⟩]

private theorem manifestLines_oneFile (fileName : String) :
    manifestLines (oneFile fileName) "1.1.1.1" = [fileName ++ " 10 -"] := by
  have htail : " " ++ (decimal 10 ++ (" " ++ MANIFEST_NO_MD5)) = " 10 -" := by decide
  have hline : manifestLine ⟨fileName, 10⟩ = fileName ++ " 10 -" := by
    rw [manifestLine, String.append_assoc, String.append_assoc, String.append_assoc, htail]
  exact congrArg (fun line => [line]) hline

private theorem listable_oneFile :
    ∀ f ∈ filesOf (oneFile "a.tar") "1.1.1.1", f.Listable := by
  intro f hf
  obtain rfl : f = ⟨"a.tar", 10⟩ := List.mem_singleton.mp hf
  exact ⟨isWord_of_all (by decide) (by decide), by decide⟩

private theorem unlines_oneFile :
    unlines (manifestLines (oneFile "a.tar") "1.1.1.1") = "a.tar 10 -\n" := by
  rw [manifestLines_oneFile]
  decide

theorem parseManifest_one_file :
    parseManifest digestOf (rollbackManifest digestOf (oneFile "a.tar") 7 "1.1.1.1").content =
      .ok ([⟨"a.tar", 10, "-"⟩],
        "384a670cfdfb23a96aa85ef3d45008bcdf4cc36ff0ec809984d2d8595fe803a7") := by
  have hone : OneToOneAt digestOf (unlines (manifestLines (oneFile "a.tar") "1.1.1.1")) := by
    rw [unlines_oneFile]
    intro other hother
    by_contra hne
    rw [digestOf, if_neg hne] at hother
    exact absurd hother (by decide)
  have hread := (parseManifest_rollbackManifest digestOf (oneFile "a.tar") 7 "1.1.1.1"
    digestOf_isDigest hone listable_oneFile (by decide)).1
  have hfingerprint : (rollbackManifest digestOf (oneFile "a.tar") 7 "1.1.1.1").fingerprint =
      digestOf (unlines (manifestLines (oneFile "a.tar") "1.1.1.1")) := rfl
  rw [hread, hfingerprint, unlines_oneFile]
  rfl

/-- Every name is read back, and every other text is refused. -/
def RoundTrips (sha256 : String → String) (items : List RollbackItem) (planId : ℤ) (ip : String) :
    Prop :=
  let manifest := rollbackManifest sha256 items planId ip
  parseManifest sha256 manifest.content =
      .ok ((filesOf items ip).map FileRef.entry, manifest.fingerprint) ∧
    ∀ text, text ≠ manifest.content →
      (split text '\n').head? = (split manifest.content '\n').head? →
      ∃ message, parseManifest sha256 text = .error message

private theorem newline_oneFile {fileName : String} (h : '\n' ∉ fileName.toList) :
    ∀ line ∈ manifestLines (oneFile fileName) "1.1.1.1", '\n' ∉ line.toList := by
  intro line hline
  rw [manifestLines_oneFile] at hline
  obtain rfl := List.mem_singleton.mp hline
  rw [String.toList_append, List.mem_append, not_or]
  exact ⟨h, by decide⟩

/-- A name with a blank in it is not read back, and a blank line added is not noticed. -/
theorem manifest_blanks :
    ¬ RoundTrips digestOf (oneFile "a b.tar") 7 "1.1.1.1" ∧
      ¬ RoundTrips digestOf (oneFile "a.tar") 7 "1.1.1.1" := by
  constructor
  · intro h
    have hsplit := @split_content digestOf (oneFile "a b.tar") 7 "1.1.1.1" (digestOf_isDigest _)
      (newline_oneFile (by decide))
    have hread := h.1
    rw [parseManifest_header (digestOf_isDigest _) (by decide) (congrArg List.head? hsplit), hsplit,
      List.tail_cons, manifestLines_oneFile, List.singleton_append, readManifestLines,
      if_neg (by decide)] at hread
    have hfields : fields ("a b.tar" ++ " 10 -") = ["a", "b.tar", "10", "-"] := by decide +kernel
    rw [hfields] at hread
    cases hread
  · intro h
    have hcontent := @split_content digestOf (oneFile "a.tar") 7 "1.1.1.1" (digestOf_isDigest _)
      (newline_oneFile (by decide))
    have hsplit : split ((rollbackManifest digestOf (oneFile "a.tar") 7 "1.1.1.1").content ++ "\n")
        '\n' = split (rollbackManifest digestOf (oneFile "a.tar") 7 "1.1.1.1").content '\n' ++
          [""] := by
      have hlist : ((rollbackManifest digestOf (oneFile "a.tar") 7 "1.1.1.1").content ++ "\n").toList =
          (rollbackManifest digestOf (oneFile "a.tar") 7 "1.1.1.1").content.toList ++ '\n' :: [] := by
        simp
      rw [split, hlist, List.splitOn_append_cons_self, List.map_append]
      rfl
    rw [hcontent] at hsplit
    have hread := @parseManifest_same digestOf (oneFile "a.tar") 7 "1.1.1.1" _ (digestOf_isDigest _)
      listable_oneFile (by decide) (congrArg List.head? hsplit) (by
        rw [hsplit, List.cons_append, List.tail_cons, List.append_assoc, List.filter_append,
          filter_lines]
        simp)
    obtain ⟨message, herror⟩ := h.2 _ (by simp) ((congrArg List.head? hsplit).trans
      (congrArg List.head? hcontent).symm)
    rw [hread] at herror
    cases herror

end Rollback
