import BluekingDbm.Library.Numeral
import BluekingDbm.Library.Timestamp
import BluekingDbm.Rotate.Binlog
import Mathlib.Data.List.InsertIdx

/-! The binlogs that a rollback applies, as its two implementations select them. -/
namespace Restore

open Timestamp

/-- A moment whose year has four digits, with a day to spare, and the offset that its text has. -/
structure Moment where
  seconds : ℤ
  offset : Offset
  dated : (Calendar.firstDay + 2 - epoch) * 86400 ≤ seconds ∧
    seconds < (Calendar.lastDay - 1 - epoch) * 86400

/-- What is read from a binlog: `GetTimeIgnoreStopErr` gives its first and its last second. -/
inductive Read
  | noSuchFile
  | failed
  | events (startTime stopTime fileSize : ℕ)

/-- What the two components are told; a start time that is not given is none, as is a stop time
that cannot be read. -/
structure BinlogParam where
  binlogFiles : List String
  binlogStartFile : String
  startTime : Option Moment
  stopTime : Option Moment

inductive FilterError
  | binlogMissing
  | stopTimeParse
  | getTime
  deriving DecidableEq

/-- `cast.ToInt` behind its zeros: what is no number is zero. -/
def stringToInt (s : String) : ℤ :=
  (Numeral.atoi (String.ofList (s.toList.dropWhile (· = '0')))).getD 0

/-- `LastElement(strings.Split(name, "."))`, as a number. -/
def numSuffix (name : String) : ℤ := stringToInt (String.ofList (Rotate.afterDot name))

/-- `SortStringWithSuffixAsc`. -/
def sortStringWithSuffixAsc (names : List String) : List String :=
  names.mergeSort fun a b => numSuffix a ≤ numSuffix b

def stringsInsertIndex (ss : List String) (index : ℕ) (new : String) : List String :=
  if index < ss.length then ss.insertIdx index new else ss

/-- The files from the start file on, if there is one. -/
def fromStartFile (p : BinlogParam) : Except FilterError (List String) :=
  let sorted := sortStringWithSuffixAsc p.binlogFiles
  if p.binlogStartFile = "" then .ok sorted
  else if p.binlogStartFile ∉ sorted then .error .binlogMissing
  -- the files before it are emptied, and what is empty is removed
  else .ok ((sorted.dropWhile (· ≠ p.binlogStartFile)).filter (· ≠ ""))

/-- What the loop over the files does with one: it ends there, goes on with the next one at once,
takes the file, takes it and notes the first one, or only remembers it. -/
inductive Verdict
  | stop
  | skip
  | keep
  | find
  | pass

/-- The variables of the loop. -/
structure Scan where
  binlogFiles : List String
  totalSize : ℕ
  firstBinlogFound : Bool
  firstBinlogFile : String
  firstBinlogSize : ℕ
  lastBinlogFile : String
  lastBinlogSize : ℕ

def Scan.begin : Scan := ⟨[], 0, false, "", 0, "", 0⟩

def Scan.remember (s : Scan) (file : String) (fileSize : ℕ) : Scan :=
  { s with lastBinlogFile := file, lastBinlogSize := fileSize }

def Scan.take (s : Scan) (file : String) (fileSize : ℕ) : Scan :=
  { s with binlogFiles := s.binlogFiles ++ [file], totalSize := s.totalSize + fileSize }

/-- The file before the first one that is taken is noted. -/
def Scan.first (s : Scan) : Scan :=
  if s.firstBinlogFound then s
  else { s with
    firstBinlogFound := true
    firstBinlogFile := s.lastBinlogFile
    firstBinlogSize := s.lastBinlogSize }

def scan (read : String → Read) (verdict : ℕ → ℕ → Verdict) :
    List String → Scan → Except FilterError Scan
  | [], s => .ok s
  | file :: files, s =>
    match read file with
    | .noSuchFile => scan read verdict files s
    | .failed => .error .getTime
    | .events startTime stopTime fileSize =>
      match verdict startTime stopTime with
      | .stop => .ok s
      | .skip => scan read verdict files s
      | .keep => scan read verdict files ((s.take file fileSize).remember file fileSize)
      | .find => scan read verdict files ((s.first.take file fileSize).remember file fileSize)
      | .pass => scan read verdict files (s.remember file fileSize)

/-- The first file is put in front, unless the start is a file. -/
def Scan.result (p : BinlogParam) (s : Scan) : List String × ℕ :=
  if p.binlogStartFile = "" ∧ s.firstBinlogFile ≠ "" then
    (stringsInsertIndex s.binlogFiles 0 s.firstBinlogFile, s.totalSize + s.firstBinlogSize)
  else (s.binlogFiles, s.totalSize)

/-- Twenty minutes before the start time, and behind the stop time. -/
def slack : ℤ := 20 * 60

namespace RecoverBinlog

/-- Times are compared as texts, those of events being local. -/
def verdict (zone : Offset) (p : BinlogParam) (stop : Moment) (startTime stopTime : ℕ) : Verdict :=
  if rfc3339 stop.offset (stop.seconds + slack) < rfc3339 zone stopTime then .stop
  else if p.binlogStartFile ≠ "" then .keep
  else
    match p.startTime with
    | some start =>
      if rfc3339 start.offset (start.seconds - slack) < rfc3339 zone startTime then .find else .pass
    | none => .pass

/-- The files to be applied, and their size. -/
def filterBinlogFiles (zone : Offset) (read : String → Read) (p : BinlogParam) :
    Except FilterError (List String × ℕ) := do
  let files ← fromStartFile p
  match p.stopTime with
  | none => .error .stopTimeParse
  | some stop => return (← scan read (verdict zone p stop) files .begin).result p

end RecoverBinlog

namespace GoApplyBinlog

def verdict (p : BinlogParam) (stop : Moment) (startTime stopTime : ℕ) : Verdict :=
  let stopTimeFilter := stop.seconds + slack
  match p.startTime with
  | none =>
    if stopTimeFilter < stopTime then .stop
    else if p.binlogStartFile ≠ "" then .keep
    else .pass
  | some start =>
    let startTimeFilter := start.seconds - slack
    if stopTimeFilter < stopTime ∧ stopTimeFilter < startTime then .stop
    else if stopTime < startTimeFilter ∧ startTime < startTimeFilter then .skip
    else if p.binlogStartFile ≠ "" then .keep
    else if startTimeFilter ≤ startTime ∨ startTimeFilter ≤ stopTime then .find
    else .pass

/-- The files to be applied, and their size. -/
def filterBinlogFiles (read : String → Read) (p : BinlogParam) :
    Except FilterError (List String × ℕ) := do
  let files ← fromStartFile p
  match p.stopTime with
  | none => .error .stopTimeParse
  | some stop => return (← scan read (verdict p stop) files .begin).result p

end GoApplyBinlog

end Restore
