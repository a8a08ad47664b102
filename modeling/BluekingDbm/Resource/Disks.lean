import BluekingDbm.Library.Ranging
import BluekingDbm.Library.Text
import BluekingDbm.Library.Transversal
import Mathlib.Data.List.AList

/-! Disks for specifications that name no mount point: each takes the first disk that fits, in the
order in which the map of the disks happens to be ranged over. -/
namespace Resource

open Transversal

structure DiskSpec where
  diskType : String
  minSize : ℤ
  maxSize : ℤ
deriving DecidableEq

structure DiskDetail where
  size : ℤ
  diskType : String
deriving DecidableEq

/-- The disks of a host by mount point. -/
abbrev Disks := AList fun _ : String => DiskDetail

def diskDetailMatch (d : DiskDetail) (s : DiskSpec) : Bool :=
  if Text.trimSpace d.diskType ≠ Text.trimSpace s.diskType ∧ s.diskType ≠ "" then false
  else if d.size > s.maxSize ∧ s.maxSize > 0 then false
  else if d.size < s.minSize then false
  else true

/-- The first disk that fits is taken. -/
def takeDisk (r : RangeOrder (Sigma fun _ : String => DiskDetail)) (s : DiskSpec) (sinc : Disks) :
    Option Disks :=
  ((r.order sinc.entries).find? fun e => diskDetailMatch e.2 s).map fun e => sinc.erase e.1

/-- How many specifications find a disk; the map is ranged over anew for each. -/
def mcount (rs : ℕ → RangeOrder (Sigma fun _ : String => DiskDetail)) : List DiskSpec → Disks → ℕ
  | [], _ => 0
  | s :: spec, sinc =>
    match takeDisk (rs 0) s sinc with
    | some sinc => mcount (fun n => rs (n + 1)) spec sinc + 1
    | none => mcount (fun n => rs (n + 1)) spec sinc

def matchNoMountPointStorage (rs : ℕ → RangeOrder (Sigma fun _ : String => DiskDetail))
    (spec : List DiskSpec) (sinc : Disks) : Bool := mcount rs spec sinc == spec.length

/-- The disk has the type, if one is asked for, and its size is in the range. -/
structure Satisfies (d : DiskDetail) (s : DiskSpec) : Prop where
  diskType : s.diskType = "" ∨ Text.trimSpace d.diskType = Text.trimSpace s.diskType
  minSize : s.minSize ≤ d.size
  maxSize : 0 < s.maxSize → d.size ≤ s.maxSize

/-- The disk at the mount point satisfies the specification. -/
def Fits (sinc : Disks) (s : DiskSpec) (mp : String) : Prop :=
  ∃ d, sinc.lookup mp = some d ∧ Satisfies d s

/-- Different disks, one for each specification. -/
def Assignable (spec : List DiskSpec) (sinc : Disks) : Prop :=
  Servable (Fits sinc) sinc.keys.toFinset spec

/-- The answer is yes just if the disks can be assigned, and the order of the map has no part in it. -/
structure MatchesExactly (spec : List DiskSpec) (sinc : Disks) : Prop where
  exact : ∀ rs, matchNoMountPointStorage rs spec sinc = true ↔ Assignable spec sinc
  orderless : ∀ rs rs', matchNoMountPointStorage rs spec sinc = matchNoMountPointStorage rs' spec sinc

section Matching

variable {d : DiskDetail} {s : DiskSpec} {sinc held : Disks} {mp : String} {spec : List DiskSpec}
  {rs : ℕ → RangeOrder (Sigma fun _ : String => DiskDetail)}

theorem diskDetailMatch_iff : diskDetailMatch d s = true ↔ Satisfies d s := by
  rw [diskDetailMatch]
  split
  case isTrue h =>
    refine iff_of_false Bool.false_ne_true ?_
    intro hs
    rcases hs.diskType with hany | hsame
    · exact h.2 hany
    · exact h.1 hsame
  case isFalse htype =>
    split
    case isTrue h =>
      refine iff_of_false Bool.false_ne_true ?_
      intro hs
      have hle := hs.maxSize h.2
      omega
    case isFalse hmax =>
      split
      case isTrue h =>
        refine iff_of_false Bool.false_ne_true ?_
        intro hs
        have hle := hs.minSize
        omega
      case isFalse hmin =>
        refine iff_of_true rfl ⟨?_, by omega, by omega⟩
        by_contra hnone
        obtain ⟨hnamed, hother⟩ := not_or.mp hnone
        exact htype ⟨hother, hnamed⟩

theorem fits_iff : Fits sinc s mp ↔ (sinc.lookup mp).any (fun d => diskDetailMatch d s) = true := by
  rw [Fits]
  cases sinc.lookup mp with
  | none => simp
  | some d => simp [diskDetailMatch_iff]

instance (sinc : Disks) : DecidableRel (Fits sinc) := fun _ _ => decidable_of_iff _ fits_iff.symm

/-- What is left of the disks. -/
def LeftOf (sinc held : Disks) : Prop := ∀ mp d, held.lookup mp = some d → sinc.lookup mp = some d

theorem LeftOf.erase (h : LeftOf sinc held) (mp : String) : LeftOf sinc (held.erase mp) := by
  intro k d hk
  by_cases heq : k = mp
  · rw [heq, AList.lookup_erase] at hk
    cases hk
  · rw [AList.lookup_erase_ne heq] at hk
    exact h k d hk

theorem keys_erase (held : Disks) (mp : String) :
    (held.erase mp).keys.toFinset = held.keys.toFinset.erase mp := by
  ext k
  rw [List.mem_toFinset, Finset.mem_erase, List.mem_toFinset]
  exact AList.mem_erase

/-- A disk that is left fits just as before. -/
theorem LeftOf.fits_iff (h : LeftOf sinc held) (hmem : mp ∈ held.keys.toFinset) :
    Fits sinc s mp ↔ ∃ d, held.lookup mp = some d ∧ Satisfies d s := by
  obtain ⟨d, hd⟩ := Option.isSome_iff_exists.mp (AList.lookup_isSome.mpr (List.mem_toFinset.mp hmem))
  constructor
  · rintro ⟨e, he, hs⟩
    obtain rfl := Option.some.inj ((h mp d hd).symm.trans he)
    exact ⟨d, hd, hs⟩
  · rintro ⟨e, he, hs⟩
    exact ⟨e, h mp e he, hs⟩

/-- A disk is taken if it fits, and one is taken if any does. -/
theorem takeDisk_cases (r : RangeOrder (Sigma fun _ : String => DiskDetail)) (h : LeftOf sinc held) :
    (∃ mp ∈ held.keys.toFinset, Fits sinc s mp ∧ takeDisk r s held = some (held.erase mp)) ∨
      (∀ mp ∈ held.keys.toFinset, ¬ Fits sinc s mp) ∧ takeDisk r s held = none := by
  rw [takeDisk]
  cases hfind : (r.order held.entries).find? fun e => diskDetailMatch e.2 s with
  | some e =>
    have hmem := r.mem_order.mp (List.mem_of_find?_eq_some hfind)
    have hlookup : held.lookup e.1 = some e.2 := AList.mem_lookup_iff.mpr hmem
    have hkey : e.1 ∈ held.keys.toFinset := List.mem_toFinset.mpr (List.mem_keys_of_mem hmem)
    have hmatch : diskDetailMatch e.2 s = true := by simpa using List.find?_some hfind
    exact Or.inl ⟨e.1, hkey, (h.fits_iff hkey).mpr ⟨e.2, hlookup, diskDetailMatch_iff.mp hmatch⟩, rfl⟩
  | none =>
    refine Or.inr ⟨?_, rfl⟩
    intro mp hmem hfits
    obtain ⟨d, hd, hs⟩ := (h.fits_iff hmem).mp hfits
    have hentry := r.mem_order.mpr (AList.mem_lookup_iff.mp hd)
    exact List.find?_eq_none.mp hfind _ hentry (diskDetailMatch_iff.mpr hs)

/-- The disk that comes first is taken. -/
theorem takeDisk_front (h : LeftOf sinc held) (hmem : mp ∈ held.keys.toFinset)
    (hfits : Fits sinc s mp) :
    ∃ d, takeDisk (.front ⟨mp, d⟩) s held = some (held.erase mp) := by
  obtain ⟨d, hd, hs⟩ := (h.fits_iff hmem).mp hfits
  have hentry := AList.mem_lookup_iff.mp hd
  refine ⟨d, ?_⟩
  have horder : (RangeOrder.front (⟨mp, d⟩ : Sigma fun _ : String => DiskDetail)).order held.entries =
      ⟨mp, d⟩ :: held.entries.erase ⟨mp, d⟩ := if_pos hentry
  have hmatch : diskDetailMatch d s = true := diskDetailMatch_iff.mpr hs
  rw [takeDisk, horder, List.find?_cons, hmatch]
  rfl

theorem mcount_le (rs : ℕ → RangeOrder (Sigma fun _ : String => DiskDetail)) (spec : List DiskSpec)
    (held : Disks) : mcount rs spec held ≤ spec.length := by
  induction spec generalizing rs held with
  | nil => exact le_rfl
  | cons s spec ih =>
    rw [mcount, List.length_cons]
    split
    · exact Nat.succ_le_succ (ih _ _)
    · exact (ih _ _).trans (Nat.le_succ _)

/-- All specifications find a disk just if the first does and the others do with what is left. -/
theorem mcount_cons_eq (hleft : LeftOf sinc held) : mcount rs (s :: spec) held = (s :: spec).length ↔
    ∃ mp ∈ held.keys.toFinset, Fits sinc s mp ∧ takeDisk (rs 0) s held = some (held.erase mp) ∧
      mcount (fun n => rs (n + 1)) spec (held.erase mp) = spec.length := by
  rw [mcount, List.length_cons]
  rcases takeDisk_cases (s := s) (rs 0) hleft with ⟨mp, hmem, hfits, htake⟩ | ⟨hnone, htake⟩
  · rw [htake]
    dsimp only
    constructor
    · intro h
      exact ⟨mp, hmem, hfits, rfl, by omega⟩
    · rintro ⟨mp', -, -, heq, h⟩
      rw [Option.some.inj heq]
      omega
  · rw [htake]
    dsimp only
    have hle := mcount_le (fun n => rs (n + 1)) spec held
    refine iff_of_false (by omega) ?_
    rintro ⟨mp, hmem, hfits, -⟩
    exact hnone mp hmem hfits

/-- What is found is an assignment. -/
theorem serves_of_mcount (hleft : LeftOf sinc held) (h : mcount rs spec held = spec.length) :
    Servable (Fits sinc) held.keys.toFinset spec := by
  induction spec generalizing rs held with
  | nil => exact ⟨[], .nil, List.nodup_nil, by simp⟩
  | cons s spec ih =>
    obtain ⟨mp, hmem, hfits, -, hrest⟩ := (mcount_cons_eq hleft).mp h
    obtain ⟨ds, hds⟩ := ih (hleft.erase mp) hrest
    rw [keys_erase] at hds
    exact ⟨mp :: ds, serves_cons.mpr ⟨hfits, hmem, hds⟩⟩

/-- All orders lead to an assignment just if the specifications never get stuck. -/
theorem forall_mcount_iff (hleft : LeftOf sinc held) :
    (∀ rs, mcount rs spec held = spec.length) ↔ NeverStuck (Fits sinc) held.keys.toFinset spec := by
  induction spec generalizing held with
  | nil => exact iff_of_true (fun _ => rfl) trivial
  | cons s spec ih =>
    constructor
    · intro h
      refine ⟨?_, ?_⟩
      · obtain ⟨mp, hmem, hfits, -⟩ := (mcount_cons_eq hleft).mp (h fun _ => .still)
        exact ⟨mp, hmem, hfits⟩
      · intro mp hmem hfits
        rw [← keys_erase]
        refine (ih (hleft.erase mp)).mp ?_
        intro rs
        obtain ⟨d, hfront⟩ := takeDisk_front hleft hmem hfits
        -- the orders that begin with this disk
        let rs' : ℕ → RangeOrder (Sigma fun _ : String => DiskDetail)
          | 0 => .front ⟨mp, d⟩
          | n + 1 => rs n
        obtain ⟨mp', -, -, htake, hrest⟩ := (mcount_cons_eq hleft).mp (h rs')
        have hsame : held.erase mp = held.erase mp' := Option.some.inj (hfront.symm.trans htake)
        rw [hsame]
        exact hrest
    · rintro ⟨⟨mp₀, hmem₀, hfits₀⟩, hrest⟩ rs
      refine (mcount_cons_eq hleft).mpr ?_
      rcases takeDisk_cases (s := s) (rs 0) hleft with ⟨mp, hmem, hfits, htake⟩ | ⟨hnone, -⟩
      · refine ⟨mp, hmem, hfits, htake, (ih (hleft.erase mp)).mpr ?_ _⟩
        rw [keys_erase]
        exact hrest mp hmem hfits
      · exact absurd hfits₀ (hnone mp₀ hmem₀)

theorem matchNoMountPointStorage_iff :
    matchNoMountPointStorage rs spec sinc = true ↔ mcount rs spec sinc = spec.length := beq_iff_eq

end Matching

/-- The disks are matched exactly just if they cannot be assigned at all, or each specification fits
more disks, of some set, than there are specifications before it that any of them fits. -/
theorem matchesExactly_iff (spec : List DiskSpec) (sinc : Disks) :
    MatchesExactly spec sinc ↔
      (Assignable spec sinc → Reserved (Fits sinc) sinc.keys.toFinset spec) := by
  have hleft : LeftOf sinc sinc := fun _ _ h => h
  constructor
  · intro h hassign
    refine (neverStuck_iff_reserved hassign).mp ((forall_mcount_iff hleft).mp ?_)
    intro rs
    exact matchNoMountPointStorage_iff.mp ((h.exact rs).mpr hassign)
  · intro h
    have hexact : ∀ rs, matchNoMountPointStorage rs spec sinc = true ↔ Assignable spec sinc := by
      intro rs
      rw [matchNoMountPointStorage_iff]
      constructor
      · exact serves_of_mcount hleft
      · intro hassign
        exact (forall_mcount_iff hleft).mpr ((neverStuck_iff_reserved hassign).mpr (h hassign)) rs
    refine ⟨hexact, ?_⟩
    intro rs rs'
    exact Bool.eq_iff_iff.mpr ((hexact rs).trans (hexact rs').symm)

/-- One disk of each type, and specifications of which the first takes either. -/
def anyThenSsd : List DiskSpec := [⟨"", 100, 0⟩, ⟨"SSD", 100, 0⟩]

def twoDisks : Disks := [⟨"/data", ⟨500, "SSD"⟩⟩, ⟨"/data1", ⟨500, "HDD"⟩⟩].toAList

/-- If the first specification takes the SSD, the second finds none. -/
theorem anyThenSsd_by_chance :
    matchNoMountPointStorage (fun _ => .still) anyThenSsd twoDisks = false ∧
      matchNoMountPointStorage (fun _ => .front ⟨"/data1", ⟨500, "HDD"⟩⟩) anyThenSsd twoDisks = true ∧
      ¬ MatchesExactly anyThenSsd twoDisks := by
  have hstill : matchNoMountPointStorage (fun _ => .still) anyThenSsd twoDisks = false := by
    decide +kernel
  have hfront : matchNoMountPointStorage (fun _ => .front ⟨"/data1", ⟨500, "HDD"⟩⟩) anyThenSsd
      twoDisks = true := by decide +kernel
  refine ⟨hstill, hfront, ?_⟩
  intro h
  rw [h.orderless (fun _ => .still) fun _ => .front ⟨"/data1", ⟨500, "HDD"⟩⟩, hfront] at hstill
  cases hstill

end Resource
