import BluekingDbm.Failover.Instance
import BluekingDbm.Library.Ranging
import BluekingDbm.Library.Table

/-! The sliding windows of the businesses: failures of one instance and event are merged into one
entry until its first occurrence is old enough, and instances being switched are not pushed. -/
namespace Failover

structure FailureWindowEntry extends Instance where
  firstAt : ℤ
deriving DecidableEq

structure SlidingWindow where
  windowDuration : ℤ
  byKey : AList fun _ : String => FailureWindowEntry

def newSlidingWindow (windowDuration : ℤ) : SlidingWindow := ⟨windowDuration, ∅⟩

namespace SlidingWindow

/-- Merge into the entry of the same instance and event, which keeps its first time. -/
def push (w : SlidingWindow) (inst : Instance) (at' : ℤ) : SlidingWindow :=
  match w.byKey.lookup inst.eventKey with
  | some e => { w with byKey := w.byKey.insert inst.eventKey { e with count := e.count + 1 } }
  | none =>
    { w with byKey := w.byKey.insert inst.eventKey { inst with count := 1, firstAt := at' } }

/-- The entry has slid out of the window. -/
def Matured (w : SlidingWindow) (now : ℤ) (e : FailureWindowEntry) : Bool :=
  e.firstAt < now - w.windowDuration

/-- Equal times come in the order in which the map was ranged over. -/
def pop (w : SlidingWindow) (now : ℤ) (r : RangeOrder FailureWindowEntry) :
    List FailureWindowEntry × SlidingWindow :=
  let result := r.order (Table.values (Table.keep w.byKey (w.Matured now)))
  (result.mergeSort fun a b => a.firstAt ≤ b.firstAt,
    { w with byKey := Table.keep w.byKey fun e => !w.Matured now e })

def len (w : SlidingWindow) : ℕ := w.byKey.entries.length

end SlidingWindow

/-- `inflight` holds for an instance since when it is being switched. -/
structure BizWindowManager where
  windowDuration : ℤ
  inflightTTL : ℤ
  windows : ℤ → Option SlidingWindow
  inflight : String → Option ℤ

def newBizWindowManager (windowDuration inflightTTL : ℤ) : BizWindowManager :=
  ⟨windowDuration, inflightTTL, fun _ => none, fun _ => none⟩

namespace BizWindowManager

def getOrCreateWindowLocked (m : BizWindowManager) (bizId : ℤ) : SlidingWindow :=
  (m.windows bizId).getD (newSlidingWindow m.windowDuration)

def pushLocked (m : BizWindowManager) (bizId : ℤ) (inst : Instance) (at' : ℤ) :
    BizWindowManager :=
  { m with
    windows := Function.update m.windows bizId
      (some ((m.getOrCreateWindowLocked bizId).push inst at')) }

/-- `clock` is the time at which the mark is looked at. -/
def push (m : BizWindowManager) (bizId : ℤ) (inst : Instance) (at' clock : ℤ) :
    Bool × BizWindowManager :=
  match m.inflight inst.windowKey with
  | some startAt =>
    if clock - startAt < m.inflightTTL then (false, m)
    else
      -- the mark has expired
      let m := { m with inflight := Function.update m.inflight inst.windowKey none }
      (true, m.pushLocked bizId inst at')
  | none => (true, m.pushLocked bizId inst at')

/-- An empty window is dropped. -/
def setWindow (m : BizWindowManager) (bizId : ℤ) (w : SlidingWindow) : BizWindowManager :=
  { m with windows := Function.update m.windows bizId (if w.len = 0 then none else some w) }

/-- The entries of a business that have slid out of their window. -/
def matured (m : BizWindowManager) (bizId now : ℤ) : List FailureWindowEntry :=
  ((m.windows bizId).map fun w => (Table.values w.byKey).filter (w.Matured now)).getD []

def pop (m : BizWindowManager) (bizId now : ℤ) (r : RangeOrder FailureWindowEntry) :
    List FailureWindowEntry × BizWindowManager :=
  match m.windows bizId with
  | none => ([], m)
  | some w =>
    let (result, w) := w.pop now r
    (result, m.setWindow bizId w)

def markStart (m : BizWindowManager) (entries : List FailureWindowEntry) (now : ℤ) :
    BizWindowManager :=
  { m with
    inflight := entries.foldl
      (fun marks e => Function.update marks e.windowKey (some now)) m.inflight }

def popAndMarkStart (m : BizWindowManager) (bizId now : ℤ) (r : RangeOrder FailureWindowEntry) :
    List FailureWindowEntry × BizWindowManager :=
  match m.windows bizId with
  | none => ([], m)
  | some w =>
    let (result, w) := w.pop now r
    (result, (m.markStart result now).setWindow bizId w)

def markDone (m : BizWindowManager) (instanceKey : String) : BizWindowManager :=
  { m with inflight := Function.update m.inflight instanceKey none }

end BizWindowManager

variable {w : SlidingWindow} {m : BizWindowManager} {bizId b now clock at' : ℤ} {inst : Instance}
  {e : FailureWindowEntry} {k : String} {r : RangeOrder FailureWindowEntry}

theorem pop_perm :
    (w.pop now r).1.Perm ((Table.values w.byKey).filter (w.Matured now)) := by
  rw [← Table.values_keep]
  exact (List.mergeSort_perm _ _).trans (r.perm _)

theorem pop_sorted : (w.pop now r).1.Pairwise fun a b => a.firstAt ≤ b.firstAt := by
  have hsorted : (w.pop now r).1.Pairwise fun a b => decide (a.firstAt ≤ b.firstAt) = true := by
    apply List.pairwise_mergeSort
    · intro a b c hab hbc
      simp only [decide_eq_true_eq] at hab hbc ⊢
      omega
    · intro a b
      simp only [Bool.or_eq_true, decide_eq_true_eq]
      omega
  exact hsorted.imp fun h => of_decide_eq_true h

theorem pop_rest (k : String) :
    (w.pop now r).2.byKey.lookup k = (w.byKey.lookup k).filter fun e => !w.Matured now e :=
  Table.lookup_keep ..

/-- What a push leaves under each key of the window. -/
theorem lookup_push (k : String) :
    (w.push inst at').byKey.lookup k =
      if k = inst.eventKey then
        some (((w.byKey.lookup k).map fun e => { e with count := e.count + 1 }).getD
          { inst with count := 1, firstAt := at' })
      else w.byKey.lookup k := by
  unfold SlidingWindow.push
  by_cases hk : k = inst.eventKey
  · subst hk
    cases hl : w.byKey.lookup inst.eventKey with
    | none => simp [AList.lookup_insert]
    | some e => simp [AList.lookup_insert]
  · cases hl : w.byKey.lookup inst.eventKey with
    | none => simp [hk, AList.lookup_insert_ne hk]
    | some e => simp [hk, AList.lookup_insert_ne hk]

end Failover
