import BluekingDbm.Cutover.Run
import Mathlib.Data.List.Nodup

/-! A task is stopped when all sources that are locked have caught up. -/
namespace Cutover

/-- The base name of each source's binlogs, and where its master and its syncer are at each reply, the
first of which is the one after the locks. -/
structure History where
  base : String → String
  master : ℕ → String → Place
  syncer : ℕ → String → Place

/-- The places that a reply gives are where the sources it lists are at that time. -/
def History.Tells (h : History) (n : ℕ) (items : List TaskStatusItem) : Prop :=
  ∀ item ∈ items, ∀ ss, item.syncStatus = some ss →
    (∀ coord, parseBinlogCoord ss.masterBinlog = some coord →
      coord = (h.master n (statusSourceKey item)).coord (h.base (statusSourceKey item))) ∧
    ∀ coord, parseBinlogCoord ss.syncerBinlog = some coord →
      coord = (h.syncer n (statusSourceKey item)).coord (h.base (statusSourceKey item))

/-- Every reply is true at its time. -/
structure History.Holds (h : History) (env : Env) : Prop where
  snapshot : ∀ items, env.snapshot = some items → h.Tells 0 items
  polls : ∀ n items, env.polls n = some items → h.Tells (n + 1) items

/-- The reply gives the place of the source's master. -/
def Marked (h : History) (src : String) (items : List TaskStatusItem) : Prop :=
  ∃ item ∈ items, statusSourceKey item = src ∧ Placed item ((h.master 0 src).coord (h.base src))

/-- The reply lists the source, with its syncer where its master was after the locks, or past that. -/
def CaughtUp (h : History) (src : String) (items : List TaskStatusItem) : Prop :=
  ∃ item ∈ items, statusSourceKey item = src ∧ ∃ ss place, item.syncStatus = some ss ∧
    parseBinlogCoord ss.syncerBinlog = some (Place.coord (h.base src) place) ∧ h.master 0 src ≤ place

/-- The replies that were received. -/
def replies (trace : List Event) : List (List TaskStatusItem) :=
  trace.filterMap fun e =>
    match e with
    | .status items => items
    | _ => none

/-- The first of the replies gives the master's place of every endpoint's source, and in each of the
last ones, as many as are asked for, every endpoint's source has caught up. -/
def Covered (h : History) (p : Params) (received : List (List TaskStatusItem)) : Prop :=
  ∃ q snapshot polls last, p.init = .ok q ∧ received = snapshot :: polls ∧ last <:+ polls ∧
    (last.length : ℤ) = q.catchupRecheck ∧
      ∀ ep ∈ p.sourceEndpoints, Marked h ep.sourceName snapshot ∧
        ∀ items ∈ last, CaughtUp h ep.sourceName items

/-- A stop follows replies that cover the endpoints, without one there is an error, and what was
locked is unlocked once. -/
structure Safe (h : History) (env : Env) (p : Params) : Prop where
  stopped : .stop ∈ (run env p).trace →
    Covered h p (replies ((run env p).trace.takeWhile (· ≠ .stop)))
  refused : .stop ∉ (run env p).trace → ∃ e, (run env p).result = .error e
  unlocked : ∀ ep, .lock ep ∈ (run env p).trace → (run env p).trace.count (.unlock ep) = 1

variable {h : History} {env : Env} {p q : Params} {items statusItems : List TaskStatusItem}
  {snapshots : Snapshots} {polls : ℕ → Option (List TaskStatusItem)} {recheck consecutive : ℤ}
  {left attempt : ℕ} {lastErr : Option StatusError} {ep : SourceEndpoint}
  {eps : List SourceEndpoint} {front : List (List TaskStatusItem)} {src : String}

/-- The numbers of polls that a cutover is made with. -/
theorem init_ok (hinit : p.init = .ok q) : q.sourceEndpoints = p.sourceEndpoints ∧
    1 ≤ q.catchupRecheck ∧ q.catchupRecheck ≤ q.catchupPollMax := by
  unfold Params.init at hinit
  repeat' split at hinit
  all_goals try cases hinit
  all_goals
    refine ⟨rfl, ?_, ?_⟩ <;> dsimp only [defaultCatchupRecheck, defaultCatchupPollMax] at * <;> omega

theorem pollLoop_status {e : Event}
    (he : e ∈ (pollLoop polls snapshots recheck left attempt consecutive lastErr).trace) :
    ∃ seen, e = .status seen := by
  induction left generalizing attempt consecutive lastErr with
  | zero => cases he
  | succ left ih =>
    unfold pollLoop at he
    dsimp only at he
    split at he
    · exact ⟨_, List.mem_singleton.mp he⟩
    · split at he
      · exact ⟨_, List.mem_singleton.mp he⟩
      · rcases List.mem_cons.mp he with rfl | hrest
        · exact ⟨_, rfl⟩
        · exact ih hrest
      · split at he
        · exact ⟨_, List.mem_singleton.mp he⟩
        · rcases List.mem_cons.mp he with rfl | hrest
          · exact ⟨_, rfl⟩
          · exact ih hrest

/-- A loop that ends well does so behind as many passing replies as are asked for, of which it has
counted the ones in front. -/
theorem pollLoop_ok (hrecheck : 1 ≤ recheck)
    (hfront : ∀ items ∈ front, decideCatchupPoll items snapshots = .pass)
    (hcount : (front.length : ℤ) = consecutive) (hshort : consecutive < recheck)
    (hok : (pollLoop polls snapshots recheck left attempt consecutive lastErr).result =
      .ok statusItems) :
    ∃ received last : List (List TaskStatusItem),
      (pollLoop polls snapshots recheck left attempt consecutive lastErr).trace =
        received.map (fun items => .status (some items)) ∧
      (∀ items ∈ received, ∃ n, polls n = some items) ∧ last <:+ front ++ received ∧
        (last.length : ℤ) = recheck ∧ ∀ items ∈ last, decideCatchupPoll items snapshots = .pass := by
  induction left generalizing attempt consecutive lastErr front with
  | zero => cases hok
  | succ left ih =>
    unfold pollLoop at hok ⊢
    dsimp only at hok ⊢
    cases hpoll : polls attempt with
    | none =>
      rw [hpoll] at hok
      cases hok
    | some items =>
      rw [hpoll] at hok
      dsimp only at hok ⊢
      cases hdecide : decideCatchupPoll items snapshots with
      | abort e =>
        rw [hdecide] at hok
        cases hok
      | retry e =>
        rw [hdecide] at hok
        dsimp only at hok ⊢
        have hnone : (([] : List (List TaskStatusItem)).length : ℤ) = 0 := rfl
        obtain ⟨received, last, htrace, hpolls, hsuffix, hlength, hlast⟩ :=
          ih (List.forall_mem_nil _) hnone (by omega) hok
        refine ⟨items :: received, last, by rw [htrace]; rfl, ?_, ?_, hlength, hlast⟩
        · exact List.forall_mem_cons.mpr ⟨⟨attempt, hpoll⟩, hpolls⟩
        · exact hsuffix.trans ((List.suffix_cons items received).trans (List.suffix_append front _))
      | pass =>
        rw [hdecide] at hok
        dsimp only at hok ⊢
        have hpassed : ∀ r ∈ front ++ [items], decideCatchupPoll r snapshots = .pass := by
          intro r hr
          rcases List.mem_append.mp hr with hin | hin
          · exact hfront r hin
          · rw [List.mem_singleton.mp hin]
            exact hdecide
        split at hok
        · rename_i hdone
          rw [if_pos hdone]
          refine ⟨[items], front ++ [items], rfl, ?_, List.suffix_refl _, ?_, hpassed⟩
          · exact List.forall_mem_singleton.mpr ⟨attempt, hpoll⟩
          · rw [List.length_append, List.length_singleton]
            omega
        · rename_i hmore
          rw [if_neg hmore]
          have hlength : ((front ++ [items]).length : ℤ) = consecutive + 1 := by
            rw [List.length_append, List.length_singleton]
            omega
          obtain ⟨received, last, htrace, hpolls, hsuffix, hlast⟩ :=
            ih hpassed hlength (by omega) hok
          refine ⟨items :: received, last, ?_, ?_, ?_, hlast⟩
          · dsimp only
            rw [htrace]
            rfl
          · exact List.forall_mem_cons.mpr ⟨⟨attempt, hpoll⟩, hpolls⟩
          · rwa [List.append_assoc] at hsuffix

/-- Replies that all pass end the loop, if enough polls are left. -/
theorem pollLoop_passes (hpolls : ∀ n, polls n = some items)
    (hpass : decideCatchupPoll items snapshots = .pass) (hshort : consecutive < recheck)
    (hleft : recheck ≤ consecutive + left) :
    (pollLoop polls snapshots recheck left attempt consecutive lastErr).result = .ok items := by
  induction left generalizing attempt consecutive lastErr with
  | zero => exact absurd hshort (by omega)
  | succ left ih =>
    unfold pollLoop
    dsimp only
    rw [hpolls attempt]
    dsimp only
    rw [hpass]
    dsimp only
    split
    · rfl
    · rename_i hmore
      exact ih (by omega) (by omega)

/-- The endpoints that are locked, and that all are when none is in the way. -/
theorem lockSources_spec (env : Env) (q : Params) (eps : List SourceEndpoint) :
    (lockSources env q eps).1 <+: eps ∧
      ((lockSources env q eps).2 = none → (lockSources env q eps).1 = eps) ∧
      ((lockSources env q eps).2 = none ↔
        ∀ ep ∈ eps, env.lockSourceTables ep (q.scope ep) q.lockTables = true) := by
  induction eps with
  | nil => simp [lockSources]
  | cons ep eps ih =>
    obtain ⟨hstart, hsame, hall⟩ := ih
    unfold lockSources
    split
    · rename_i hlock
      refine ⟨List.cons_prefix_cons.mpr ⟨rfl, hstart⟩, fun hnone => ?_, ?_⟩
      · exact congrArg (ep :: ·) (hsame hnone)
      · rw [List.forall_mem_cons, ← hall]
        exact (and_iff_right hlock).symm
    · rename_i hlock
      refine ⟨List.nil_prefix, ?_, ?_, ?_⟩
      · intro hnone
        cases hnone
      · intro hnone
        cases hnone
      · intro hlocks
        exact absurd (hlocks ep List.mem_cons_self) hlock

/-- What is sent while the sources are locked: nothing but polls, and a stop behind replies that
pass, the first of them the one that the snapshots are taken from. -/
theorem whileLocked_cases (env : Env) (hrecheck : 1 ≤ q.catchupRecheck) :
    ((∀ e ∈ (whileLocked env q).trace, ∃ seen, e = .status seen) ∧
      ∃ e, (whileLocked env q).result = .error e) ∨
    ∃ snapshot snapshots received last after, env.snapshot = some snapshot ∧
      buildLockMasterSnapshots snapshot = .ok snapshots ∧
      (whileLocked env q).trace = (snapshot :: received).map (fun items => .status (some items)) ++
        .stop :: after ∧
      (∀ e ∈ after, ∀ ep, e ≠ .lock ep ∧ e ≠ .unlock ep) ∧
      (∀ items ∈ received, ∃ n, env.polls n = some items) ∧ last <:+ received ∧
        (last.length : ℤ) = q.catchupRecheck ∧
          ∀ items ∈ last, decideCatchupPoll items snapshots = .pass := by
  unfold whileLocked
  dsimp only
  cases hsnapshot : env.snapshot with
  | none => exact Or.inl ⟨fun e he => ⟨_, List.mem_singleton.mp he⟩, _, rfl⟩
  | some snapshot =>
    dsimp only
    cases hbuild : buildLockMasterSnapshots snapshot with
    | error e => exact Or.inl ⟨fun e he => ⟨_, List.mem_singleton.mp he⟩, _, rfl⟩
    | ok snapshots =>
      dsimp only
      cases hresult : (pollUntilCaughtUp env.polls snapshots q.catchupRecheck
          q.catchupPollMax).result with
      | error e =>
        refine Or.inl ⟨fun event hevent => ?_, _, rfl⟩
        rcases List.mem_cons.mp hevent with rfl | hin
        · exact ⟨_, rfl⟩
        · exact pollLoop_status hin
      | ok statusItems =>
        have hmax : max q.catchupRecheck 1 = q.catchupRecheck := max_eq_left hrecheck
        have hnone : (([] : List (List TaskStatusItem)).length : ℤ) = 0 := rfl
        obtain ⟨received, last, htrace, hpolls, hsuffix, hlength, hlast⟩ :=
          pollLoop_ok (le_max_right _ 1) (List.forall_mem_nil _) hnone (by omega) hresult
        obtain ⟨after, hafter, hothers⟩ : ∃ after,
            (stopAndReport env statusItems).trace = .stop :: after ∧
              ∀ e ∈ after, ∀ ep, e ≠ .lock ep ∧ e ≠ .unlock ep := by
          unfold stopAndReport
          split
          · exact ⟨_, rfl, by simp⟩
          · exact ⟨_, rfl, by simp⟩
        refine Or.inr ⟨snapshot, snapshots, received, last, after, rfl, hbuild, ?_, hothers, hpolls,
          hsuffix, hlength.trans hmax, hlast⟩
        dsimp only
        rw [pollUntilCaughtUp, htrace, hafter]
        rfl

theorem decideCatchupPoll_pass : decideCatchupPoll items snapshots = .pass ↔
    taskReportError items = none ∧ checkSnapshotCatchup items snapshots = .ok () := by
  unfold decideCatchupPoll
  constructor
  · intro hpass
    split at hpass
    · cases hpass
    · rename_i hnone
      split at hpass
      · cases hpass
      · rename_i hok
        exact ⟨hnone, hok⟩
  · rintro ⟨hnone, hok⟩
    rw [hnone, hok]

theorem mem_snapshots (hbuild : buildLockMasterSnapshots items = .ok snapshots) :
    src ∈ snapshots ↔ src ∈ items.map statusSourceKey := by
  unfold buildLockMasterSnapshots at hbuild
  split at hbuild
  · cases hbuild
  · rw [snapshotItems_mem hbuild]
    exact or_iff_right (AList.notMem_empty src)

theorem placed_of_mem {item : TaskStatusItem} (hbuild : buildLockMasterSnapshots items = .ok snapshots)
    (hitem : item ∈ items) : ∃ coord, Placed item coord := by
  unfold buildLockMasterSnapshots at hbuild
  split at hbuild
  · cases hbuild
  · exact snapshotItems_placed hbuild hitem

/-- The snapshot of a source is where its master was. -/
theorem lookup_snapshots {coord : BinlogCoord} (htells : h.Tells 0 items)
    (hbuild : buildLockMasterSnapshots items = .ok snapshots)
    (hlookup : snapshots.lookup src = some coord) : coord = (h.master 0 src).coord (h.base src) := by
  unfold buildLockMasterSnapshots at hbuild
  split at hbuild
  · cases hbuild
  · rcases snapshotItems_lookup hbuild hlookup with hnone | ⟨item, hitem, hkey, ss, hss, hcoord⟩
    · rw [AList.lookup_empty] at hnone
      cases hnone
    · subst hkey
      exact (htells item hitem ss hss).1 coord hcoord

theorem marked_of_mem (htells : h.Tells 0 items)
    (hbuild : buildLockMasterSnapshots items = .ok snapshots) (hsrc : src ∈ items.map statusSourceKey) :
    Marked h src items := by
  obtain ⟨item, hitem, rfl⟩ := List.mem_map.mp hsrc
  obtain ⟨coord, ss, hss, hcoord⟩ := placed_of_mem hbuild hitem
  refine ⟨item, hitem, rfl, ss, hss, ?_⟩
  rw [hcoord, (htells item hitem ss hss).1 coord hcoord]

/-- In a reply that passes every source of the snapshots has caught up. -/
theorem caughtUp_of_pass {n : ℕ} {snapshot : List TaskStatusItem} (hfirst : h.Tells 0 snapshot)
    (htells : h.Tells n items) (hbuild : buildLockMasterSnapshots snapshot = .ok snapshots)
    (hsrc : src ∈ snapshot.map statusSourceKey)
    (hpass : decideCatchupPoll items snapshots = .pass) : CaughtUp h src items := by
  obtain ⟨-, -, hitems, hkeys⟩ := checkSnapshotCatchup_ok.mp (decideCatchupPoll_pass.mp hpass).2
  obtain ⟨item, hitem, rfl⟩ := List.mem_map.mp (hkeys src ((mem_snapshots hbuild).mpr hsrc))
  obtain ⟨ss, snap, hss, -, hlookup, hcaught⟩ := checkItem_ok.mp (hitems item hitem)
  unfold isCaughtUpToSnapshot at hcaught
  split at hcaught
  · cases hcaught
  · split at hcaught
    · cases hcaught
    · rename_i coord hcoord
      have hplace := (htells item hitem ss hss).2 coord hcoord
      rw [hplace, lookup_snapshots hfirst hbuild hlookup] at hcaught
      refine ⟨item, hitem, rfl, ss, h.syncer n (statusSourceKey item), hss, ?_, ?_⟩
      · rw [hcoord, hplace]
      · exact compareBinlogCoord_coord.mp (of_decide_eq_true hcaught)

theorem count_lock_unlock {trace : List Event} (hnodup : eps.Nodup)
    (htrace : ∀ e ∈ trace, ∀ ep, e ≠ .lock ep ∧ e ≠ .unlock ep)
    (hlock : .lock ep ∈ eps.map Event.lock ++ trace ++ eps.reverse.map Event.unlock) :
    (eps.map Event.lock ++ trace ++ eps.reverse.map Event.unlock).count (.unlock ep) = 1 := by
  have hin : ep ∈ eps := by
    rcases List.mem_append.mp hlock with hfront | hback
    · rcases List.mem_append.mp hfront with hlocked | hmiddle
      · obtain ⟨other, hother, heq⟩ := List.mem_map.mp hlocked
        cases heq
        exact hother
      · exact absurd rfl (htrace _ hmiddle ep).1
    · obtain ⟨other, -, heq⟩ := List.mem_map.mp hback
      cases heq
  have hlocks : (eps.map Event.lock).count (.unlock ep) = 0 := by
    rw [List.count_eq_zero]
    simp
  have hmiddle : trace.count (.unlock ep) = 0 := by
    rw [List.count_eq_zero]
    intro hmem
    exact (htrace _ hmem ep).2 rfl
  have hinjective : Function.Injective Event.unlock := fun a b heq => by
    cases heq
    rfl
  have hunlocks : (eps.reverse.map Event.unlock).count (.unlock ep) = 1 :=
    List.count_eq_one_of_mem ((List.nodup_reverse.mpr hnodup).map hinjective)
      (List.mem_map_of_mem (List.mem_reverse.mpr hin))
  rw [List.count_append, List.count_append, hlocks, hmiddle, hunlocks]

/-- What a cutover sends, and that without a stop it ends in an error. -/
theorem run_cases (env : Env) (hnodup : p.sourceEndpoints.Nodup) :
    (∀ ep, .lock ep ∈ (run env p).trace → (run env p).trace.count (.unlock ep) = 1) ∧
    ((.stop ∉ (run env p).trace ∧ ∃ e, (run env p).result = .error e) ∨
      ∃ q snapshot snapshots received last after, p.init = .ok q ∧
        (∀ ep ∈ p.sourceEndpoints, env.lockSourceTables ep (q.scope ep) q.lockTables = true) ∧
        env.snapshot = some snapshot ∧ buildLockMasterSnapshots snapshot = .ok snapshots ∧
        (run env p).trace = p.sourceEndpoints.map .lock ++
          (snapshot :: received).map (fun items => .status (some items)) ++ .stop :: after ∧
        (∀ items ∈ received, ∃ n, env.polls n = some items) ∧ last <:+ received ∧
          (last.length : ℤ) = q.catchupRecheck ∧
            ∀ items ∈ last, decideCatchupPoll items snapshots = .pass) := by
  cases hinit : p.init with
  | error e =>
    have hrun : run env p = ⟨[], .error e⟩ := by
      unfold run
      rw [hinit]
    rw [hrun]
    exact ⟨by simp, Or.inl ⟨List.not_mem_nil, e, rfl⟩⟩
  | ok q =>
    obtain ⟨heps, hrecheck, -⟩ := init_ok hinit
    obtain ⟨hstart, hsame, hall⟩ := lockSources_spec env q p.sourceEndpoints
    have hlocked := hnodup.sublist hstart.sublist
    unfold run
    rw [hinit]
    dsimp only
    rw [heps]
    cases hstuck : (lockSources env q p.sourceEndpoints).2 with
    | some ep =>
      refine ⟨fun ep => count_lock_unlock hlocked (by simp), Or.inl ⟨?_, _, rfl⟩⟩
      simp
    | none =>
      dsimp only
      rcases whileLocked_cases env hrecheck with
        ⟨hstatus, herror⟩ | ⟨snapshot, snapshots, received, last, after, hsnapshot, hbuild, htrace,
          hothers, hpolls, hsuffix, hlength, hlast⟩
      · refine ⟨fun ep => count_lock_unlock hlocked ?_, Or.inl ⟨?_, herror⟩⟩
        · intro e he other
          obtain ⟨seen, rfl⟩ := hstatus e he
          exact ⟨nofun, nofun⟩
        · simp only [List.mem_append, List.mem_map, reduceCtorEq, and_false, exists_false, or_false,
            false_or]
          intro hstop
          obtain ⟨seen, heq⟩ := hstatus _ hstop
          cases heq
      · refine ⟨fun ep => count_lock_unlock hlocked ?_, Or.inr ⟨q, snapshot, snapshots, received, last,
          after ++ p.sourceEndpoints.reverse.map .unlock, rfl, hall.mp hstuck, hsnapshot, hbuild, ?_, hpolls,
          hsuffix, hlength, hlast⟩⟩
        · intro e he other
          rw [htrace] at he
          rcases List.mem_append.mp he with hseen | hrest
          · obtain ⟨items, -, rfl⟩ := List.mem_map.mp hseen
            exact ⟨nofun, nofun⟩
          · rcases List.mem_cons.mp hrest with rfl | hin
            · exact ⟨nofun, nofun⟩
            · exact hothers e hin other
        · rw [hsame hstuck, htrace]
          simp

theorem replies_until_stop (received : List (List TaskStatusItem)) (after : List Event) :
    replies ((eps.map Event.lock ++ received.map (fun items => Event.status (some items)) ++
      Event.stop :: after).takeWhile (· ≠ .stop)) = received := by
  have hpass : ∀ e ∈ eps.map Event.lock ++ received.map (fun items => Event.status (some items)),
      decide (e ≠ Event.stop) = true := by
    intro e he
    rcases List.mem_append.mp he with hlock | hstatus
    · obtain ⟨ep, -, rfl⟩ := List.mem_map.mp hlock
      rfl
    · obtain ⟨items, -, rfl⟩ := List.mem_map.mp hstatus
      rfl
  rw [List.takeWhile_append_of_pos hpass, List.takeWhile_cons_of_neg (by simp), List.append_nil,
    replies, List.filterMap_append, List.filterMap_map, List.filterMap_map]
  simp

/-- A cutover is safe when the reply after the locks lists the endpoints. -/
theorem safe_of_listed (hnodup : p.sourceEndpoints.Nodup) (hholds : h.Holds env)
    (hlisted : ∀ q snapshot snapshots, p.init = .ok q →
      (∀ ep ∈ p.sourceEndpoints, env.lockSourceTables ep (q.scope ep) q.lockTables = true) →
      env.snapshot = some snapshot → buildLockMasterSnapshots snapshot = .ok snapshots →
        ∀ ep ∈ p.sourceEndpoints, ep.sourceName ∈ snapshot.map statusSourceKey) :
    Safe h env p := by
  obtain ⟨hunlocked, hcases⟩ := run_cases env hnodup
  rcases hcases with ⟨hstop, herror⟩ | ⟨q, snapshot, snapshots, received, last, after, hinit, hlocks,
    hsnapshot, hbuild, htrace, hpolls, hsuffix, hlength, hlast⟩
  · exact ⟨fun hin => absurd hin hstop, fun _ => herror, hunlocked⟩
  · refine ⟨fun _ => ?_, fun hnot => absurd ?_ hnot, hunlocked⟩
    · rw [htrace, replies_until_stop]
      refine ⟨q, snapshot, received, last, hinit, rfl, hsuffix, hlength, fun ep hep => ?_⟩
      have hsrc := hlisted q snapshot snapshots hinit hlocks hsnapshot hbuild ep hep
      have htells := hholds.snapshot snapshot hsnapshot
      refine ⟨marked_of_mem htells hbuild hsrc, fun items hitems => ?_⟩
      obtain ⟨n, hn⟩ := hpolls items (hsuffix.subset hitems)
      exact caughtUp_of_pass htells (hholds.polls n items hn) hbuild hsrc (hlast items hitems)
    · rw [htrace]
      simp

/-- What an item says when the syncer is where the master was. -/
def atMark (item : TaskStatusItem) : TaskStatusItem :=
  { item with
    stage := "Running"
    syncStatus := item.syncStatus.map fun ss =>
      { ss with syncerBinlog := ss.masterBinlog, blockingDDLs := [], secondsBehindMaster := 0 } }

theorem atMark_key (item : TaskStatusItem) : statusSourceKey (atMark item) = statusSourceKey item := rfl

/-- The task passes if its syncers stand where the masters were. -/
theorem atMark_pass (htells : h.Tells 0 items)
    (hbuild : buildLockMasterSnapshots items = .ok snapshots) :
    decideCatchupPoll (items.map atMark) snapshots = .pass := by
  have hrunning : Text.trimSpace "Running" = "Running" := by decide
  have hkeys : (items.map atMark).map statusSourceKey = items.map statusSourceKey := by
    rw [List.map_map]
    exact List.map_congr_left fun item _ => atMark_key item
  have hne : items ≠ [] := by
    rintro rfl
    cases hbuild
  refine decideCatchupPoll_pass.mpr ⟨?_, checkSnapshotCatchup_ok.mpr ⟨?_, ?_, ?_, ?_⟩⟩
  · rw [taskReportError, List.findSome?_eq_none_iff]
    intro item hitem
    obtain ⟨first, -, rfl⟩ := List.mem_map.mp hitem
    show itemError (atMark first) = none
    unfold itemError atMark
    dsimp only
    rw [hrunning, if_neg (by decide), if_neg (by decide)]
  · exact fun hnil => hne (List.map_eq_nil_iff.mp hnil)
  · obtain ⟨item, rest, rfl⟩ := List.exists_cons_of_ne_nil hne
    intro hnil
    have hkey := (mem_snapshots hbuild).mpr (List.mem_map_of_mem (List.mem_cons_self (a := item)))
    have hin : statusSourceKey item ∈ snapshots.keys := hkey
    rw [hnil] at hin
    cases hin
  · intro item hitem
    obtain ⟨first, hfirst, rfl⟩ := List.mem_map.mp hitem
    obtain ⟨coord, ss, hss, hcoord⟩ := placed_of_mem hbuild hfirst
    have hmaster := (htells first hfirst ss hss).1 coord hcoord
    have hkey := (mem_snapshots hbuild).mpr (List.mem_map_of_mem hfirst)
    obtain ⟨snap, hsnap⟩ := Option.isSome_iff_exists.mp (AList.lookup_isSome.mpr hkey)
    have hsame := lookup_snapshots htells hbuild hsnap
    refine checkItem_ok.mpr ⟨_, snap, by rw [atMark, hss]; rfl, rfl, hsnap, ?_⟩
    unfold isCaughtUpToSnapshot
    rw [if_neg (by simp)]
    dsimp only
    rw [hcoord]
    dsimp only
    rw [hmaster, hsame]
    exact decide_eq_true (compareBinlogCoord_coord.mpr (Place.le_refl _))
  · intro src hsrc
    rw [hkeys]
    exact (mem_snapshots hbuild).mp hsrc

/-- Replies that pass lead to the stop. -/
theorem stop_of_pass (hinit : p.init = .ok q)
    (hlocks : ∀ ep ∈ p.sourceEndpoints, env.lockSourceTables ep (q.scope ep) q.lockTables = true)
    {snapshot : List TaskStatusItem} (hsnapshot : env.snapshot = some snapshot)
    (hbuild : buildLockMasterSnapshots snapshot = .ok snapshots)
    (hpolls : ∀ n, env.polls n = some items) (hpass : decideCatchupPoll items snapshots = .pass) :
    .stop ∈ (run env p).trace := by
  obtain ⟨heps, hrecheck, hmax⟩ := init_ok hinit
  have hnone : (lockSources env q q.sourceEndpoints).2 = none := by
    rw [heps]
    exact (lockSources_spec env q p.sourceEndpoints).2.2.mpr hlocks
  have hresult : (pollUntilCaughtUp env.polls snapshots q.catchupRecheck q.catchupPollMax).result =
      .ok items := pollLoop_passes hpolls hpass (by omega) (by omega)
  have hstop : .stop ∈ (stopAndReport env items).trace := by
    unfold stopAndReport
    split <;> exact List.mem_cons_self
  unfold run
  rw [hinit]
  dsimp only
  rw [hnone]
  dsimp only
  unfold whileLocked
  rw [hsnapshot]
  dsimp only
  rw [hbuild]
  dsimp only
  rw [hresult]
  dsimp only
  exact List.mem_append_left _ (List.mem_append_right _ (List.mem_append_right _ hstop))

/-- For each outcome of the locks and each reply after them: all that can follow is safe if and only if
the reply, where the snapshots are taken from it, lists the source of every locked endpoint. -/
theorem stop_covered_iff {lock : SourceEndpoint → Option SyncScope → List TableItem → Bool}
    {reply : Option (List TaskStatusItem)} {g : History}
    (hnodup : (p.sourceEndpoints.map SourceEndpoint.sourceName).Nodup)
    (htells : ∀ items, reply = some items → g.Tells 0 items) :
    (∀ env h, env.lockSourceTables = lock → env.snapshot = reply → h.Holds env → Safe h env p) ↔
    ∀ q items snapshots, p.init = .ok q →
      (∀ ep ∈ p.sourceEndpoints, lock ep (q.scope ep) q.lockTables = true) → reply = some items →
      buildLockMasterSnapshots items = .ok snapshots →
        ∀ ep ∈ p.sourceEndpoints, ep.sourceName ∈ items.map statusSourceKey := by
  constructor
  · intro hsafe q items snapshots hinit hlocks hreply hbuild ep hep
    have htrue := htells items hreply
    let env : Env := ⟨lock, reply, fun _ => some (items.map atMark), true, none, true⟩
    let h : History := ⟨g.base, fun _ => g.master 0, fun n => if n = 0 then g.syncer 0 else g.master 0⟩
    have hholds : h.Holds env := by
      constructor
      · intro snapshot hsnapshot
        exact htells snapshot hsnapshot
      · intro n polled hpolled item hitem ss hss
        obtain rfl := Option.some.inj hpolled
        obtain ⟨first, hfirst, rfl⟩ := List.mem_map.mp hitem
        obtain ⟨before, hbefore, rfl⟩ := Option.map_eq_some_iff.mp hss
        have hmaster := (htrue first hfirst before hbefore).1
        exact ⟨hmaster, hmaster⟩
    have hpass := atMark_pass htrue hbuild
    have hstop : .stop ∈ (run env p).trace :=
      stop_of_pass hinit hlocks hreply hbuild (fun _ => rfl) hpass
    obtain ⟨q', snapshot, polls, last, -, hreceived, -, -, hcovered⟩ :=
      (hsafe env h rfl rfl hholds).stopped hstop
    rcases (run_cases env (List.Nodup.of_map _ hnodup)).2 with
      ⟨hnot, -⟩ | ⟨_, first, _, received, _, after, -, -, hfirst, -, htrace, -⟩
    · exact absurd hstop hnot
    · rw [htrace, replies_until_stop] at hreceived
      have hsame : items = snapshot :=
        (Option.some.inj (hreply.symm.trans hfirst)).trans (List.cons.inj hreceived).1
      obtain ⟨item, hitem, hkey, -⟩ := (hcovered ep hep).1
      rw [← hkey, hsame]
      exact List.mem_map_of_mem hitem
  · intro hlisted env h hlock hreply hholds
    apply safe_of_listed (List.Nodup.of_map _ hnodup) hholds
    intro q snapshot snapshots hinit hlocks hsnapshot
    subst hlock
    exact hlisted q snapshot snapshots hinit hlocks (hreply.symm.trans hsnapshot)

/-- An item of a source that stands at the beginning of its second binlog. -/
def second (src : String) : TaskStatusItem :=
  ⟨"task-a", src, "Running", "", some ⟨"(binlog.000002, 4)", "(binlog.000002, 4)", [], 0⟩⟩

def endpoint (src : String) : SourceEndpoint := ⟨"127.0.0.10", 20000, src, none⟩

def twoSources : Params :=
  { dtsMasterAddr := "127.0.0.2:18301"
    taskName := "task-a"
    sourceEndpoints := [endpoint "src1", endpoint "src2"]
    syncScope := some ⟨["app"], [⟨"*", "*"⟩], []⟩
    lockTables := []
    catchupRecheck := 1
    catchupPollMax := 1 }

/-- All binlogs are called `binlog`, and everything stands where `second` says. -/
def still : History :=
  ⟨fun _ => "binlog", fun _ _ => ⟨2, 4, by decide⟩, fun _ _ => ⟨2, 4, by decide⟩⟩

theorem still_tells (n : ℕ) {items : List TaskStatusItem}
    (h : ∀ item ∈ items, item.syncStatus = (second "").syncStatus) : still.Tells n items := by
  intro item hitem ss hss
  obtain rfl := Option.some.inj ((h item hitem).symm.trans hss)
  have hcoord : parseBinlogCoord "(binlog.000002, 4)" = some ⟨"binlog.000002", 4⟩ := by
    decide +kernel
  have hplace : (⟨"binlog.000002", 4⟩ : BinlogCoord) = (Place.mk 2 4 (by decide)).coord "binlog" := by
    decide +kernel
  constructor <;>
  · intro coord hparse
    exact (Option.some.inj (hcoord.symm.trans hparse)).symm.trans hplace

theorem still_holds {env : Env} {items : List TaskStatusItem}
    (h : ∀ item ∈ items, item.syncStatus = (second "").syncStatus)
    (hsnapshot : env.snapshot = some items) (hpolls : ∀ n, env.polls n = some items) :
    still.Holds env := by
  constructor
  · intro listed hlisted
    obtain rfl := Option.some.inj (hsnapshot.symm.trans hlisted)
    exact still_tells 0 h
  · intro n listed hlisted
    obtain rfl := Option.some.inj ((hpolls n).symm.trans hlisted)
    exact still_tells (n + 1) h

/-- Both sources are listed after the locks and in the poll. -/
def bothListed : Env :=
  { lockSourceTables := fun _ _ _ => true
    snapshot := some [second "src1", second "src2"]
    polls := fun _ => some [second "src1", second "src2"]
    stopTask := true
    final := none
    printOutput := true }

theorem stop_covered_iff_both : Safe still bothListed twoSources := by
  refine (stop_covered_iff (p := twoSources) (g := still) (by decide) fun items hitems => ?_).mpr ?_
    bothListed still rfl rfl (still_holds (by decide) rfl fun _ => rfl)
  · obtain rfl := Option.some.inj hitems
    exact still_tells 0 (by decide)
  · intro q items snapshots _ _ hreply _
    obtain rfl := Option.some.inj hreply
    decide

/-- Only one of the two sources is listed after the locks and in the poll. -/
def oneListed : Env :=
  { lockSourceTables := fun _ _ _ => true
    snapshot := some [second "src1"]
    polls := fun _ => some [second "src1"]
    stopTask := true
    final := none
    printOutput := true }

theorem stop_unlisted : ¬ ∀ (h : History) (env : Env) (p : Params),
    (p.sourceEndpoints.map SourceEndpoint.sourceName).Nodup →
      (∀ ep ∈ p.sourceEndpoints, ep.sourceName ≠ "") → h.Holds env → Safe h env p := by
  intro hall
  have hholds : still.Holds oneListed := still_holds (by decide) rfl fun _ => rfl
  have hstop : .stop ∈ (run oneListed twoSources).trace := by decide +kernel
  have hreplies : replies ((run oneListed twoSources).trace.takeWhile (· ≠ .stop)) =
      [[second "src1"], [second "src1"]] := by decide +kernel
  obtain ⟨_, snapshot, polls, _, -, hreceived, -, -, hcovered⟩ :=
    (hall still oneListed twoSources (by decide) (by decide) hholds).stopped hstop
  rw [hreplies] at hreceived
  obtain rfl := (List.cons.inj hreceived).1
  obtain ⟨item, hitem, hkey, -⟩ := (hcovered (endpoint "src2") (by decide)).1
  rw [List.mem_singleton.mp hitem] at hkey
  exact absurd hkey (by decide)

end Cutover
