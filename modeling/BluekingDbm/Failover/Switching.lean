import BluekingDbm.Failover.Inflight

/-! Whether two running switches can cover one instance. Marks are kept for instances, a window has an
entry for each event of an instance, and a request covers whole hosts. -/
namespace Failover

open Transition

variable {cfg : WorkflowConfig} {s t : Am} {e : AmEvent} {es : List AmEvent} {x : String} {i : ℕ}
  {group g : FailureGroup} {req : Request} {inst : Instance} {groups : List FailureGroup}
  {occupied : List String} {r : RangeOrder (List Instance)} {tasks : List GroupTask}

theorem mem_matchSimultaneous {clusterType front back role : String} {l : List Instance} {n : ℤ}
    (h : inst ∈ matchSimultaneous clusterType front back role r l n) : inst ∈ l := by
  unfold matchSimultaneous at h
  obtain ⟨group, hgroup, hin⟩ := List.mem_flatten.mp h
  have hcluster := (r.perm _).mem_iff.mp (List.mem_filter.mp hgroup).1
  obtain ⟨k, -, rfl⟩ := List.mem_map.mp hcluster
  exact (List.mem_filter.mp hin).1

theorem mem_matchStrategy {st : DbSwitchingStrategy} {l : List Instance}
    (h : inst ∈ matchStrategy r st l) : inst ∈ l := by
  unfold matchStrategy at h
  generalize (if st.triggerCount ≤ 0 then 1 else st.triggerCount) = threshold at h
  cases hfunc : getSpecialMatchFunc r st.triggerEventName with
  | none =>
    simp only [hfunc] at h
    exact (List.mem_filter.mp h).1
  | some matchFunc =>
    simp only [hfunc] at h
    unfold getSpecialMatchFunc at hfunc
    split at hfunc
    · cases hfunc
      exact mem_matchSimultaneous h
    · cases hfunc
      exact mem_matchSimultaneous h
    · cases hfunc

theorem mem_bindStrategies {strategies : List DbSwitchingStrategy} {bound : List String}
    (hg : g ∈ (bindStrategies r group strategies bound).1) (hi : inst ∈ g.instances) :
    inst ∈ group.instances := by
  induction strategies generalizing bound with
  | nil => cases hg
  | cons st strategies ih =>
    simp only [bindStrategies] at hg
    split at hg
    · cases hg
    · split at hg
      · exact ih hg
      · rcases List.mem_cons.mp hg with rfl | hg
        · exact (List.mem_filter.mp (mem_matchStrategy hi)).1
        · exact ih hg

/-- Matching binds the instances of the group, no others. -/
theorem mem_matchStrategies {strategies : Option (List DbSwitchingStrategy)}
    (h : matchStrategies r group strategies = some groups) (hg : g ∈ groups)
    (hi : inst ∈ g.instances) : inst ∈ group.instances := by
  unfold matchStrategies at h
  split at h
  · cases h
  · obtain ⟨strategies, -, rfl⟩ := Option.map_eq_some_iff.mp h
    simp only at hg
    split at hg
    · exact mem_bindStrategies hg hi
    · rcases List.mem_append.mp hg with hg | hg
      · exact mem_bindStrategies hg hi
      · obtain rfl := List.mem_singleton.mp hg
        exact (List.mem_filter.mp hi).1

def Request.hosts (req : Request) : List String := req.instData.map DbInstMetadata.host

def GroupTask.hosts : GroupTask → List String
  | .notify _ => []
  | .switch _ req => req.hosts

theorem mem_filterRequestByHosts {l : List Instance}
    (h : x ∈ (filterRequestByHosts req l).hosts) : x ∈ l.map Instance.host := by
  obtain ⟨m, hm, rfl⟩ := List.mem_map.mp h
  exact of_decide_eq_true (List.mem_filter.mp hm).2

@[simp] theorem GroupTask.hosts_notify : (GroupTask.notify g).hosts = [] := rfl

@[simp] theorem GroupTask.hosts_switch : (GroupTask.switch g req).hosts = req.hosts := rfl

/-- The hosts of `task` are hosts of the groups and free. -/
def GroupTask.Within (groups : List FailureGroup) (occupied : List String) (task : GroupTask) :
    Prop :=
  ∀ x ∈ task.hosts, x ∉ occupied ∧ ∃ g ∈ groups, x ∈ g.instances.map Instance.host

theorem GroupTask.Within.cons {task : GroupTask} {more : List String}
    (h : task.Within groups (occupied ++ more)) : task.Within (g :: groups) occupied := by
  intro x hx
  obtain ⟨hfree, g', hg', hin⟩ := h x hx
  exact ⟨fun ho => hfree (List.mem_append_left _ ho), g', List.mem_cons_of_mem _ hg', hin⟩

/-- The tasks of a group switch hosts of its instances, each host in one task. -/
theorem buildGroupTasks_hosts (req : Request) (groups : List FailureGroup) (occupied : List String) :
    (∀ task ∈ buildGroupTasks req groups occupied, task.Within groups occupied) ∧
    (buildGroupTasks req groups occupied).Pairwise fun a b => ∀ x ∈ a.hosts, x ∉ b.hosts := by
  induction groups generalizing occupied with
  | nil =>
    simp only [buildGroupTasks]
    exact ⟨fun task htask => absurd htask List.not_mem_nil, .nil⟩
  | cons g groups ih =>
    have hskip : ∀ task ∈ buildGroupTasks req groups occupied, task.Within (g :: groups) occupied := by
      intro task htask
      have hwithin := (ih occupied).1 task htask
      rw [← List.append_nil occupied] at hwithin
      exact hwithin.cons
    simp only [buildGroupTasks]
    split
    · refine ⟨fun task htask => ?_, List.pairwise_cons.mpr ⟨?_, (ih occupied).2⟩⟩
      · rcases List.mem_cons.mp htask with rfl | htask
        · intro x hx
          simp at hx
        · exact hskip task htask
      · intro task _ x hx
        simp at hx
    · split
      · exact ⟨hskip, (ih occupied).2⟩
      · split
        · exact ⟨hskip, (ih occupied).2⟩
        · generalize hreq : filterRequestByHosts req (filterHostsNotOccupied g.instances occupied) =
            groupReq
          have hown : ∀ x ∈ groupReq.hosts,
              x ∉ occupied ∧ x ∈ g.instances.map Instance.host := by
            intro x hx
            rw [← hreq] at hx
            obtain ⟨inst, hinst, rfl⟩ := List.mem_map.mp (mem_filterRequestByHosts hx)
            obtain ⟨hin, hfree⟩ := List.mem_filter.mp hinst
            exact ⟨of_decide_eq_true hfree, List.mem_map.mpr ⟨_, hin, rfl⟩⟩
          obtain ⟨hlater, hapart⟩ := ih (occupied ++ groupReq.instData.map DbInstMetadata.host)
          refine ⟨fun task htask => ?_, List.pairwise_cons.mpr ⟨?_, hapart⟩⟩
          · rcases List.mem_cons.mp htask with rfl | htask
            · intro x hx
              obtain ⟨hfree, hin⟩ := hown x hx
              exact ⟨hfree, g, List.mem_cons_self, hin⟩
            · exact (hlater task htask).cons
          · intro task htask x hx hlate
            exact (hlater task htask x hlate).1 (List.mem_append_right _ hx)

theorem failureGroupTasks_hosts {metadatas : Option (List DbInstMetadata)}
    {strategies : Option (List DbSwitchingStrategy)}
    (h : failureGroupTasks r group metadatas strategies = some tasks) :
    (∀ task ∈ tasks, ∀ x ∈ task.hosts, x ∈ group.instances.map Instance.host) ∧
      tasks.Pairwise fun a b => ∀ x ∈ a.hosts, x ∉ b.hosts := by
  unfold failureGroupTasks at h
  obtain ⟨req, -, h⟩ := Option.bind_eq_some_iff.mp h
  split at h
  · cases h
  · simp only at h
    split at h
    · cases h
    · obtain ⟨groups, hgroups, h⟩ := Option.bind_eq_some_iff.mp h
      cases h
      obtain ⟨hwithin, hapart⟩ := buildGroupTasks_hosts req groups []
      refine ⟨fun task htask x hx => ?_, hapart⟩
      obtain ⟨-, g, hg, hin⟩ := hwithin task htask x hx
      obtain ⟨inst, hinst, rfl⟩ := List.mem_map.mp hin
      have havailable := mem_matchStrategies hgroups hg hinst
      exact List.mem_map.mpr ⟨inst, (List.mem_filter.mp havailable).1, rfl⟩

/-! The switches that run. -/

def TaskState.hosts : TaskState → List String
  | .waiting task => task.hosts
  | .running req => req.hosts
  | .ended => []

@[simp] theorem TaskState.hosts_ended : TaskState.ended.hosts = [] := rfl

def TaskState.request? : TaskState → Option Request
  | .running req => some req
  | _ => none

theorem TaskState.hosts_request {task : TaskState} (h : task.request? = some req) :
    task.hosts = req.hosts := by
  cases task with
  | waiting task => cases h
  | running req' =>
    obtain rfl := Option.some.inj h
    rfl
  | ended => cases h

/-- The requests whose switch is running. -/
def Am.running (s : Am) : List Request :=
  s.handlers.flatMap fun h => h.stage.tasks.filterMap TaskState.request?

/-- No instance is in two of them. -/
def NoDoubleSwitch (s : Am) : Prop :=
  s.running.Pairwise fun req req' => ∀ m ∈ req.instData, ∀ m' ∈ req'.instData, m.key ≠ m'.key

theorem handleStrategySwitch_hosts {whiteList : Option (List ℤ)} {req' : Request}
    (h : handleStrategySwitch cfg group req whiteList = some req') (hx : x ∈ req'.hosts) :
    x ∈ req.hosts := by
  unfold handleStrategySwitch at h
  split at h
  · cases h
  · obtain ⟨req₁, hfilter, h⟩ := Option.bind_eq_some_iff.mp h
    split at h
    · cases h
      unfold filterByWhitelistForSwitch at hfilter
      split at hfilter
      · cases hfilter
        exact hx
      · obtain ⟨clusters, -, rfl⟩ := Option.map_eq_some_iff.mp hfilter
        obtain ⟨m, hm, rfl⟩ := List.mem_map.mp hx
        exact List.mem_map.mpr ⟨m, (List.mem_filter.mp hm).1, rfl⟩
    · cases h

theorem switchTask_hosts {whiteList : Option (List ℤ)} {task : GroupTask}
    (hx : x ∈ (switchTask cfg whiteList task).hosts) : x ∈ task.hosts := by
  cases task with
  | notify group =>
    simp [switchTask] at hx
  | switch group req =>
    cases hreq : handleStrategySwitch cfg group req whiteList with
    | none => simp [switchTask, hreq] at hx
    | some req' =>
      simp only [switchTask, hreq] at hx
      exact handleStrategySwitch_hosts hreq hx

/-- The tasks of a handler switch its hosts, each host in one task. -/
structure Handler.Tidy (h : Handler) : Prop where
  within : ∀ task ∈ h.stage.tasks, ∀ x ∈ task.hosts, x ∈ h.hosts
  apart : h.stage.tasks.Pairwise fun a b => ∀ x ∈ a.hosts, x ∉ b.hosts

theorem Handler.tidy_of_no_tasks {h : Handler} (hnone : h.stage.tasks = []) : h.Tidy := by
  refine ⟨fun task htask => ?_, ?_⟩
  · rw [hnone] at htask
    cases htask
  · rw [hnone]
    exact .nil

theorem Handler.Tidy.set {h : Handler} {j : ℕ} {a b : TaskState} (ht : h.Tidy)
    (hj : h.stage.tasks[j]? = some a) (hsub : ∀ x ∈ b.hosts, x ∈ a.hosts) :
    ({ h with stage := .switching (h.stage.tasks.set j b) } : Handler).Tidy := by
  constructor
  · intro task htask x hx
    rcases List.mem_or_eq_of_mem_set htask with htask | rfl
    · exact ht.within task htask x hx
    · exact ht.within a (List.mem_of_getElem? hj) x (hsub x hx)
  · refine Slots.pairwise_set ht.apart hj ?_ ?_
    · intro task _ htask x hx hxb
      exact htask x hx (hsub x hxb)
    · intro task _ htask x hxb hx
      exact htask x (hsub x hxb) hx

theorem Handler.tidy_spawn {h : Handler} {metadatas : Option (List DbInstMetadata)}
    {strategies : Option (List DbSwitchingStrategy)} {r : RangeOrder (List Instance)}
    (htasks : failureGroupTasks r h.group metadatas strategies = some tasks) :
    ({ h with stage := .switching (tasks.map .waiting) } : Handler).Tidy := by
  obtain ⟨hwithin, hapart⟩ := failureGroupTasks_hosts htasks
  constructor
  · intro task htask x hx
    obtain ⟨task', htask', rfl⟩ := List.mem_map.mp htask
    exact hwithin task' htask' x hx
  · exact List.pairwise_map.mpr hapart

theorem active_of_task {st : HandlerStage} {task : TaskState} (h : task ∈ st.tasks) :
    st.Active := by
  cases st with
  | started => trivial
  | switching tasks => trivial
  | releasing n => cases h

/-- A step moves one handler to its next stage, or starts the handlers of a pass. -/
theorem step_handlers (hs : s.next cfg e = some t) :
    (∃ bizId now r, e = .popAndSwitch bizId now r ∧ t = s.popAndSwitch bizId now r) ∨
    (∃ i h stage, s.handlers[i]? = some h ∧ t.handlers = s.handlers.set i { h with stage } ∧
      (stage.Active → h.stage.Active) ∧ (h.Tidy → ({ h with stage } : Handler).Tidy)) ∨
    t.handlers = s.handlers := by
  have hactive : ∀ {h : Handler} {j : ℕ} {task : TaskState}, h.stage.tasks[j]? = some task →
      h.stage.Active := fun hj => active_of_task (List.mem_of_getElem? hj)
  cases e with
  | push bizId inst at' clock =>
    simp only [Am.next] at hs
    split at hs
    · cases hs
    · obtain rfl := Option.some.inj hs
      exact .inr (.inr rfl)
  | popAndSwitch bizId now r => exact .inl ⟨bizId, now, r, rfl, (Option.some.inj hs).symm⟩
  | spawn i r metadatas strategies =>
    obtain ⟨h, hi, hs⟩ := Option.bind_eq_some_iff.mp hs
    split at hs
    · cases hs
    · rename_i hstage
      have hstarted : h.stage.Active := by
        rw [not_not.mp hstage]
        trivial
      split at hs
      · rename_i tasks htasks
        obtain rfl := Option.some.inj hs
        exact .inr (.inl ⟨i, h, _, hi, rfl, fun _ => hstarted, fun _ => Handler.tidy_spawn htasks⟩)
      · obtain rfl := Option.some.inj hs
        exact .inr (.inl ⟨i, h, _, hi, rfl, False.elim, fun _ => Handler.tidy_of_no_tasks rfl⟩)
  | panic i =>
    obtain ⟨h, hi, hs⟩ := Option.bind_eq_some_iff.mp hs
    split at hs
    · cases hs
    · obtain rfl := Option.some.inj hs
      exact .inr (.inl ⟨i, h, _, hi, rfl, False.elim, fun _ => Handler.tidy_of_no_tasks rfl⟩)
  | switch i j whiteList =>
    obtain ⟨h, hi, hs⟩ := Option.bind_eq_some_iff.mp hs
    split at hs
    · rename_i task hj
      obtain rfl := Option.some.inj hs
      exact .inr (.inl ⟨i, h, _, hi, rfl, fun _ => hactive hj,
        fun ht => ht.set hj fun x hx => switchTask_hosts hx⟩)
    · cases hs
  | finish i j =>
    obtain ⟨h, hi, hs⟩ := Option.bind_eq_some_iff.mp hs
    split at hs
    · rename_i task hj
      obtain rfl := Option.some.inj hs
      refine .inr (.inl ⟨i, h, _, hi, rfl, fun _ => hactive hj, fun ht => ht.set hj ?_⟩)
      intro x hx
      simp at hx
    · rename_i req hj
      obtain rfl := Option.some.inj hs
      refine .inr (.inl ⟨i, h, _, hi, rfl, fun _ => hactive hj, fun ht => ht.set hj ?_⟩)
      intro x hx
      simp at hx
    · cases hs
  | wait i =>
    obtain ⟨h, hi, hs⟩ := Option.bind_eq_some_iff.mp hs
    split at hs
    · split at hs
      · obtain rfl := Option.some.inj hs
        exact .inr (.inl ⟨i, h, _, hi, rfl, False.elim, fun _ => Handler.tidy_of_no_tasks rfl⟩)
      · cases hs
    · cases hs
  | markDone i =>
    obtain ⟨h, hi, hs⟩ := Option.bind_eq_some_iff.mp hs
    split at hs
    · obtain ⟨k, hk, hs⟩ := Option.bind_eq_some_iff.mp hs
      obtain rfl := Option.some.inj hs
      exact .inr (.inl ⟨i, h, _, hi, rfl, False.elim, fun _ => Handler.tidy_of_no_tasks rfl⟩)
    · cases hs

/-- A pop takes no entry on a host whose switches are not over, and the entries it takes on one host are
of one type. -/
def HostsFree (s : Am) : AmEvent → Prop
  | .popAndSwitch bizId now _ =>
    (∀ e ∈ s.mgr.matured bizId now, ∀ h ∈ s.handlers, h.stage.Active → e.host ∉ h.hosts) ∧
    ∀ e ∈ s.mgr.matured bizId now, ∀ e' ∈ s.mgr.matured bizId now,
      e.host = e'.host → e.dbType = e'.dbType
  | _ => True

instance (s : Am) : (e : AmEvent) → Decidable (HostsFree s e)
  | .popAndSwitch bizId now _ => inferInstanceAs (Decidable
      ((∀ e ∈ s.mgr.matured bizId now, ∀ h ∈ s.handlers, h.stage.Active → e.host ∉ h.hosts) ∧
      ∀ e ∈ s.mgr.matured bizId now, ∀ e' ∈ s.mgr.matured bizId now,
        e.host = e'.host → e.dbType = e'.dbType))
  | .push .. | .spawn .. | .panic _ | .switch .. | .finish .. | .wait _ | .markDone _ =>
    isTrue trivial

/-- Handlers at work have no host in common. -/
def Handler.Apart (h h' : Handler) : Prop :=
  h.stage.Active → h'.stage.Active → ∀ x ∈ h.hosts, x ∉ h'.hosts

structure HostsApart (s : Am) : Prop where
  apart : s.handlers.Pairwise Handler.Apart
  tidy : ∀ h ∈ s.handlers, h.Tidy

/-- The handlers a pass starts. -/
def Am.startedHandlers (s : Am) (bizId now : ℤ) (r : RangeOrder FailureWindowEntry) :
    List Handler :=
  (groupEntriesByCloudAndDbType bizId (s.popped bizId now r)).map fun g => ⟨g, now, .started⟩

theorem popAndSwitch_handlers (s : Am) (bizId now : ℤ) (r : RangeOrder FailureWindowEntry) :
    (s.popAndSwitch bizId now r).handlers = s.handlers ++ s.startedHandlers bizId now r := by
  simp only [Am.popAndSwitch, popAndMarkStart_eq, Am.startedHandlers]
  rfl

theorem startedHandlers_host {bizId now : ℤ} {r : RangeOrder FailureWindowEntry} {h : Handler}
    (hh : h ∈ s.startedHandlers bizId now r) (hx : x ∈ h.hosts) :
    ∃ e ∈ s.mgr.matured bizId now, e.host = x := by
  obtain ⟨g, hg, rfl⟩ := List.mem_map.mp hh
  obtain ⟨inst, hinst, rfl⟩ := List.mem_map.mp hx
  obtain ⟨e, he, rfl⟩ := mem_groups hg hinst
  exact ⟨e, mem_popped he, rfl⟩

theorem startedHandlers_apart {bizId now : ℤ} {r : RangeOrder FailureWindowEntry}
    (htype : ∀ e ∈ s.mgr.matured bizId now, ∀ e' ∈ s.mgr.matured bizId now,
      e.host = e'.host → e.dbType = e'.dbType) :
    (s.startedHandlers bizId now r).Pairwise Handler.Apart := by
  refine List.pairwise_map.mpr (List.Pairwise.imp_of_mem ?_ (groups_apart bizId _))
  intro g g' hg hg' hapart _ _ x hx hx'
  obtain ⟨inst, hinst, rfl⟩ := List.mem_map.mp hx
  obtain ⟨inst', hinst', hsame⟩ := List.mem_map.mp hx'
  refine hapart inst hinst inst' hinst' ?_
  -- one host has one cloud, and the entries on it one type
  have hcloud : inst'.bkCloudID = inst.bkCloudID := (hostKey_inj.mp hsame).1
  obtain ⟨e, he, rfl⟩ := mem_groups hg hinst
  obtain ⟨e', he', rfl⟩ := mem_groups hg' hinst'
  have hdb := htype e (mem_popped he) e' (mem_popped he') hsame.symm
  rw [Instance.cloudTypeKey, Instance.cloudTypeKey, hcloud, hdb]

theorem hostsApart_step (ha : HostsApart s) (hf : HostsFree s e) (hs : s.next cfg e = some t) :
    HostsApart t := by
  rcases step_handlers hs with ⟨bizId, now, r, rfl, rfl⟩ | ⟨i, h, stage, hi, hset, hact, htidy⟩ |
    hsame
  · constructor
    · rw [popAndSwitch_handlers]
      refine List.pairwise_append.mpr ⟨ha.apart, startedHandlers_apart hf.2, ?_⟩
      intro h hh h' hh' hact _ x hx hx'
      obtain ⟨e, he, rfl⟩ := startedHandlers_host hh' hx'
      exact hf.1 e he h hh hact hx
    · intro h hh
      rw [popAndSwitch_handlers] at hh
      rcases List.mem_append.mp hh with hh | hh
      · exact ha.tidy h hh
      · obtain ⟨g, -, rfl⟩ := List.mem_map.mp hh
        exact Handler.tidy_of_no_tasks rfl
  · constructor
    · rw [hset]
      refine Slots.pairwise_set ha.apart hi ?_ ?_
      · intro h' _ hapart hact' hnext
        exact hapart hact' (hact hnext)
      · intro h' _ hapart hnext hact'
        exact hapart (hact hnext) hact'
    · intro h' hh'
      rw [hset] at hh'
      rcases List.mem_or_eq_of_mem_set hh' with hh' | rfl
      · exact ha.tidy h' hh'
      · exact htidy (ha.tidy h (List.mem_of_getElem? hi))
  · exact ⟨hsame ▸ ha.apart, hsame ▸ ha.tidy⟩

theorem request_host {task : TaskState} {m : DbInstMetadata} (h : task.request? = some req)
    (hm : m ∈ req.instData) : m.host ∈ task.hosts := by
  rw [TaskState.hosts_request h]
  exact List.mem_map.mpr ⟨m, hm, rfl⟩

theorem host_of_key {m m' : DbInstMetadata} (h : m.key = m'.key) : m.host = m'.host := by
  obtain ⟨hcloud, hip, -⟩ := instanceKey_inj.mp h
  exact hostKey_inj.mpr ⟨hcloud, hip⟩

theorem noDoubleSwitch_of_hostsApart (ha : HostsApart s) : NoDoubleSwitch s := by
  refine List.pairwise_flatMap.mpr ⟨fun h hh => ?_, ha.apart.imp_of_mem ?_⟩
  · refine List.Pairwise.filterMap _ ?_ (ha.tidy h hh).apart
    intro task task' hapart req hreq req' hreq' m hm m' hm' hkey
    have hhost := request_host hreq' hm'
    rw [← host_of_key hkey] at hhost
    exact hapart _ (request_host hreq hm) hhost
  · intro h h' hh hh' hapart req hreq req' hreq' m hm m' hm' hkey
    obtain ⟨task, htask, hreq⟩ := List.mem_filterMap.mp hreq
    obtain ⟨task', htask', hreq'⟩ := List.mem_filterMap.mp hreq'
    have hhost := (ha.tidy h' hh').within task' htask' _ (request_host hreq' hm')
    rw [← host_of_key hkey] at hhost
    exact hapart (active_of_task htask) (active_of_task htask') _
      ((ha.tidy h hh).within task htask _ (request_host hreq hm)) hhost

/-- In a run whose pops take no entry on a host that is being switched, no instance is ever in two
running switches. -/
theorem no_double_switch {windowDuration inflightTTL clock : ℤ}
    (h : Run (Guarded HostsFree (Steps (Am.next cfg))) (.initial windowDuration inflightTTL clock)
      es s) : NoDoubleSwitch s := by
  refine noDoubleSwitch_of_hostsApart (h.invariant HostsApart ?_ ?_)
  · exact ⟨.nil, fun h hh => by cases hh⟩
  · rintro s e t ha ⟨hf, hs⟩
    exact hostsApart_step ha hf hs

instance (s : Am) : Decidable (NoDoubleSwitch s) := inferInstanceAs (Decidable (List.Pairwise _ _))

/-- One of two masters on a host. -/
def masterOn (port : ℤ) : Instance := { failedMaster .detectFailure with port }

def switchOnDetect : DbSwitchingStrategy where
  id := 1
  bkBizID := 0
  triggerEventName := .detectFailure
  triggerCount := 1
  priority := 1
  action := .switch

/-- What DBM knows of the host. -/
def hostMetadatas : List DbInstMetadata :=
  [⟨100, 1, "10.0.0.1", 3306, 5, .running⟩, ⟨100, 1, "10.0.0.1", 3307, 6, .running⟩]

/-- The masters of one host are reported five seconds apart and mature in two passes. -/
def twoPorts : List AmEvent :=
  [.push 100 (masterOn 3306) 0 0, .push 100 (masterOn 3307) 5 5,
    .popAndSwitch 100 11 .still, .spawn 0 .still (some hostMetadatas) (some [switchOnDetect]),
    .switch 0 0 none, .popAndSwitch 100 16 .still,
    .spawn 1 .still (some hostMetadatas) (some [switchOnDetect]), .switch 1 0 none]

/-- Each pass switches the whole host. -/
theorem host_switched_twice :
    ∃ s, Run (Steps (Am.next switchAll)) (.initial 10 30 0) twoPorts s ∧ ¬ NoDoubleSwitch s := by
  obtain ⟨s, hs, hp⟩ := exists_run_of_exec (Am.next switchAll) (.initial 10 30 0) twoPorts
    (fun s => ¬ NoDoubleSwitch s) (by decide +kernel)
  exact ⟨s, hs, of_decide_eq_true hp⟩

theorem no_double_switch_two_passes :
    ∃ s, Run (Guarded HostsFree (Steps (Am.next switchAll))) (.initial 10 30 0)
        [.push 100 (masterOn 3306) 0 0,
          .push 100 { masterOn 3306 with ip := "10.0.0.2", clusterID := 7 } 5 5,
          .popAndSwitch 100 11 .still,
          .spawn 0 .still (some hostMetadatas) (some [switchOnDetect]), .switch 0 0 none,
          .popAndSwitch 100 16 .still,
          .spawn 1 .still (some [⟨100, 1, "10.0.0.2", 3306, 7, .running⟩]) (some [switchOnDetect]),
          .switch 1 0 none] s ∧
      s.running.length = 2 ∧ NoDoubleSwitch s := by
  obtain ⟨s, hs, hp⟩ := exists_guarded_run (Am.next switchAll) HostsFree (.initial 10 30 0)
    [.push 100 (masterOn 3306) 0 0,
      .push 100 { masterOn 3306 with ip := "10.0.0.2", clusterID := 7 } 5 5,
      .popAndSwitch 100 11 .still,
      .spawn 0 .still (some hostMetadatas) (some [switchOnDetect]), .switch 0 0 none,
      .popAndSwitch 100 16 .still,
      .spawn 1 .still (some [⟨100, 1, "10.0.0.2", 3306, 7, .running⟩]) (some [switchOnDetect]),
      .switch 1 0 none]
    (fun s => s.running.length = 2) (by decide +kernel)
  exact ⟨s, hs, of_decide_eq_true hp, no_double_switch hs⟩

end Failover
