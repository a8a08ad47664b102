import BluekingDbm.Resource.SameLocation

/-! Groups that are not confined to one sub-zone do end up in two: a pool is built that has one host for
each group, where the group admits it. -/
namespace Resource

open Program

section Guests

variable {w : Surroundings} {caller : Caller} {db db' : Db} {t t' : Table} {tried : String}

/-- A group for one host, whose only host there is stands in `subZone`. -/
structure Guest where
  number : ℕ
  placement : Placement
  subZone : String

/-- A string that is none of the list: it is longer than any of them. -/
def unlike (l : List String) : String := l.foldr (fun s rest => s ++ rest) "x"

theorem unlike_pos (l : List String) : 0 < (unlike l).length := by
  induction l with
  | nil => decide
  | cons a l ih =>
    show 0 < (a ++ unlike l).length
    rw [String.length_append]
    omega

theorem length_lt_unlike {l : List String} {s : String} (h : s ∈ l) : s.length < (unlike l).length := by
  induction l with
  | nil => cases h
  | cons a l ih =>
    show s.length < (a ++ unlike l).length
    rw [String.length_append]
    rcases List.mem_cons.mp h with rfl | h
    · have := unlike_pos l
      omega
    · have := ih h
      omega

theorem unlike_notMem (l : List String) : unlike l ∉ l := fun h =>
  absurd (length_lt_unlike h) (Nat.lt_irrefl _)

namespace Guest

variable (g : Guest)

def group : ObjectDetail where
  bkCloudId := 0
  hosts := if g.placement.designated then [g.number] else []
  groupMark := String.ofList (List.replicate g.number 'g')
  deviceClass := []
  cpu := ⟨0, 0⟩
  mem := ⟨0, 0⟩
  storageSpecs := []
  locationSpec := g.placement.location
  tolerance := 0
  currentHosts := []
  affinity := .sameSubzone
  count := 1
  suits := fun m => m.bkHostID = g.number
  fitsDisks := none
  resourcePriority := fun _ => 0
  count_pos := Nat.one_pos

def machine : Machine where
  bkHostID := g.number
  subZone := "z"
  rackID := unlike g.placement.location.excludeRackIds
  netDeviceID := unlike g.placement.location.excludeNetDeviceIds
  id := g.number
  bkCloudID := 0
  city := g.placement.location.city
  subZoneID := g.subZone
  gseAlive := true

def room : Row := ⟨g.machine, .unused, none⟩

def picked : Picked := ⟨g.group.groupMark, [g.number]⟩

end Guest

variable {g : Guest} {gs : List Guest} {holder : Option Caller}

@[simp] theorem placement_group : g.group.placement = g.placement := by
  cases h : g.placement with
  | mk location designated =>
    cases designated <;> simp [ObjectDetail.placement, Guest.group, h]

theorem pickBase_room : (Search.mk g.group [] [tried]).pickBase ⟨g.machine, .unused, holder⟩ = true ↔
    g.placement.Admits tried g.subZone := by
  have hrack := unlike_notMem g.placement.location.excludeRackIds
  have hdevice := unlike_notMem g.placement.location.excludeNetDeviceIds
  unfold Search.pickBase Placement.Admits
  cases hd : g.placement.designated with
  | true => simp [Guest.group, Guest.machine, hd, Row.matched, Row.listed]
  | false =>
    cases hcity : g.placement.location.isEmpty with
    | true => simp [Guest.group, Guest.machine, hd, hcity, Search.matchLocationSpec, Search.matchAffinity]
    | false =>
      by_cases hnone : g.placement.location.subZoneIds = []
      · simp [Guest.group, Guest.machine, hd, hcity, hnone, Search.matchLocationSpec,
          Search.matchAffinity, LocationSpec.subZoneIsEmpty]
      · cases hexclude : g.placement.location.isExclude <;>
        simp [Guest.group, Guest.machine, hd, hcity, hnone, hexclude, hrack, hdevice,
            Search.matchLocationSpec, Search.matchAffinity, LocationSpec.subZoneIsEmpty] <;>
        · intro _ hempty
          rw [hempty]
          exact List.not_mem_nil

theorem number_of_pickBase {r : Row} {specialSubZoneIds : List String}
    (h : (Search.mk g.group [] specialSubZoneIds).pickBase r = true) : r.bkHostID = g.number := by
  unfold Search.pickBase at h
  cases hd : g.placement.designated with
  | true =>
    simp only [Guest.group, hd, if_true, List.isEmpty_cons, Bool.false_eq_true, if_false,
      Bool.and_eq_true, matched_iff, List.mem_singleton] at h
    exact h.1.1
  | false =>
    simp only [Guest.group, hd, Bool.false_eq_true, if_false, List.isEmpty_nil, if_true, Bool.and_eq_true,
      decide_eq_true_eq] at h
    exact h.1.1.2

/-- A condition that picks out one host finds its row. -/
theorem filter_host {q : Row → Bool} {r : Row} (hids : (t.map fun r => r.bkHostID).Nodup) (hr : r ∈ t)
    (hq : ∀ r' ∈ t, q r' = true → r'.bkHostID = r.bkHostID) :
    t.filter q = if q r then [r] else [] := by
  have hall : ∀ r' ∈ t.filter q, r' = r := by
    intro r' hr'
    obtain ⟨hmem, hq'⟩ := List.mem_filter.mp hr'
    exact List.inj_on_of_nodup_map hids hmem hr (hq r' hmem hq')
  split
  · rename_i hqr
    have hmem : r ∈ t.filter q := List.mem_filter.mpr ⟨hr, hqr⟩
    have hnodup : (t.filter q).Nodup := hids.of_map.filter q
    have hrep := List.eq_replicate_of_mem hall
    rw [hrep] at hnodup hmem ⊢
    have hle := List.nodup_replicate.mp hnodup
    have hne := (List.mem_replicate.mp hmem).1
    have hone : (t.filter q).length = 1 := by omega
    rw [hone]
    rfl
  · rename_i hqr
    refine List.filter_eq_nil_iff.mpr fun r' hr' hq' => hqr ?_
    rw [← hall r' (List.mem_filter.mpr ⟨hr', hq'⟩)]
    exact hq'

/-- The table has an Unused row for each guest, and no second one for any host. -/
structure Housed (gs : List Guest) (t : Table) : Prop where
  distinct : (t.map fun r => r.bkHostID).Nodup
  rooms : ∀ g ∈ gs, ∃ holder, (⟨g.machine, .unused, holder⟩ : Row) ∈ t

theorem given_guest (h : Housed gs t) (hg : g ∈ gs) (hadmits : g.placement.Admits tried g.subZone) :
    (Search.mk g.group [] [tried]).checked t = true ∧
      (Search.mk g.group [] [tried]).given .still t = some [(g.number : ℤ)] := by
  obtain ⟨holder, hroom⟩ := h.rooms g hg
  have hbase := (@pickBase_room tried g holder).mpr hadmits
  have hfilter : t.filter (Search.mk g.group [] [tried]).pickBase = [⟨g.machine, .unused, holder⟩] := by
    rw [filter_host h.distinct hroom fun r' _ hr' => number_of_pickBase hr', if_pos hbase]
  have hchecked : (Search.mk g.group [] [tried]).checked t = true := by
    unfold Search.checked
    cases hd : g.placement.designated with
    | true =>
      have hone : (t.filter fun r => r.matched [(g.number : ℤ)] .unused && r.bkCloudID = 0) =
          [⟨g.machine, .unused, holder⟩] := by
        rw [filter_host h.distinct hroom fun r' _ hr' => ?_, if_pos ?_]
        · simp [Row.matched, Row.listed, Guest.machine]
        · simp only [Bool.and_eq_true, matched_iff, List.mem_singleton] at hr'
          exact hr'.1.1
      have hhosts : g.group.hosts = [(g.number : ℤ)] := by simp [Guest.group, hd]
      rw [if_neg (by simp [hhosts])]
      show decide ((t.countP fun r => r.matched g.group.hosts .unused && r.bkCloudID = 0) =
        g.group.hosts.length) = true
      rw [hhosts, List.countP_eq_length_filter, hone]
      rfl
    | false =>
      rw [if_pos (by simp [Guest.group, hd]), List.countP_eq_length_filter, hfilter]
      rfl
  refine ⟨hchecked, ?_⟩
  unfold Search.given
  rw [if_pos hchecked]
  have hcandidates : (Search.mk g.group [] [tried]).candidates t =
      some [⟨g.machine, .unused, holder⟩] := by
    unfold Search.candidates
    rw [hfilter]
    rfl
  rw [hcandidates]
  cases hd : g.placement.designated with
  | true =>
    have hhosts : g.group.hosts = [(g.number : ℤ)] := by simp [Guest.group, hd]
    simp [Search.pick, SearchContext.pickInstanceBase, Search.searchContext, hhosts, Guest.machine,
      newPicker, PickerObject.pickerDone]
  | false =>
    have hcontext : (Search.mk g.group [] [tried]).searchContext =
        ⟨.sameSubzone, 1, 0, [], [], fun _ => 0⟩ := by
      have hhosts : g.group.hosts = [] := by simp [Guest.group, hd]
      simp only [Search.searchContext, hhosts]
      rfl
    unfold Search.pick
    rw [hcontext]
    rfl

theorem housed_bare (h : Housed gs t) (heq : bare t' = bare t) : Housed gs t' := by
  have hhosts : ∀ t, (bare t).map (fun r => r.bkHostID) = t.map fun r => r.bkHostID :=
    fun _ => List.map_map
  refine ⟨?_, fun g hg => ?_⟩
  · rw [← hhosts, heq, hhosts]
    exact h.distinct
  · obtain ⟨holder, hroom⟩ := h.rooms g hg
    have hmem : (⟨g.machine, .unused, none⟩ : Row) ∈ bare t' := by
      rw [heq]
      exact List.mem_map.mpr ⟨_, hroom, rfl⟩
    obtain ⟨r, hr, hbare⟩ := List.mem_map.mp hmem
    obtain ⟨machine, status, holder'⟩ := r
    cases hbare
    exact ⟨holder', hr⟩

theorem housed_preselect {ids : List ℤ} (h : Housed gs t) (hout : ∀ g ∈ gs, (g.number : ℤ) ∉ ids) :
    Housed gs (preselectFromUnused caller ids t).2 := by
  have hhosts : (preselectFromUnused caller ids t).2.map (fun r => r.bkHostID) =
      t.map fun r => r.bkHostID := by
    show (t.map _).map _ = t.map _
    rw [List.map_map]
    refine List.map_congr_left fun r _ => ?_
    simp only [Function.comp_apply]
    split <;> rfl
  refine ⟨hhosts ▸ h.distinct, fun g hg => ?_⟩
  obtain ⟨holder, hroom⟩ := h.rooms g hg
  refine ⟨holder, mem_update_of_not_hit hroom ?_⟩
  have hnot := hout g hg
  simp [Row.matched, Row.listed, Guest.machine, hnot]

theorem affected_guest (h : Housed gs t) (hg : g ∈ gs) :
    (preselectFromUnused caller [(g.number : ℤ)] t).1 = 1 := by
  obtain ⟨holder, hroom⟩ := h.rooms g hg
  show (t.countP fun r => r.matched [(g.number : ℤ)] .unused) = 1
  rw [List.countP_eq_length_filter, filter_host h.distinct hroom fun r' _ hr' => ?_, if_pos ?_]
  · rfl
  · simp [Row.matched, Row.listed, Guest.machine]
  · exact List.mem_singleton.mp (matched_iff.mp hr').1

theorem not_preselected_guest (h : Housed gs t) (hg : g ∈ gs) : ¬ Shows g.number .preselected t := by
  rintro ⟨r, hr, hhost, hs⟩
  obtain ⟨holder, hroom⟩ := h.rooms g hg
  have heq := List.inj_on_of_nodup_map h.distinct hr hroom hhost
  rw [heq] at hs
  cases hs

theorem applyGroup_served {o : Search} {attempt group : ℕ} {ids : List ℤ}
    (hchecked : o.checked db.table = true)
    (hgiven : o.given (w.pickOrder attempt group) db.table = some ids)
    (haffected : (preselectFromUnused caller ids db.table).1 = ids.length) :
    run (w.serve caller) (applyGroup o attempt group) db = some (.ok ⟨o.detail.groupMark, ids⟩,
      { db with table := (preselectFromUnused caller ids db.table).2 }) := by
  obtain ⟨items, picker, hcandidates, hpick, hdone, rfl⟩ := given_cases hgiven
  have hcheck : run (w.serve caller) (pickCheck o) db = some (none, db) := by
    rw [run_pickCheck, if_pos hchecked]
  have hinstance : run (w.serve caller) (pickInstance o attempt group) db =
      some (.ok ⟨o.detail.groupMark, picker.satisfiedHostIds⟩, db) := by
    rw [run_pickInstance, hcandidates]
    simp only [hpick, hdone, if_true]
  have hpreselect := @run_preselected w caller db ⟨o.detail.groupMark, picker.satisfiedHostIds⟩
  rw [if_pos haffected] at hpreselect
  unfold applyGroup
  rw [run_bind_some hcheck]
  simp only
  rw [run_bind_some hinstance]
  simp only
  rw [run_bind_some hpreselect]
  rfl

theorem applyGroup_refused {attempt group : ℕ} (h : Housed gs db.table) (hg : g ∈ gs)
    (hnot : ¬ g.placement.Admits tried g.subZone) :
    run (w.serve caller) (applyGroup ⟨g.group, [], [tried]⟩ attempt group) db =
      some (.error (.pickCheck g.group.groupMark), db) := by
  obtain ⟨holder, hroom⟩ := h.rooms g hg
  have hd : g.placement.designated = false := by
    cases hd : g.placement.designated with
    | false => rfl
    | true => exact absurd (by simp [Placement.Admits, hd]) hnot
  have hchecked : (Search.mk g.group [] [tried]).checked db.table = false := by
    unfold Search.checked
    rw [if_pos (by simp [Guest.group, hd]), List.countP_eq_length_filter,
      filter_host h.distinct hroom fun r' _ hr' => number_of_pickBase hr',
      if_neg fun hbase => hnot (pickBase_room.mp hbase)]
    rfl
  have hcheck : run (w.serve caller) (pickCheck ⟨g.group, [], [tried]⟩) db =
      some (some (.pickCheck g.group.groupMark), db) := by
    rw [run_pickCheck, hchecked]
    rfl
  unfold applyGroup
  rw [run_bind_some hcheck]
  rfl

theorem run_guests {attempt group : ℕ} {pickers : List Picked} (hnumbers : (gs.map Guest.number).Nodup)
    (h : Housed gs db.table) (hw : w.pickOrder = fun _ _ => .still) : ∃ picked err db',
      run (w.serve caller) (applyGroups (fun v => pure (.ok ⟨v, [], [tried]⟩)) attempt group
        (gs.map Guest.group) pickers) db = some ((pickers ++ picked, err), db') ∧
      db'.table = (preselectFromUnused caller (hostIds picked) db.table).2 ∧
      (∀ x ∈ hostIds picked, ∃ g ∈ gs, x = g.number) ∧
      (err = none ↔ ∀ g ∈ gs, g.placement.Admits tried g.subZone) ∧
      (err = none → picked = gs.map Guest.picked) := by
  induction gs generalizing db group pickers with
  | nil =>
    refine ⟨[], none, db, ?_, ?_, fun _ hx => absurd hx List.not_mem_nil, ?_, fun _ => rfl⟩
    · rw [List.append_nil]
      rfl
    · exact (@tried_nothing caller db.table).table
    · exact ⟨fun _ _ hg => absurd hg List.not_mem_nil, fun _ => rfl⟩
  | cons g gs ih =>
    obtain ⟨hfresh, hnumbers⟩ := List.nodup_cons.mp hnumbers
    have hg : g ∈ g :: gs := List.mem_cons_self
    by_cases hadmits : g.placement.Admits tried g.subZone
    · obtain ⟨hchecked, hgiven⟩ := given_guest h hg hadmits
      have hout : ∀ g' ∈ gs, (g'.number : ℤ) ∉ [(g.number : ℤ)] := by
        intro g' hg' hin
        have heq : g'.number = g.number := by exact_mod_cast List.mem_singleton.mp hin
        exact hfresh (heq ▸ List.mem_map_of_mem hg')
      have hrest : Housed gs db.table := ⟨h.distinct, fun g' hg' => h.rooms g' (List.mem_cons_of_mem _ hg')⟩
      have happly := @applyGroup_served w caller db ⟨g.group, [], [tried]⟩ attempt group
        [(g.number : ℤ)] hchecked (by rw [hw]; exact hgiven) (affected_guest h hg)
      obtain ⟨picked, err, db', hrun, htable, hids, herr, hpicked⟩ := @ih
        { db with table := (preselectFromUnused caller [(g.number : ℤ)] db.table).2 } (group + 1)
        (pickers ++ [g.picked]) hnumbers (housed_preselect hrest hout)
      refine ⟨g.picked :: picked, err, db', ?_, ?_, ?_, ?_, ?_⟩
      · rw [List.append_assoc] at hrun
        show run (w.serve caller) (applyGroup ⟨g.group, [], [tried]⟩ attempt group >>= fun r => _) db = _
        rw [run_bind_some happly]
        exact hrun
      · rw [htable, hostIds_cons]
        exact preselect_append.symm
      · intro x hx
        rw [hostIds_cons] at hx
        rcases List.mem_append.mp hx with hx | hx
        · exact ⟨g, hg, List.mem_singleton.mp hx⟩
        · obtain ⟨g', hg', heq⟩ := hids x hx
          exact ⟨g', List.mem_cons_of_mem _ hg', heq⟩
      · rw [herr]
        exact ⟨fun hall => List.forall_mem_cons.mpr ⟨hadmits, hall⟩,
          fun hall => (List.forall_mem_cons.mp hall).2⟩
      · intro hnone
        rw [hpicked hnone]
        rfl
    · refine ⟨[], some (.pickCheck g.group.groupMark), db, ?_, ?_, fun _ hx => absurd hx List.not_mem_nil,
        ?_, nofun⟩
      · rw [List.append_nil]
        show run (w.serve caller) (applyGroup ⟨g.group, [], [tried]⟩ attempt group >>= fun r => _) db = _
        rw [run_bind_some (applyGroup_refused h hg hadmits)]
        rfl
      · exact (@tried_nothing caller db.table).table
      · exact ⟨nofun, fun hall => absurd (hall g hg) hadmits⟩

theorem trySubZones_guests {attempt : ℕ} {zone : String} {zones : List String}
    (hnumbers : (gs.map Guest.number).Nodup) (h : Housed gs db.table)
    (hw : w.pickOrder = fun _ _ => .still)
    (hadmits : ∃ tried ∈ zone :: zones, ∀ g ∈ gs, g.placement.Admits tried g.subZone) : ∃ db',
      run (w.serve caller) (trySubZones (gs.map Guest.group) [] attempt zone zones) db =
        some ((gs.map Guest.picked, none), db') := by
  induction zones generalizing attempt zone db with
  | nil =>
    obtain ⟨tried, htried, hall⟩ := hadmits
    obtain rfl := List.mem_singleton.mp htried
    obtain ⟨picked, err, db', hrun, -, -, herr, hpicked⟩ :=
      @run_guests w caller db tried gs attempt 0 [] hnumbers h hw
    have hnone := herr.mpr hall
    rw [hnone, hpicked hnone, List.nil_append] at hrun
    unfold trySubZones
    rw [run_bind_some hrun]
    exact ⟨db', rfl⟩
  | cons next zones ih =>
    obtain ⟨picked, err, db₁, hrun, htable, hids, herr, hpicked⟩ :=
      @run_guests w caller db zone gs attempt 0 [] hnumbers h hw
    rw [List.nil_append] at hrun
    unfold trySubZones
    rw [run_bind_some hrun]
    cases err with
    | none =>
      rw [hpicked rfl]
      exact ⟨db₁, rfl⟩
    | some err =>
      simp only
      rw [run_bind_some run_rollBackAll]
      refine ih ?_ ?_
      · refine housed_bare h ?_
        rw [htable]
        refine bare_rolledBack fun x hx => ?_
        obtain ⟨g, hg, rfl⟩ := hids x hx
        exact not_preselected_guest h hg
      · obtain ⟨tried, htried, hall⟩ := hadmits
        rcases List.mem_cons.mp htried with rfl | htried
        · cases herr.mpr hall
        · exact ⟨tried, htried, hall⟩

/-- The request of the guests. -/
def guestParam (gs : List Guest) (h : gs ≠ []) : RequestInputParam where
  resourceType := "mysql"
  dryRun := false
  details := gs.map Guest.group
  groupsInSameLocation := true
  details_ne_nil hnil := h (List.map_eq_nil_iff.mp hnil)

theorem sameLocation_guestParam {h : gs ≠ []} (hlen : 1 < gs.length) :
    (guestParam gs h).sameLocation = true := by
  have hone : ∀ gs : List Guest, gs ≠ [] →
      ((gs.map Guest.group).map ObjectDetail.affinity).eraseDups = [.sameSubzone] := by
    intro gs hne
    cases gs with
    | nil => exact absurd rfl hne
    | cons g gs =>
      have hrest : (((gs.map Guest.group).map ObjectDetail.affinity).filter fun b =>
          !b == Affinity.sameSubzone) = [] := by
        rw [List.filter_eq_nil_iff]
        intro a ha
        obtain ⟨v, hv, rfl⟩ := List.mem_map.mp ha
        obtain ⟨g', -, rfl⟩ := List.mem_map.mp hv
        simp [Guest.group]
      show (Affinity.sameSubzone :: (gs.map Guest.group).map ObjectDetail.affinity).eraseDups = _
      rw [List.eraseDups_cons, hrest]
      rfl
  have haffinities : (guestParam gs h).getAllAffinities = [.sameSubzone] := hone gs h
  unfold RequestInputParam.sameLocation
  rw [haffinities]
  simp [guestParam, hlen]

/-- Groups in another order are those of the guests in that order. -/
theorem exists_guests {vs : List ObjectDetail} (h : vs.Perm (gs.map Guest.group)) :
    ∃ gs' : List Guest, gs'.Perm gs ∧ gs'.map Guest.group = vs := by
  have hall : List.Forall₂ (fun v g => v = Guest.group g) (gs.map Guest.group) gs := by
    rw [List.forall₂_map_left_iff]
    exact List.forall₂_same.mpr fun _ _ => rfl
  obtain ⟨gs', heach, hperm⟩ := List.perm_comp_forall₂ h hall
  refine ⟨gs', hperm, ?_⟩
  have heq := List.forall₂_map_right_iff.mpr heach
  rw [List.forall₂_eq_eq_eq] at heq
  exact heq.symm

section Candidates

theorem pickBase_anywhere (h : g.placement.Admits tried g.subZone) :
    (Search.mk g.group [] []).pickBase ⟨g.machine, .unused, holder⟩ = true := by
  have hrack := unlike_notMem g.placement.location.excludeRackIds
  have hdevice := unlike_notMem g.placement.location.excludeNetDeviceIds
  unfold Placement.Admits at h
  unfold Search.pickBase
  cases hd : g.placement.designated with
  | true => simp [Guest.group, Guest.machine, hd, Row.matched, Row.listed]
  | false =>
    cases hcity : g.placement.location.isEmpty with
    | true => simp [Guest.group, Guest.machine, hd, hcity, Search.matchLocationSpec, Search.matchAffinity]
    | false =>
      by_cases hnone : g.placement.location.subZoneIds = []
      · simp [Guest.group, Guest.machine, hd, hcity, hnone, Search.matchLocationSpec,
          Search.matchAffinity, LocationSpec.subZoneIsEmpty]
      · simp only [hd, hcity, Bool.or_self, Bool.false_eq_true, if_false, List.isEmpty_iff, hnone] at h
        obtain ⟨hown, hout⟩ := h
        cases hexclude : g.placement.location.isExclude <;> rw [hexclude] at hown <;>
        simp only [Bool.false_eq_true, if_false, if_true] at hown <;>
        simp [Guest.group, Guest.machine, hd, hcity, hnone, hexclude, hrack, hdevice, hown, hout,
            Search.matchLocationSpec, Search.matchAffinity, LocationSpec.subZoneIsEmpty]

theorem campusNice_room :
    ∃ cn ∈ campusNice g.group [⟨g.machine, .unused, holder⟩], cn.campus = g.subZone := by
  have hdevices : 1 ≤ (Text.split g.machine.netDeviceID ',').dedup.length := by
    have hne : Text.split g.machine.netDeviceID ',' ≠ [] := fun hnil =>
      List.splitOn_ne_nil _ _ (List.map_eq_nil_iff.mp hnil)
    obtain ⟨a, ha⟩ := List.exists_mem_of_ne_nil _ hne
    exact List.length_pos_of_mem (List.mem_dedup.mpr ha)
  have hhere : ([⟨g.machine, .unused, holder⟩] : List Row).filter
      (fun r => r.subZoneID = g.subZone) = [⟨g.machine, .unused, holder⟩] := by
    simp [Guest.machine]
  unfold campusNice
  simp only [List.map_cons, List.map_nil]
  have hdedup : ([g.machine.subZoneID] : List String).dedup = [g.subZone] := by simp [Guest.machine]
  rw [hdedup]
  simp only [List.filterMap_cons, List.filterMap_nil]
  rw [hhere]
  have hroom : g.group.count ≤ 1 ∧ g.group.count ≤ ([g.machine.rackID].dedup).length ∧
      g.group.count ≤ (Text.split g.machine.netDeviceID ',').dedup.length :=
    ⟨Nat.le_refl 1, by simp [Guest.group], hdevices⟩
  have hdevices' : ([⟨g.machine, .unused, holder⟩] : List Row).flatMap
      (fun r => Text.split r.netDeviceID ',') = Text.split g.machine.netDeviceID ',' :=
    List.flatMap_singleton ..
  rw [hdevices']
  simp only [List.length_singleton, List.map_cons, List.map_nil]
  rw [if_pos hroom]
  exact ⟨_, List.mem_cons_self, rfl⟩

theorem mem_foldl_groups {vs : List ObjectDetail} {nice : ObjectDetail → List CampusNice}
    {v : ObjectDetail} {groups : List (String × List CampusNice)}
    (hmarks : (vs.map ObjectDetail.groupMark).Nodup)
    (hv : v ∈ vs ∨ (v.groupMark, nice v) ∈ groups ∧ v.groupMark ∉ vs.map ObjectDetail.groupMark) :
    (v.groupMark, nice v) ∈ vs.foldl (fun groups v =>
      (groups.filter fun g => g.1 ≠ v.groupMark) ++ [(v.groupMark, nice v)]) groups := by
  induction vs generalizing groups with
  | nil => exact (hv.resolve_left List.not_mem_nil).1
  | cons u vs ih =>
    obtain ⟨hfresh, hmarks⟩ := List.nodup_cons.mp hmarks
    refine ih hmarks ?_
    rcases hv with hv | ⟨hin, hout⟩
    · rcases List.mem_cons.mp hv with rfl | hv
      · exact .inr ⟨List.mem_append_right _ List.mem_cons_self, hfresh⟩
      · exact .inl hv
    · obtain ⟨hne, hout⟩ := List.ne_and_not_mem_of_not_mem_cons hout
      exact .inr ⟨List.mem_append_left _ (List.mem_filter.mpr ⟨hin, by simpa using hne⟩), hout⟩

theorem mem_sortgroupcampusNice {rt : Runtime} {gpms : List (String × List CampusNice)}
    {gp : String × List CampusNice} {cn : CampusNice} (hgp : gp ∈ gpms) (hcn : cn ∈ gp.2) :
    cn.campus ∈ sortgroupcampusNice rt gpms := by
  unfold sortgroupcampusNice
  simp only
  rw [List.mem_insertionSort, (rt.names_perm _ _).mem_iff, List.mem_dedup]
  exact List.mem_map_of_mem (List.mem_flatMap.mpr ⟨gp, hgp, hcn⟩)

/-- A sub-zone in which a guest's host stands is a candidate, unless it is excluded or others are named. -/
theorem mem_subZones_guests {gs' : List Guest} (hperm : gs'.Perm gs)
    (hnumbers : (gs.map Guest.number).Nodup) (h : Housed gs t) (hg : g ∈ gs)
    (hadmits : g.placement.Admits tried g.subZone) {param : RequestInputParam}
    (hnamed : param.specialSubZoneIds.2 = true ∨ param.specialSubZoneIds.1 = [])
    (hout : param.specialSubZoneIds.2 = true → g.subZone ∉ param.specialSubZoneIds.1) :
    g.subZone ∈ w.subZones param (gs'.map Guest.group) [] t := by
  have hmarks : ((gs'.map Guest.group).map ObjectDetail.groupMark).Nodup := by
    rw [List.map_map]
    refine List.Nodup.map_on ?_ (hperm.nodup_iff.mpr hnumbers.of_map)
    intro a ha b hb hab
    refine List.inj_on_of_nodup_map hnumbers (hperm.mem_iff.mp ha) (hperm.mem_iff.mp hb) ?_
    have hmark : List.replicate a.number 'g' = List.replicate b.number 'g' :=
      String.ofList_injective hab
    simpa using congrArg List.length hmark
  obtain ⟨holder, hroom⟩ := h.rooms g hg
  have hfilter : t.filter (Search.mk g.group [] []).pickBase = [⟨g.machine, .unused, holder⟩] := by
    rw [filter_host h.distinct hroom fun r' _ hr' => number_of_pickBase hr',
      if_pos (pickBase_anywhere hadmits)]
  obtain ⟨cn, hcn, hcampus⟩ := @campusNice_room g holder
  have hmem := @mem_foldl_groups (gs'.map Guest.group)
    (fun v => campusNice v (t.filter (Search.mk v [] []).pickBase)) g.group [] hmarks
    (.inl (List.mem_map_of_mem (hperm.mem_iff.mpr hg)))
  have hsort := @mem_sortgroupcampusNice w.campusOrder _ _ cn hmem (by simpa only [hfilter] using hcn)
  rw [hcampus] at hsort
  unfold Surroundings.subZones
  generalize param.specialSubZoneIds = special at hnamed hout ⊢
  obtain ⟨ids, isExclude⟩ := special
  simp only at hnamed hout ⊢
  cases isExclude with
  | true =>
    simp only [Bool.not_true, Bool.false_and, Bool.false_eq_true, if_false, Bool.true_and]
    split
    · exact List.mem_filter.mpr ⟨hsort, decide_eq_true (hout rfl)⟩
    · exact hsort
  | false =>
    obtain rfl := hnamed.resolve_left Bool.false_ne_true
    exact hsort

end Candidates

theorem housed_rooms (hnumbers : (gs.map Guest.number).Nodup) : Housed gs (gs.map Guest.room) where
  distinct := by
    rw [List.map_map]
    exact List.Nodup.map_on (fun a ha b hb hab => List.inj_on_of_nodup_map hnumbers ha hb
      (Int.ofNat.inj hab)) hnumbers.of_map
  rooms g hg := ⟨none, List.mem_map_of_mem hg⟩

/-- Guests that can be placed in one attempt, in more than one sub-zone. -/
theorem not_keepsTogether_of_guests (hnumbers : (gs.map Guest.number).Nodup) (hne : gs ≠ [])
    (hlen : 1 < gs.length) (hadmits : ∀ g ∈ gs, g.placement.Admits tried g.subZone)
    (hdiffer : ∃ g ∈ gs, ∃ g' ∈ gs, g.subZone ≠ g'.subZone)
    (htried : ∀ gs' : List Guest, gs'.Perm gs → tried ∈ Surroundings.steady.subZones
      (guestParam gs hne) (gs'.map Guest.group) [] (gs.map Guest.room)) :
    ¬ KeepsTogether (gs.map Guest.placement) := by
  intro hkeeps
  have hplacements : (guestParam gs hne).details.map ObjectDetail.placement =
      gs.map Guest.placement := by
    show (gs.map Guest.group).map ObjectDetail.placement = _
    rw [List.map_map]
    exact List.map_congr_left fun g _ => placement_group
  have hsort : ((guestParam gs hne).sortDetails Surroundings.steady.detailOrder).Perm
      (gs.map Guest.group) := perm_sortDetails
  obtain ⟨gs', hperm, hvs⟩ := exists_guests hsort
  have hhoused : Housed gs' (gs.map Guest.room) := by
    have h := housed_rooms hnumbers
    exact ⟨h.distinct, fun g hg => h.rooms g (hperm.mem_iff.mp hg)⟩
  have hnumbers' : (gs'.map Guest.number).Nodup := (hperm.map _).nodup_iff.mpr hnumbers
  have hrun : ∃ db', run (Surroundings.steady.serve ⟨0, "a"⟩)
      (applyGroupsInSameLocation "dev" (guestParam gs hne)) ⟨gs.map Guest.room, [], []⟩ =
        some ((gs'.map Guest.picked, none), db') := by
    have hzones := htried gs' hperm
    have horder : run (Surroundings.steady.serve ⟨0, "a"⟩) detailOrder ⟨gs.map Guest.room, [], []⟩ =
        some (Surroundings.steady.detailOrder, ⟨gs.map Guest.room, [], []⟩) := rfl
    unfold applyGroupsInSameLocation
    rw [run_bind_some horder, ← hvs]
    cases gs' with
    | nil => exact absurd hperm.nil_eq.symm hne
    | cons g gs' =>
      simp only [List.map_cons]
      rw [run_bind_some run_getLogicIdcCitys]
      simp only [Surroundings.logicIdcCitys, if_true]
      rw [run_bind_some run_candidateSubZones]
      simp only [List.map_cons] at hzones ⊢
      generalize Surroundings.steady.subZones (guestParam gs hne) (g.group :: gs'.map Guest.group) []
        (gs.map Guest.room) = zones at hzones ⊢
      cases zones with
      | nil => cases hzones
      | cons zone zones =>
        exact trySubZones_guests hnumbers' hhoused rfl ⟨tried, hzones, fun g' hg' =>
          hadmits g' (hperm.mem_iff.mp hg')⟩
  obtain ⟨db', hrun⟩ := hrun
  obtain ⟨z, hall⟩ := hkeeps _ "dev" .steady ⟨0, "a"⟩ ⟨gs.map Guest.room, [], []⟩ db' _ hplacements
    (sameLocation_guestParam hlen) hrun
  have hzone : ∀ g ∈ gs, g.subZone = z := by
    intro g hg
    have hin : (g.number : ℤ) ∈ hostIds (gs'.map Guest.picked) :=
      List.mem_flatMap.mpr ⟨g.picked, List.mem_map_of_mem (hperm.mem_iff.mpr hg), List.mem_singleton_self _⟩
    obtain ⟨m, hm, hhost, hz⟩ := hall _ hin
    obtain ⟨r, hr, rfl⟩ := List.mem_map.mp hm
    obtain ⟨g', hg', rfl⟩ := List.mem_map.mp hr
    have hsame : g'.number = g.number := Int.ofNat.inj hhost
    rw [← hz, ← List.inj_on_of_nodup_map hnumbers hg' hg hsame]
    rfl
  obtain ⟨g, hg, g', hg', hne'⟩ := hdiffer
  exact hne' ((hzone g hg).trans (hzone g' hg').symm)

/-- The group has no say in where it stands. -/
def Placement.Follows (p : Placement) : Prop :=
  p.designated = false ∧ p.location.isEmpty = false ∧ p.location.subZoneIds = []

theorem Placement.Follows.admits {p : Placement} (h : p.Follows) {z : String} :
    p.Admits tried z ↔ z = tried := by
  obtain ⟨hd, hcity, hnone⟩ := h
  simp [Placement.Admits, hd, hcity, hnone]

theorem admits_of_not_follows {p : Placement} (h : ¬ p.Follows) {tried' z : String}
    (hadmits : p.Admits tried z) : p.Admits tried' z := by
  unfold Placement.Admits at hadmits ⊢
  split
  · trivial
  · rename_i hfree
    rw [if_neg hfree] at hadmits
    split
    · rename_i hnone
      simp only [Bool.or_eq_true, not_or, Bool.not_eq_true] at hfree
      exact absurd ⟨hfree.1, hfree.2, List.isEmpty_iff.mp hnone⟩ h
    · rename_i hsome
      rw [if_neg hsome] at hadmits
      exact hadmits

/-- Guests with these placements and sub-zones, numbered in this order. -/
def guests (l : List (Placement × String)) : List Guest :=
  l.zipIdx.map fun e => ⟨e.2, e.1.1, e.1.2⟩

theorem placement_guests (l : List (Placement × String)) :
    (guests l).map Guest.placement = l.map Prod.fst := by
  unfold guests
  rw [List.map_map]
  conv_rhs => rw [← List.zipIdx_map_fst 0 l, List.map_map]
  rfl

theorem nodup_guests (l : List (Placement × String)) : ((guests l).map Guest.number).Nodup := by
  unfold guests
  rw [List.map_map]
  exact List.nodup_zipIdx_map_snd l

theorem mem_guests {l : List (Placement × String)} (h : g ∈ guests l) :
    (g.placement, g.subZone) ∈ l := by
  obtain ⟨e, he, rfl⟩ := List.mem_map.mp h
  have he' : e.1 ∈ (l.zipIdx 0).map Prod.fst := List.mem_map_of_mem he
  rwa [List.zipIdx_map_fst] at he'

theorem exists_mem_guests {l : List (Placement × String)} {e : Placement × String} (h : e ∈ l) :
    ∃ g ∈ guests l, (g.placement, g.subZone) = e := by
  rw [← List.zipIdx_map_fst 0 l] at h
  obtain ⟨a, ha, rfl⟩ := List.mem_map.mp h
  exact ⟨_, List.mem_map_of_mem ha, rfl⟩

/-- A choice of admitted sub-zones that are not all the same. -/
theorem exists_lodging {ps : List Placement} (hlen : 1 < ps.length)
    (hsome : ∀ p ∈ ps, ∃ z, p.Admits tried z)
    (hdiffer : ∀ z, ∃ p ∈ ps, ∃ z', p.Admits tried z' ∧ z' ≠ z) :
    ∃ l : List (Placement × String), l.map Prod.fst = ps ∧ (∀ e ∈ l, e.1.Admits tried e.2) ∧
      ∃ e ∈ l, ∃ e' ∈ l, e.2 ≠ e'.2 := by
  choose! c hc using hsome
  by_cases hconstant : ∃ p ∈ ps, ∃ p' ∈ ps, c p ≠ c p'
  · obtain ⟨p, hp, p', hp', hne⟩ := hconstant
    refine ⟨ps.map fun p => (p, c p), by simp [Function.comp_def], fun e he => ?_, _,
      List.mem_map_of_mem hp, _, List.mem_map_of_mem hp', hne⟩
    obtain ⟨p, hp, rfl⟩ := List.mem_map.mp he
    exact hc p hp
  · push Not at hconstant
    -- all choices agree, so one group that admits another sub-zone is moved there
    obtain ⟨p₀, hp₀⟩ := List.exists_mem_of_length_pos (Nat.zero_lt_of_lt hlen)
    obtain ⟨p, hp, z', hz', hne⟩ := hdiffer (c p₀)
    obtain ⟨before, after, rfl⟩ := List.append_of_mem hp
    have hother : ∃ q, q ∈ before ∨ q ∈ after := by
      rcases before with _ | ⟨q, before⟩
      · rcases after with _ | ⟨q, after⟩
        · simp at hlen
        · exact ⟨q, .inr List.mem_cons_self⟩
      · exact ⟨q, .inl List.mem_cons_self⟩
    refine ⟨before.map (fun p => (p, c p)) ++ (p, z') :: after.map fun p => (p, c p),
      by simp [Function.comp_def], fun e he => ?_, ?_⟩
    · rcases List.mem_append.mp he with he | he
      · obtain ⟨q, hq, rfl⟩ := List.mem_map.mp he
        exact hc q (List.mem_append_left _ hq)
      · rcases List.mem_cons.mp he with rfl | he
        · exact hz'
        · obtain ⟨q, hq, rfl⟩ := List.mem_map.mp he
          exact hc q (List.mem_append_right _ (List.mem_cons_of_mem _ hq))
    · obtain ⟨q, hq⟩ := hother
      refine ⟨(p, z'), List.mem_append_right _ List.mem_cons_self, (q, c q), ?_, ?_⟩
      · rcases hq with hq | hq
        · exact List.mem_append_left _ (List.mem_map_of_mem hq)
        · exact List.mem_append_right _ (List.mem_cons_of_mem _ (List.mem_map_of_mem hq))
      · have hmem : q ∈ before ++ p :: after := by
          rcases hq with hq | hq
          · exact List.mem_append_left _ hq
          · exact List.mem_append_right _ (List.mem_cons_of_mem _ hq)
        rw [← hconstant p₀ hp₀ q hmem]
        exact hne

theorem specialSubZoneIds_guestParam {p : Placement} {z : String} {l : List (Placement × String)}
    {h : guests ((p, z) :: l) ≠ []} : (guestParam (guests ((p, z) :: l)) h).specialSubZoneIds =
      (p.location.subZoneIds, p.location.isExclude) := rfl

theorem guests_ne_nil {e : Placement × String} {l : List (Placement × String)} :
    guests (e :: l) ≠ [] := List.cons_ne_nil _ _

theorem length_guests {l : List (Placement × String)} : (guests l).length = l.length := by
  unfold guests
  rw [List.length_map, List.length_zipIdx]

/-- The groups can be lodged in more than one sub-zone while they are tried in a candidate. -/
theorem not_keepsTogether_of_lodging {p : Placement} {z : String} {l : List (Placement × String)}
    (hlen : l ≠ []) (hadmits : ∀ e ∈ (p, z) :: l, e.1.Admits tried e.2)
    (hdiffer : ∃ e ∈ (p, z) :: l, ∃ e' ∈ (p, z) :: l, e.2 ≠ e'.2)
    (htried : p.location.isExclude = false ∧ tried ∈ p.location.subZoneIds ∨
      (p.location.isExclude = true ∨ p.location.subZoneIds = []) ∧
        tried ∉ p.location.subZoneIds ∧ ∃ e ∈ (p, z) :: l, e.2 = tried) :
    ¬ KeepsTogether (p :: l.map Prod.fst) := by
  have hplaced : p :: l.map Prod.fst = (guests ((p, z) :: l)).map Guest.placement :=
    (placement_guests ((p, z) :: l)).symm
  rw [hplaced]
  have hnumbers := nodup_guests ((p, z) :: l)
  have hall : ∀ g ∈ guests ((p, z) :: l), g.placement.Admits tried g.subZone :=
    fun g hg => hadmits _ (mem_guests hg)
  refine not_keepsTogether_of_guests hnumbers guests_ne_nil ?_ hall ?_ fun gs' hperm => ?_
  · have := List.length_pos_of_ne_nil hlen
    rw [length_guests, List.length_cons]
    omega
  · obtain ⟨e, he, e', he', hne⟩ := hdiffer
    obtain ⟨g, hg, rfl⟩ := exists_mem_guests he
    obtain ⟨g', hg', rfl⟩ := exists_mem_guests he'
    exact ⟨g, hg, g', hg', hne⟩
  · rcases htried with ⟨hnamed, hin⟩ | ⟨hnamed, hout, e, he, heq⟩
    · simp only [Surroundings.subZones, specialSubZoneIds_guestParam, hnamed, Bool.not_false,
        Bool.true_and, List.isEmpty_eq_false_iff.mpr (List.ne_nil_of_mem hin), if_true]
      exact hin
    · obtain ⟨g, hg, rfl⟩ := exists_mem_guests he
      obtain rfl : g.subZone = tried := heq
      have hspecial := @specialSubZoneIds_guestParam p z l guests_ne_nil
      refine mem_subZones_guests hperm hnumbers (housed_rooms hnumbers) hg (hall g hg) ?_ ?_
      · rw [hspecial]
        exact hnamed
      · rw [hspecial]
        exact fun _ => hout

theorem confined_of_keepsTogether {p₀ p₁ : Placement} {ps : List Placement}
    (h : KeepsTogether (p₀ :: p₁ :: ps)) : Confined (p₀ :: p₁ :: ps) := by
  intro p hp tried htries
  obtain rfl : p₀ = p := Option.some.inj hp
  by_contra hnot
  push Not at hnot
  obtain ⟨hsome, hdiffer⟩ := hnot
  obtain ⟨l, hl, hadmits, hlodged⟩ :=
    exists_lodging (by simp : 1 < (p₀ :: p₁ :: ps).length) hsome hdiffer
  rcases l with _ | ⟨⟨q₀, z₀⟩, l⟩
  · cases hl
  rcases l with _ | ⟨⟨q₁, z₁⟩, l⟩
  · cases hl
  cases hl
  unfold Placement.Tries at htries
  have hapart : q₀.location.isExclude = false ∧ tried ∈ q₀.location.subZoneIds ∨
      (q₀.location.isExclude = true ∨ q₀.location.subZoneIds = []) ∧
        tried ∉ q₀.location.subZoneIds := by
    cases hexclude : q₀.location.isExclude with
    | true =>
      rw [if_pos hexclude] at htries
      exact .inr ⟨.inl rfl, htries⟩
    | false =>
      rw [if_neg (Bool.eq_false_iff.mp hexclude)] at htries
      rcases htries with hnone | hin
      · exact .inr ⟨.inr hnone, hnone ▸ List.not_mem_nil⟩
      · exact .inl ⟨rfl, hin⟩
  rcases hapart with hnamed | ⟨hnamed, hout⟩
  · exact not_keepsTogether_of_lodging (List.cons_ne_nil _ _) hadmits hlodged (.inl hnamed) h
  by_cases hfollows : ∃ e ∈ (q₀, z₀) :: (q₁, z₁) :: l, e.1.Follows
  · obtain ⟨e, he, hfollows⟩ := hfollows
    have heq : e.2 = tried := hfollows.admits.mp (hadmits e he)
    exact not_keepsTogether_of_lodging (List.cons_ne_nil _ _) hadmits hlodged
      (.inr ⟨hnamed, hout, e, he, heq⟩) h
  · -- no group minds which sub-zone is tried, so one where the first group stands can be
    push Not at hfollows
    by_cases hfree : q₀.designated || q₀.location.isEmpty
    · have hwhere := unlike_notMem (z₁ :: q₀.location.subZoneIds)
      generalize unlike (z₁ :: q₀.location.subZoneIds) = z at hwhere
      obtain ⟨hne, hwhere⟩ := List.ne_and_not_mem_of_not_mem_cons hwhere
      refine @not_keepsTogether_of_lodging z _ _ _ (List.cons_ne_nil _ _) ?_ ?_
        (.inr ⟨hnamed, hwhere, (q₀, z), List.mem_cons_self, rfl⟩) h
      · intro e he
        rcases List.mem_cons.mp he with rfl | he
        · simp [Placement.Admits, hfree]
        · exact admits_of_not_follows (hfollows e (List.mem_cons_of_mem _ he))
            (hadmits e (List.mem_cons_of_mem _ he))
      · exact ⟨(q₀, z), List.mem_cons_self, (q₁, z₁), List.mem_cons_of_mem _ List.mem_cons_self, hne⟩
    · have hadmits₀ := hadmits _ List.mem_cons_self
      have hsome₀ : q₀.location.subZoneIds ≠ [] := by
        intro hnone
        simp only [Bool.or_eq_true, not_or, Bool.not_eq_true] at hfree
        exact hfollows _ List.mem_cons_self ⟨hfree.1, hfree.2, hnone⟩
      have hexclude := hnamed.resolve_right hsome₀
      simp only [Placement.Admits, hfree, Bool.false_eq_true, if_false, List.isEmpty_iff, hsome₀, hexclude,
        if_true] at hadmits₀
      refine @not_keepsTogether_of_lodging z₀ _ _ _ (List.cons_ne_nil _ _) (fun e he => ?_) hlodged
        (.inr ⟨hnamed, hadmits₀.1, (q₀, z₀), List.mem_cons_self, rfl⟩) h
      exact admits_of_not_follows (hfollows e he) (hadmits e he)

/-- Exactly the placements that are confined keep the groups together. -/
theorem keepsTogether_iff_confined {p₀ p₁ : Placement} {ps : List Placement} :
    KeepsTogether (p₀ :: p₁ :: ps) ↔ Confined (p₀ :: p₁ :: ps) :=
  ⟨confined_of_keepsTogether, keepsTogether_of_confined⟩

/-- A group that names two sub-zones itself. -/
def inTwoZones (groupMark : String) : ObjectDetail :=
  { anyHost 1 Nat.one_pos with
    groupMark, affinity := .sameSubzone, locationSpec := ⟨"sz", ["z1", "z2"], none, [], [], []⟩ }

def twoInTwoZones : RequestInputParam :=
  { oneHost with
    details := [inTwoZones "g1", inTwoZones "g2"], groupsInSameLocation := true, details_ne_nil := nofun }

/-- Both groups name the two sub-zones, and what is tried reaches neither: each has a host of another one. -/
theorem same_location_spans_zones : twoInTwoZones.sameLocation = true ∧
    (∃ db', run (Surroundings.steady.serve ⟨0, "a"⟩) (applyGroupsInSameLocation "dev" twoInTwoZones)
      ⟨[host 1 "z1", host 2 "z2"], [], []⟩ = some (([⟨"g1", [2]⟩, ⟨"g2", [1]⟩], none), db')) ∧
    ¬ InOneSubZone [1, 2] [host 1 "z1", host 2 "z2"] := by
  refine ⟨by decide +kernel, ?_, ?_⟩
  · have hpicked : (run (Surroundings.steady.serve ⟨0, "a"⟩)
        (applyGroupsInSameLocation "dev" twoInTwoZones) ⟨[host 1 "z1", host 2 "z2"], [], []⟩).map Prod.fst =
          some ([⟨"g1", [2]⟩, ⟨"g2", [1]⟩], none) := by decide +kernel
    obtain ⟨⟨_, db'⟩, hrun, rfl⟩ := Option.map_eq_some_iff.mp hpicked
    exact ⟨db', hrun⟩
  · have hfirst : ∀ m ∈ machines [host 1 "z1", host 2 "z2"], m.bkHostID = 1 → m.subZoneID = "z1" := by
      decide
    have hsecond : ∀ m ∈ machines [host 1 "z1", host 2 "z2"], m.bkHostID = 2 → m.subZoneID = "z2" := by
      decide
    rintro ⟨z, hall⟩
    obtain ⟨m, hm, hhost, hz⟩ := hall 1 (by decide)
    obtain ⟨m', hm', hhost', hz'⟩ := hall 2 (by decide)
    have heq : "z1" = "z2" :=
      ((hfirst m hm hhost).symm.trans hz).trans (hz'.symm.trans (hsecond m' hm' hhost'))
    exact absurd heq (by decide)

end Guests

end Resource
