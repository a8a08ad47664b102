import BluekingDbm.Dispatch.Hydration

/-! Reading the task and the work item back from a job id. -/
namespace Dispatch

/-- The Redis key of a payload. -/
def jobKey (ns jobId : String) : String := "dispatch:" ++ ns ++ ":job:" ++ jobId

/-- The Redis key of a dedupe lock. -/
def dedupeKeyForNamespace (ns taskKey workItemId : String) : String :=
  "dispatch:" ++ ns ++ ":dedupe:" ++ dedupeKey taskKey workItemId

/-- The job ids of the registered tasks are read back as what they were built from: by the routing,
by a discard that is passed no task and finds no payload or the job's own, and by whoever counts
members task by task. Different work items share no id and no key. -/
structure Attributed (registered : List String) : Prop where
  taskKey : ∀ k ∈ registered, ∀ w, resolveTaskKeyFromJobId (buildJobId k w) registered = k
  workItemId : ∀ k ∈ registered, ∀ w,
    workItemIdFromJobId (buildJobId k w) (resolveTaskKeyFromJobId (buildJobId k w) registered) = w
  distinct : ∀ k ∈ registered, ∀ k' ∈ registered, ∀ w w', (k, w) ≠ (k', w') →
    buildJobId k w ≠ buildJobId k' w' ∧
      ∀ ns, jobKey ns (buildJobId k w) ≠ jobKey ns (buildJobId k' w') ∧
        dedupeKeyForNamespace ns k w ≠ dedupeKeyForNamespace ns k' w'
  routed : ∀ env : Registry, env.tasks.map Prod.fst = registered →
    ∀ task ∈ env.tasks, ∀ w, namespaceForJobId env (buildJobId task.1 w) = task.2
  charged : ∀ env : Registry, env.registered = registered → ∀ k ∈ registered, ∀ w target job,
    (∀ found ∈ job, found.taskKey = k ∧ found.workItemId = w) →
      (discardPlan env job (buildJobId k w) "" target "").taskKey = k ∧
        (discardPlan env job (buildJobId k w) "" target "").workItemId = w

/-- No registered key starts with another one and a colon. -/
def ColonFree (registered : List String) : Prop :=
  ∀ k ∈ registered, ∀ k' ∈ registered, ¬ startsWith k' (k ++ ":")

instance (registered : List String) : Decidable (ColonFree registered) :=
  inferInstanceAs (Decidable (∀ k ∈ registered, ∀ k' ∈ registered, ¬ startsWith k' (k ++ ":")))

variable {registered : List String} {jobId k k' w w' : String}

theorem startsWith_iff : startsWith jobId k = true ↔ k.toList <+: jobId.toList :=
  List.isPrefixOf_iff_prefix

theorem startsWith_buildJobId : startsWith (buildJobId k w) (k ++ ":") = true := by
  rw [startsWith_iff, buildJobId, @String.toList_append (k ++ ":") w]
  exact List.prefix_append _ _

theorem length_key : (k ++ ":").toList.length = k.length + 1 := by
  simp [String.toList_append, String.length_toList]

/-- Two keys that a job id starts with are the same, or the longer one starts with the other. -/
theorem startsWith_of_longer (h : startsWith jobId (k ++ ":")) (h' : startsWith jobId (k' ++ ":"))
    (hlonger : k.length < k'.length) : startsWith k' (k ++ ":") = true := by
  rw [startsWith_iff] at h h' ⊢
  have hkey : k'.toList <+: jobId.toList := by
    rw [String.toList_append] at h'
    exact (List.prefix_append _ _).trans h'
  apply List.prefix_of_prefix_length_le h hkey
  rw [length_key, String.length_toList]
  omega

theorem eq_of_startsWith (h : startsWith jobId (k ++ ":")) (h' : startsWith jobId (k' ++ ":"))
    (hlength : k.length = k'.length) : k = k' := by
  rw [startsWith_iff] at h h'
  have hprefix := List.prefix_of_prefix_length_le h h' (by rw [length_key, length_key, hlength])
  have heq := hprefix.eq_of_length (by rw [length_key, length_key, hlength])
  rw [String.toList_append, String.toList_append] at heq
  exact String.toList_injective (List.append_cancel_right heq)

/-- What is resolved is a longest one of the registered keys that the job id starts with. -/
theorem resolveTaskKeyFromJobId_spec :
    (resolveTaskKeyFromJobId jobId registered = "" ∨
      resolveTaskKeyFromJobId jobId registered ∈ registered ∧
        startsWith jobId (resolveTaskKeyFromJobId jobId registered ++ ":")) ∧
      ∀ k ∈ registered, startsWith jobId (k ++ ":") →
        k.length ≤ (resolveTaskKeyFromJobId jobId registered).length := by
  refine Loop.foldl_prefix (P := fun done matched =>
    (matched = "" ∨ matched ∈ registered ∧ startsWith jobId (matched ++ ":")) ∧
      ∀ k ∈ done, startsWith jobId (k ++ ":") → k.length ≤ matched.length)
    ⟨.inl rfl, by simp⟩ ?_
  intro done key rest matched hregistered ⟨hmatched, hlongest⟩
  have hin : key ∈ registered := by simp [hregistered]
  split
  · rename_i hlonger
    obtain ⟨hstarts, hlt⟩ := Bool.and_eq_true_iff.mp hlonger
    refine ⟨.inr ⟨hin, hstarts⟩, fun k hk hks => ?_⟩
    rcases List.mem_append.mp hk with hk | hk
    · exact (hlongest k hk hks).trans (le_of_lt (of_decide_eq_true hlt))
    · rw [List.mem_singleton.mp hk]
  · rename_i hnot
    refine ⟨hmatched, fun k hk hks => ?_⟩
    rcases List.mem_append.mp hk with hk | hk
    · exact hlongest k hk hks
    · obtain rfl := List.mem_singleton.mp hk
      rw [hks, Bool.true_and, decide_eq_true_eq] at hnot
      omega

/-- A job id is read as that of its own task where no longer registered key fits it. -/
theorem resolveTaskKeyFromJobId_buildJobId (hk : k ∈ registered) (hne : k ≠ "")
    (hfree : ∀ k' ∈ registered, ¬ startsWith k' (k ++ ":")) :
    resolveTaskKeyFromJobId (buildJobId k w) registered = k := by
  obtain ⟨hmatched, hlongest⟩ := @resolveTaskKeyFromJobId_spec registered (buildJobId k w)
  have hle := hlongest k hk startsWith_buildJobId
  rcases hmatched with hempty | ⟨hin, hstarts⟩
  · rw [hempty] at hle
    exact absurd (String.length_eq_zero_iff.mp (Nat.le_zero.mp hle)) hne
  · apply (eq_of_startsWith startsWith_buildJobId hstarts _).symm
    by_contra hlength
    exact hfree _ hin (startsWith_of_longer startsWith_buildJobId hstarts (by omega))

theorem workItemIdFromJobId_buildJobId (hne : k ≠ "") :
    workItemIdFromJobId (buildJobId k w) k = w := by
  simp only [workItemIdFromJobId, ne_eq, hne, not_false_eq_true, startsWith_buildJobId, and_self,
    if_true]
  rw [buildJobId, String.toList_append, ← String.length_toList, List.drop_left, String.ofList_toList]

/-- What a registered key has behind another one and a colon. -/
theorem exists_rest (h : startsWith k' (k ++ ":")) : ∃ rest, k' = k ++ ":" ++ rest := by
  obtain ⟨rest, hrest⟩ := startsWith_iff.mp h
  refine ⟨String.ofList rest, String.toList_injective ?_⟩
  rw [@String.toList_append (k ++ ":"), String.toList_ofList, hrest]

theorem buildJobId_injective (hfree : ColonFree registered) (hk : k ∈ registered)
    (hk' : k' ∈ registered) (h : buildJobId k w = buildJobId k' w') : k = k' ∧ w = w' := by
  have hstarts : startsWith (buildJobId k w) (k ++ ":") := startsWith_buildJobId
  have hstarts' : startsWith (buildJobId k w) (k' ++ ":") := h ▸ startsWith_buildJobId
  rcases lt_trichotomy k.length k'.length with hlt | heq | hlt
  · exact absurd (startsWith_of_longer hstarts hstarts' hlt) (hfree k hk k' hk')
  · obtain rfl := eq_of_startsWith hstarts hstarts' heq
    refine ⟨rfl, String.toList_injective ?_⟩
    have hlist := congrArg String.toList h
    rw [buildJobId, buildJobId, @String.toList_append (k ++ ":"), @String.toList_append (k ++ ":")]
      at hlist
    exact List.append_cancel_left hlist
  · exact absurd (startsWith_of_longer hstarts' hstarts hlt) (hfree k' hk' k hk)

theorem append_left_injective {a b c : String} (h : a ++ b = a ++ c) : b = c := by
  have hlist := congrArg String.toList h
  rw [String.toList_append, String.toList_append] at hlist
  exact String.toList_injective (List.append_cancel_left hlist)

theorem lookup_task {tasks : List (String × String)} {task : String × String}
    (hnodup : (tasks.map Prod.fst).Nodup) (h : task ∈ tasks) :
    tasks.lookup task.1 = some task.2 := by
  obtain ⟨before, after, rfl⟩ := List.append_of_mem h
  refine List.lookup_eq_some_iff.mpr ⟨before, after, rfl, fun other hother => ?_⟩
  rw [List.map_append, List.nodup_append] at hnodup
  have hne := hnodup.2.2 other.1 (List.mem_map_of_mem hother) task.1 (by simp)
  simpa using hne.symm

/-- A discard that resolves the task of a job goes by that task and by the job's work item. -/
theorem discardPlan_of_resolved {env : Registry} {job : Option DispatchJob} {target : String}
    (hne : k ≠ "") (htask : resolveTaskKeyFromJobId (buildJobId k w) env.registered = k)
    (hown : ∀ found ∈ job, found.taskKey = k ∧ found.workItemId = w) :
    (discardPlan env job (buildJobId k w) "" target "").taskKey = k ∧
      (discardPlan env job (buildJobId k w) "" target "").workItemId = w := by
  have hitem : workItemIdFromJobId (buildJobId k w) k = w := workItemIdFromJobId_buildJobId hne
  cases job with
  | none => simp [discardPlan, orStr, htask, hne, hitem]
  | some found =>
    obtain ⟨-, hw⟩ := hown found rfl
    by_cases hempty : w = ""
    · subst hempty
      simp [discardPlan, orStr, htask, hne, hitem, hw]
    · simp [discardPlan, orStr, htask, hne, hw, hempty]

/-- Job ids are read back as what they were built from exactly when no registered key starts with
another one and a colon. -/
theorem attributed_iff (hne : ∀ k ∈ registered, k ≠ "") (hnodup : registered.Nodup) :
    Attributed registered ↔ ColonFree registered := by
  constructor
  · intro h k hk k' hk' hstarts
    obtain ⟨rest, rfl⟩ := exists_rest hstarts
    -- the work item that is named like the rest of the longer key
    have hsame : buildJobId k (rest ++ ":") = buildJobId (k ++ ":" ++ rest) "" := by
      simp [buildJobId, String.append_assoc]
    refine (h.distinct k hk _ hk' (rest ++ ":") "" fun he => ?_).1 hsame
    have hempty := congrArg String.length (Prod.mk.inj he).2
    simp at hempty
  · intro hfree
    have htask : ∀ k ∈ registered, ∀ w,
        resolveTaskKeyFromJobId (buildJobId k w) registered = k := fun k hk w =>
      resolveTaskKeyFromJobId_buildJobId hk (hne k hk) (hfree k hk)
    refine ⟨htask, fun k hk w => ?_, fun k hk k' hk' w w' hpair => ?_, ?_, ?_⟩
    · rw [htask k hk w]
      exact workItemIdFromJobId_buildJobId (hne k hk)
    · have hids : buildJobId k w ≠ buildJobId k' w' := fun h =>
        hpair (Prod.ext_iff.mpr (buildJobId_injective hfree hk hk' h))
      exact ⟨hids, fun ns => ⟨fun h => hids (append_left_injective h),
        fun h => hids (append_left_injective h)⟩⟩
    · rintro env rfl task hin w
      have hk : task.1 ∈ env.tasks.map Prod.fst := List.mem_map_of_mem hin
      simp only [namespaceForJobId, htask _ hk w, if_neg (hne _ hk), lookup_task hnodup hin,
        Option.getD_some]
    · rintro env rfl k hk w target job hown
      exact discardPlan_of_resolved (hne k hk) (htask k hk w) hown

theorem attributed_iff_dotted : Attributed ["portrait", "portrait.nested"] :=
  (attributed_iff (by decide) (by decide)).mpr (by decide +kernel)

/-- Work item `nested:7` of one task and work item `7` of the other have one id, and it is read as
that of the longer key. -/
theorem nested_key_misread : ¬ Attributed ["portrait", "portrait:nested"] ∧
    buildJobId "portrait" "nested:7" = buildJobId "portrait:nested" "7" ∧
    resolveTaskKeyFromJobId (buildJobId "portrait" "nested:7") ["portrait", "portrait:nested"] =
      "portrait:nested" := by
  have hread : resolveTaskKeyFromJobId (buildJobId "portrait" "nested:7")
      ["portrait", "portrait:nested"] = "portrait:nested" := by decide +kernel
  refine ⟨fun h => ?_, by decide +kernel, hread⟩
  have hown := h.taskKey "portrait" List.mem_cons_self "nested:7"
  exact absurd (hown.symm.trans hread) (by decide)

end Dispatch
