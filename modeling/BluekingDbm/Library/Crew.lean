import BluekingDbm.Library.Program

/-! Programs that take turns at a service, while calls of theirs may start further programs. -/
namespace Program

variable {Op : Type} {Res : Op → Type} {σ χ γ : Type}

/-- The state of the service, and the programs in the order in which they were started. -/
structure Crew (Res : Op → Type) (σ : Type) where
  store : σ
  procs : List (Prog Res Unit)

def Crew.start (s : Crew Res σ) (p : Prog Res Unit) : Crew Res σ := ⟨s.store, s.procs ++ [p]⟩

/-- The `i`-th program makes its next call; `follow` says which programs that call starts. -/
def Crew.step (serve : ℕ → χ → (o : Op) → σ → Option (Res o × σ))
    (follow : (o : Op) → Res o → List (Prog Res Unit)) (s : Crew Res σ) (i : ℕ) (c : χ) :
    Option (Crew Res σ) :=
  match s.procs[i]? with
  | none => none
  | some (.done _) => none
  | some (.call o k) => (serve i c o s.store).map fun (r, store) =>
      ⟨store, s.procs.set i (k r) ++ follow o r⟩

/-- All programs have ended. -/
def Crew.Idle (s : Crew Res σ) : Prop := ∀ p ∈ s.procs, ∃ u, p = .done u

instance : ∀ p : Prog Res Unit, Decidable (∃ u, p = .done u)
  | .done u => .isTrue ⟨u, rfl⟩
  | .call o k => .isFalse (by rintro ⟨u, h⟩; cases h)

instance (s : Crew Res σ) : Decidable s.Idle := inferInstanceAs (Decidable (∀ p ∈ s.procs, _))

variable {serve : ℕ → χ → (o : Op) → σ → Option (Res o × σ)}
  {follow : (o : Op) → Res o → List (Prog Res Unit)} {s t : Crew Res σ} {i : ℕ} {c : χ}

theorem Crew.step_cases (h : s.step serve follow i c = some t) :
    ∃ o k r, s.procs[i]? = some (.call o k) ∧ serve i c o s.store = some (r, t.store) ∧
      t.procs = s.procs.set i (k r) ++ follow o r := by
  rw [Crew.step] at h
  split at h
  · cases h
  · cases h
  · rename_i o k hi
    obtain ⟨⟨r, store⟩, hserve, rfl⟩ := Option.map_eq_some_iff.mp h
    exact ⟨o, k, r, hi, hserve, rfl⟩

variable {P : Op → γ → Prop} {R : (o : Op) → γ → Res o → γ → Prop} {Q : Unit → γ → Prop}
  {K : ℕ → γ → σ → Prop}

/-- Each program runs as `Ensures` says, from a ghost state that the store bears out. -/
def Crew.Staffed (P : Op → γ → Prop) (R : (o : Op) → γ → Res o → γ → Prop) (Q : Unit → γ → Prop)
    (K : ℕ → γ → σ → Prop) (s : Crew Res σ) : Prop :=
  ∀ i p, s.procs[i]? = some p → ∃ g, Ensures P R Q p g ∧ K i g s.store

theorem Crew.Staffed.start (hs : s.Staffed P R Q K) {p : Prog Res Unit}
    (hp : ∃ g, Ensures P R Q p g ∧ K s.procs.length g s.store) : (s.start p).Staffed P R Q K := by
  intro i q hq
  rcases Nat.lt_trichotomy i s.procs.length with hlt | rfl | hgt
  · exact hs i q (by rwa [Crew.start, List.getElem?_append_left hlt] at hq)
  · rw [Crew.start, List.getElem?_concat_length] at hq
    obtain rfl := Option.some.inj hq
    exact hp
  · have hlen : (s.start p).procs.length = s.procs.length + 1 := by simp [Crew.start]
    rw [List.getElem?_eq_none (by omega)] at hq
    cases hq

/-- What a call does to its own program, what it leaves to the others and what it starts is all there is
to show. -/
theorem Crew.Staffed.step (hs : s.Staffed P R Q K) (h : s.step serve follow i c = some t)
    (hserve : ∀ o k g r, s.procs[i]? = some (.call o k) → P o g → K i g s.store →
      serve i c o s.store = some (r, t.store) → (∃ g', R o g r g' ∧ K i g' t.store) ∧
        (∀ j g, j ≠ i → K j g s.store → K j g t.store) ∧
        ∀ p ∈ follow o r, ∀ j, ∃ g, Ensures P R Q p g ∧ K j g t.store) : t.Staffed P R Q K := by
  obtain ⟨o, k, r, hi, hanswer, hprocs⟩ := Crew.step_cases h
  obtain ⟨g, hens, hg⟩ := hs i _ hi
  obtain ⟨⟨g', hR, hg'⟩, hothers, hfollow⟩ := hserve o k g r hi hens.1 hg hanswer
  intro j p hj
  rw [hprocs] at hj
  rcases Nat.lt_or_ge j s.procs.length with hlt | hge
  · rw [List.getElem?_append_left (by simpa using hlt)] at hj
    rcases eq_or_ne j i with rfl | hne
    · rw [List.getElem?_set_self hlt] at hj
      obtain rfl := Option.some.inj hj
      exact ⟨g', hens.2 r g' hR, hg'⟩
    · rw [List.getElem?_set_ne (Ne.symm hne)] at hj
      obtain ⟨g, hens, hg⟩ := hs j p hj
      exact ⟨g, hens, hothers j g hne hg⟩
  · rw [List.getElem?_append_right (by simpa using hge)] at hj
    exact hfollow p (List.mem_of_getElem? hj) j

section Events

/-- Somebody is asked to do something, or a program makes its next call. -/
inductive Event (κ χ : Type)
  | call (call : κ)
  | turn (worker : ℕ) (choice : χ)

variable {κ : Type} {act : κ → Prog Res Unit} {C : Op → σ → Prop} {e : Event κ χ}

def Crew.next (act : κ → Prog Res Unit) (serve : ℕ → χ → (o : Op) → σ → Option (Res o × σ))
    (follow : (o : Op) → Res o → List (Prog Res Unit)) (s : Crew Res σ) :
    Event κ χ → Option (Crew Res σ)
  | .call call => some (s.start (act call))
  | .turn worker choice => s.step serve follow worker choice

/-- The call that an event makes a program make. -/
def Crew.doing (s : Crew Res σ) : Event κ χ → Option Op
  | .call _ => none
  | .turn worker _ =>
    match s.procs[worker]? with
    | some (.call o _) => some o
    | _ => none

/-- The call that is made satisfies `C` in the state that it finds. -/
def Crew.Meets (C : Op → σ → Prop) (s : Crew Res σ) (e : Event κ χ) : Prop :=
  ∀ o ∈ s.doing e, C o s.store

instance [∀ o store, Decidable (C o store)] (s : Crew Res σ) (e : Event κ χ) :
    Decidable (s.Meets C e) := inferInstanceAs (Decidable (∀ o ∈ s.doing e, C o s.store))

theorem Crew.next_cases (hmeets : s.Meets C e) (h : s.next act serve follow e = some t) :
    (∃ call, e = .call call ∧ t = s.start (act call)) ∨
      ∃ w c o k r, s.step serve follow w c = some t ∧ s.procs[w]? = some (.call o k) ∧ C o s.store ∧
        serve w c o s.store = some (r, t.store) ∧ t.procs = s.procs.set w (k r) ++ follow o r := by
  cases e with
  | call call =>
    cases h
    exact .inl ⟨call, rfl, rfl⟩
  | turn w c =>
    obtain ⟨o, k, r, hw, hanswer, hprocs⟩ := Crew.step_cases h
    exact .inr ⟨w, c, o, k, r, h, hw, hmeets o (by simp [doing, hw]), hanswer, hprocs⟩

/-- What the store satisfies goes through an event if it goes through each call. -/
theorem Crew.store_next {I : σ → Prop} (hI : I s.store) (hmeets : s.Meets C e)
    (h : s.next act serve follow e = some t)
    (hserve : ∀ w c o r, C o s.store → serve w c o s.store = some (r, t.store) → I t.store) :
    I t.store := by
  rcases Crew.next_cases hmeets h with ⟨call, -, rfl⟩ | ⟨w, c, o, k, r, -, -, hC, hanswer, -⟩
  · exact hI
  · exact hserve w c o r hC hanswer

/-- The same, with what is known of the program that calls. -/
theorem Crew.Staffed.store_next {I : σ → Prop} (hs : s.Staffed P R Q K) (hI : I s.store)
    (hmeets : s.Meets C e) (h : s.next act serve follow e = some t)
    (hserve : ∀ w c o g r, C o s.store → P o g → K w g s.store →
      serve w c o s.store = some (r, t.store) → I t.store) : I t.store := by
  rcases Crew.next_cases hmeets h with ⟨call, -, rfl⟩ | ⟨w, c, o, k, r, -, hw, hC, hanswer, -⟩
  · exact hI
  · obtain ⟨g, hens, hg⟩ := hs w _ hw
    exact hserve w c o g r hC hens.1 hg hanswer

/-- The programs go through an event, if those that are asked for begin well. -/
theorem Crew.Staffed.next (hs : s.Staffed P R Q K) (hmeets : s.Meets C e)
    (h : s.next act serve follow e = some t)
    (hcall : ∀ call, e = .call call → ∃ g, Ensures P R Q (act call) g ∧ K s.procs.length g s.store)
    (hserve : ∀ w c o g r, C o s.store → P o g → K w g s.store →
      serve w c o s.store = some (r, t.store) → (∃ g', R o g r g' ∧ K w g' t.store) ∧
        (∀ j g, j ≠ w → K j g s.store → K j g t.store) ∧
        ∀ p ∈ follow o r, ∀ j, ∃ g, Ensures P R Q p g ∧ K j g t.store) : t.Staffed P R Q K := by
  cases e with
  | call call =>
    cases h
    exact hs.start (hcall call rfl)
  | turn w c =>
    refine hs.step h ?_
    intro o k g r hw hP hg hanswer
    exact hserve w c o g r (hmeets o (by simp [doing, hw])) hP hg hanswer

end Events

section Owing

variable {α β : Type} {settles : Op → Prop} {o : Op} {k : Res o → Prog Res Unit}

/-- However its calls are answered, the program makes a call that settles before it ends. -/
def Owes (settles : Op → Prop) : Prog Res α → Prop
  | .done _ => False
  | .call o k => settles o ∨ ∀ r, Owes settles (k r)

theorem Owes.bind (p : Prog Res α) {f : α → Prog Res β} (hf : ∀ a, Owes settles (f a)) :
    Owes settles (p >>= f) := by
  induction p with
  | done a => exact hf a
  | call o k ih => exact .inr fun r => ih r

/-- Somebody still has a settling call to make. -/
def Crew.Owing (settles : Op → Prop) (s : Crew Res σ) : Prop := ∃ p ∈ s.procs, Owes settles p

theorem Crew.Owing.start (hs : s.Owing settles) (p : Prog Res Unit) : (s.start p).Owing settles := by
  obtain ⟨q, hq, hqowes⟩ := hs
  exact ⟨q, List.mem_append_left _ hq, hqowes⟩

theorem Crew.not_owing (hs : s.Idle) : ¬ s.Owing settles := by
  rintro ⟨p, hp, howes⟩
  obtain ⟨u, rfl⟩ := hs p hp
  exact howes

/-- What is owed is settled by the call, or it is still owed after it. -/
theorem Crew.Owing.step (hs : s.Owing settles) (h : s.step serve follow i c = some t)
    (hi : s.procs[i]? = some (.call o k)) (hnot : ¬ settles o) : t.Owing settles := by
  obtain ⟨o', k', r, hi', -, hprocs⟩ := Crew.step_cases h
  obtain rfl : o = o' := by simp_all
  obtain ⟨p, hp, howes⟩ := hs
  obtain ⟨j, hj⟩ := List.mem_iff_getElem?.mp hp
  obtain ⟨hlt, -⟩ := List.getElem?_eq_some_iff.mp hi
  rcases eq_or_ne j i with rfl | hne
  · have hpk : p = .call o k' := by simp_all
    subst hpk
    refine ⟨k' r, ?_, howes.resolve_left hnot r⟩
    rw [hprocs]
    exact List.mem_append_left _ (List.mem_set hlt _)
  · refine ⟨p, ?_, howes⟩
    have hset : (s.procs.set i (k' r))[j]? = some p := by
      rw [List.getElem?_set_ne (Ne.symm hne), hj]
    rw [hprocs]
    exact List.mem_append_left _ (List.mem_of_getElem? hset)

end Owing

end Program
