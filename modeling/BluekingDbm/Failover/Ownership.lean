import BluekingDbm.Failover.Sharding
import Mathlib.Data.Finset.Erase

/-! Who owns a business: the members of a set agree on it, whatever order each of them lists the
set in, and a membership change moves nothing else, just where no two members share the position
that the business falls on. -/
namespace Failover

open Ring

/-- Two members have virtual nodes of one hash value, and this value is the first clockwise from
the business. -/
def Members.Tied (S : Members) (bizID : ℤ) : Prop :=
  ∃ a ∈ S.ids, ∃ b ∈ S.ids, a ≠ b ∧ ∃ p, Marks a p ∧ Marks b p ∧ First S.points (bizKey bizID) p

/-- One more member. -/
def Members.Joined (S S' : Members) (x : String) : Prop :=
  x ∉ S.ids ∧ S'.ids = insert x S.ids

/-- What sharding promises about one business. -/
structure Members.Consistent (S : Members) (bizID : ℤ) : Prop where
  /-- Whoever has listed the set, in whatever order, finds the same member. -/
  agree : ∀ d d', Sees S d → Sees S d' → d.owner bizID = d'.owner bizID ∧ d.owner bizID ∈ S.ids
  /-- Of the members, just one is assigned the business. -/
  assigned : ∀ view : String → InstanceDiscovery,
    (∀ m ∈ S.ids, Sees S (view m) ∧ (view m).myServiceID = m) →
    ∀ bizs : List ℤ, bizID ∈ bizs →
      ∃! m, m ∈ S.ids ∧ bizID ∈ (view m).assignedBizIDs bizs
  joins : ∀ S' x, S.Joined S' x → ∀ d d', Sees S d → Sees S' d' →
    d'.owner bizID ≠ d.owner bizID → d.owner bizID = x ∨ d'.owner bizID = x
  leaves : ∀ S' x, S'.Joined S x → ∀ d d', Sees S d → Sees S' d' →
    d'.owner bizID ≠ d.owner bizID → d.owner bizID = x ∨ d'.owner bizID = x

variable {S S' : Members} {d d' : InstanceDiscovery} {bizID : ℤ} {x : String}

theorem Members.Joined.points_subset (h : S.Joined S' x) : S.points ⊆ S'.points := by
  rintro p ⟨i, hi, hip⟩
  refine ⟨i, ?_, hip⟩
  rw [h.2]
  exact Finset.mem_insert_of_mem hi

/-- With no tie in the smaller set, the business stays or goes to the member that joins. -/
theorem owner_of_joined (hno : ¬ S.Tied bizID) (hj : S.Joined S' x) (hd : Sees S d)
    (hd' : Sees S' d') (hne : d'.owner bizID ≠ d.owner bizID) : d'.owner bizID = x := by
  obtain ⟨p, hp, howner, hmark⟩ := hd.owner_spec bizID
  obtain ⟨p', hp', howner', hmark'⟩ := hd'.owner_spec bizID
  by_contra hx
  have hold : d'.owner bizID ∈ S.ids := by
    rw [hj.2] at howner'
    exact (Finset.mem_insert.mp howner').resolve_left hx
  have hfirst : First S.points (bizKey bizID) p' := hp'.mono hj.points_subset ⟨_, hold, hmark'⟩
  obtain rfl := hfirst.unique hp
  exact hno ⟨_, hold, _, howner, hne, p', hmark', hmark, hp⟩

/-- With no tie in the larger set, only the businesses of the member that leaves move. -/
theorem owner_of_left (hno : ¬ S.Tied bizID) (hj : S'.Joined S x) (hd : Sees S d)
    (hd' : Sees S' d') (hne : d'.owner bizID ≠ d.owner bizID) : d.owner bizID = x := by
  obtain ⟨p, hp, howner, hmark⟩ := hd.owner_spec bizID
  obtain ⟨p', hp', howner', hmark'⟩ := hd'.owner_spec bizID
  by_contra hx
  have hstays : d.owner bizID ∈ S'.ids := by
    have h := howner
    rw [hj.2] at h
    exact (Finset.mem_insert.mp h).resolve_left hx
  have hfirst : First S'.points (bizKey bizID) p := hp.mono hj.points_subset ⟨_, hstays, hmark⟩
  obtain rfl := hfirst.unique hp'
  have hmem : d'.owner bizID ∈ S.ids := by
    rw [hj.2]
    exact Finset.mem_insert_of_mem howner'
  exact hno ⟨_, hmem, _, howner, hne, p, hmark', hmark, hp⟩

theorem owner_agree (hno : ¬ S.Tied bizID) (hd : Sees S d) (hd' : Sees S d') :
    d.owner bizID = d'.owner bizID := by
  obtain ⟨p, hp, howner, hmark⟩ := hd.owner_spec bizID
  obtain ⟨p', hp', howner', hmark'⟩ := hd'.owner_spec bizID
  obtain rfl := hp.unique hp'
  by_contra hne
  exact hno ⟨_, howner, _, howner', hne, p, hmark, hmark', hp⟩

theorem Sees.size_ne_zero (hd : Sees S d) : d.hashRing.size ≠ 0 := by
  obtain ⟨me, history, kvs, hkvs, rfl⟩ := hd
  obtain ⟨ids, hids, -, hring⟩ := @refreshList_ring S kvs
    (history.foldl InstanceDiscovery.refreshList (newInstanceDiscovery me)) hkvs
  obtain ⟨i, hi⟩ := S.nonempty
  have hmem := (mem_rebuild_ring (new_history_replicas me history)).mpr
    ⟨i, (hids i).mpr hi, 0, by decide, rfl⟩
  rw [hring]
  exact fun h => List.ne_nil_of_mem hmem (List.length_eq_zero_iff.mp h)

/-- A member works on the businesses whose owner it finds to be itself. -/
theorem Sees.mem_assignedBizIDs (hd : Sees S d) {bizs : List ℤ} :
    bizID ∈ d.assignedBizIDs bizs ↔ bizID ∈ bizs ∧ d.owner bizID = d.myServiceID := by
  rw [InstanceDiscovery.assignedBizIDs, if_neg hd.size_ne_zero, List.mem_filter, decide_eq_true_iff]

theorem consistent_of_not_tied (hno : ¬ S.Tied bizID) : S.Consistent bizID where
  agree := by
    intro d d' hd hd'
    obtain ⟨p, -, howner, -⟩ := hd.owner_spec bizID
    exact ⟨owner_agree hno hd hd', howner⟩
  assigned := by
    intro view hview bizs hbiz
    obtain ⟨m₀, hm₀⟩ := S.nonempty
    obtain ⟨p, -, howner, -⟩ := (hview m₀ hm₀).1.owner_spec bizID
    have hsame : ∀ m ∈ S.ids, (view m).owner bizID = (view m₀).owner bizID := by
      intro m hm
      exact owner_agree hno (hview m hm).1 (hview m₀ hm₀).1
    refine ⟨(view m₀).owner bizID, ⟨howner, ?_⟩, ?_⟩
    · obtain ⟨hsees, hme⟩ := hview _ howner
      exact hsees.mem_assignedBizIDs.mpr ⟨hbiz, (hsame _ howner).trans hme.symm⟩
    · rintro m ⟨hm, hassigned⟩
      obtain ⟨hsees, hme⟩ := hview m hm
      have h := (hsees.mem_assignedBizIDs.mp hassigned).2
      exact (hme.symm.trans h.symm).trans (hsame m hm)
  joins := fun _ _ hj _ _ hd hd' hne => Or.inr (owner_of_joined hno hj hd hd' hne)
  leaves := fun _ _ hj _ _ hd hd' hne => Or.inl (owner_of_left hno hj hd hd' hne)

/-- A listing of the members with one of them at the end. -/
noncomputable def Members.endingIn (S : Members) (i : String) : List String :=
  (S.ids.erase i).toList ++ [i]

theorem Members.mem_endingIn {i j : String} (hi : i ∈ S.ids) :
    j ∈ S.endingIn i ↔ j ∈ S.ids := by
  rw [Members.endingIn, List.mem_append, Finset.mem_toList, Finset.mem_erase, List.mem_singleton]
  constructor
  · rintro (⟨-, hj⟩ | rfl)
    · exact hj
    · exact hi
  · intro hj
    rcases eq_or_ne j i with rfl | hne
    · exact Or.inr rfl
    · exact Or.inl ⟨hne, hj⟩

theorem Members.listed_endingIn {i : String} (hi : i ∈ S.ids) :
    S.Listed ((S.endingIn i).map some) := by
  intro j
  have hmap : some j ∈ (S.endingIn i).map some ↔ j ∈ S.endingIn i := by
    rw [List.mem_map]
    simp
  rw [hmap, S.mem_endingIn hi]
  constructor
  · intro hj
    refine ⟨hj, ?_⟩
    rintro rfl
    exact S.named hj
  · exact fun h => h.1

/-- Each of the members that share the position owns the business if it is listed last. -/
theorem sees_owner_of_first {i : String} {p : ℕ} (hi : i ∈ S.ids) (hip : Marks i p)
    (hp : First S.points (bizKey bizID) p) : ∃ d, Sees S d ∧ d.owner bizID = i := by
  refine ⟨(newInstanceDiscovery i).refreshList (some ((S.endingIn i).map some)),
    ⟨i, [], _, S.listed_endingIn hi, rfl⟩, ?_⟩
  refine refreshed_owner_last rfl (S.listed_endingIn hi) ?_ hp hip
  intro h
  exact S.named ((S.mem_endingIn hi).mp h)

theorem not_consistent_of_tied (h : S.Tied bizID) : ¬ S.Consistent bizID := by
  obtain ⟨a, ha, b, hb, hab, p, hap, hbp, hp⟩ := h
  obtain ⟨d, hd, hda⟩ := sees_owner_of_first ha hap hp
  obtain ⟨d', hd', hdb⟩ := sees_owner_of_first hb hbp hp
  intro hc
  have hsame := (hc.agree d d' hd hd').1
  rw [hda, hdb] at hsame
  exact hab hsame

/-- Sharding keeps its promises on a business just where no two members share the position the
business falls on. -/
theorem consistent_iff_not_tied (S : Members) (bizID : ℤ) :
    S.Consistent bizID ↔ ¬ S.Tied bizID :=
  ⟨fun hc ht => not_consistent_of_tied ht hc, consistent_of_not_tied⟩

/-- The bytes behind the id are fed to the register that the id leaves. -/
theorem hashKey_virtualKey {i : String} {register : BitVec 32}
    (h : Crc32.update (BitVec.allOnes 32) i.toUTF8.data.toList = register) (k : ℕ) :
    hashKey (virtualKey i k) =
      (~~~Crc32.update register ("#" ++ Text.decimal k).toUTF8.data.toList).toNat := by
  have hbytes : (i ++ ("#" ++ Text.decimal k)).toUTF8.data.toList =
      i.toUTF8.data.toList ++ ("#" ++ Text.decimal k).toUTF8.data.toList := by
    simp only [String.toUTF8_eq_toByteArray, String.toByteArray_append, ByteArray.data_append,
      Array.toList_append]
  rw [hashKey, virtualKey, String.append_assoc, hbytes, Crc32.checksum_append, h]

def fstMember : String := "a82409f1-8d09-4979-9cd5-f2bb0329602a"

def sndMember : String := "69bc9550-2094-408f-b418-b27aea2a15ed"

/-- Two instances that have 28 hash values in common. -/
def pairMembers : Members where
  ids := {fstMember, sndMember}
  nonempty := ⟨_, Finset.mem_insert_self ..⟩
  named := by decide

theorem register_fst :
    Crc32.update (BitVec.allOnes 32) fstMember.toUTF8.data.toList = 2255769050 := by
  decide +kernel

theorem register_snd :
    Crc32.update (BitVec.allOnes 32) sndMember.toUTF8.data.toList = 3303619047 := by
  decide +kernel

/-- The 148th virtual node of the one and the 36th of the other are the first from business 1. -/
theorem pairMembers_tied : pairMembers.Tied 1 := by
  have hkey : bizKey 1 = 2212294583 := by decide +kernel
  have hfst : ∀ k < defaultReplicas, 2212294583 ≤ hashKey (virtualKey fstMember k) →
      2245715560 ≤ hashKey (virtualKey fstMember k) := by
    simp only [hashKey_virtualKey register_fst]
    decide +kernel
  have hsnd : ∀ k < defaultReplicas, 2212294583 ≤ hashKey (virtualKey sndMember k) →
      2245715560 ≤ hashKey (virtualKey sndMember k) := by
    simp only [hashKey_virtualKey register_snd]
    decide +kernel
  have hmarkFst : Marks fstMember 2245715560 :=
    ⟨148, by decide, by rw [hashKey_virtualKey register_fst]; decide +kernel⟩
  have hmarkSnd : Marks sndMember 2245715560 :=
    ⟨36, by decide, by rw [hashKey_virtualKey register_snd]; decide +kernel⟩
  have hahead : ∀ q : ℕ, (2212294583 ≤ q → 2245715560 ≤ q) →
      turn 2212294583 2245715560 ≤ turn 2212294583 q := by
    intro q hq
    rw [turn_le_iff]
    omega
  refine ⟨_, Finset.mem_insert_self .., _, Finset.mem_insert_of_mem (Finset.mem_singleton_self _),
    by decide, _, hmarkFst, hmarkSnd, ⟨_, Finset.mem_insert_self .., hmarkFst⟩, ?_⟩
  rw [hkey]
  rintro q ⟨i, hi, k, hk, rfl⟩
  rcases Finset.mem_insert.mp hi with rfl | hi
  · exact hahead _ (hfst k hk)
  · obtain rfl := Finset.mem_singleton.mp hi
    exact hahead _ (hsnd k hk)

/-- Their orders of listing decide whether business 1 has one owner, two or none. -/
theorem pairMembers_not_consistent : ¬ pairMembers.Consistent 1 :=
  not_consistent_of_tied pairMembers_tied

end Failover
