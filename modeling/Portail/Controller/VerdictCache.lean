import Portail.Controller.Auth

/-!
# The verdict cache

What is stored is added, and evictions only drop entries. The cache stays within its size and
within its share of each pod, and while there are fewer accepted verdicts than it has room for,
a token costs no other pod an accepted verdict (`verdicts_bounded`).
-/

namespace Portail.Controller.Auth

open Lib Http Routing List

abbrev ByToken := Map TokenHash (ℕ × Option Reviewed)

abbrev Entry := Sigma fun _ : TokenHash => ℕ × Option Reviewed

section

variable {verdicts : Verdicts} {byToken : ByToken} {hash : TokenHash}
  {e : Entry} {now : ℕ} {verdict : Option Reviewed}

theorem sweep_subset (verdicts : Verdicts) (now : ℕ) :
    (verdicts.sweep now).byToken.entries ⊆ verdicts.byToken.entries := by
  unfold Verdicts.sweep
  simp only
  split_ifs
  · exact retain_subset _ _
  · exact List.Subset.refl _

theorem makeRoom_subset (byToken : ByToken) (hash : TokenHash) :
    (makeRoom byToken hash).entries ⊆ byToken.entries := by
  unfold makeRoom
  simp only
  split_ifs
  · exact List.Subset.trans (retain_subset _ _) (retain_subset _ _)
  · exact retain_subset _ _
  · exact List.Subset.refl _

theorem mem_erase_all {olds : List (ℕ × TokenHash)} :
    e ∈ (olds.foldl (fun m old => m.erase old.2) byToken).entries ↔
      e ∈ byToken.entries ∧ e.1 ∉ olds.map Prod.snd := by
  induction olds generalizing byToken with
  | nil => simp
  | cons old olds ih => simp [ih, mem_erase, and_assoc]

theorem dropSamePod_subset (byToken : ByToken) (hash : TokenHash)
    (reviewed : Reviewed) : (dropSamePod byToken hash reviewed).entries ⊆ byToken.entries := by
  unfold dropSamePod
  simp only
  split_ifs
  · exact fun e he => (mem_erase_all.mp he).1
  · exact List.Subset.refl _

/-- What is left when a verdict is stored, before it is. -/
def roomFor (verdicts : Verdicts) (hash : TokenHash) (verdict : Option Reviewed) (now : ℕ) :
    ByToken :=
  match verdict with
  | some reviewed => dropSamePod (makeRoom (verdicts.sweep now).byToken hash) hash reviewed
  | none => makeRoom (verdicts.sweep now).byToken hash

theorem remember_byToken : (verdicts.remember hash verdict now).byToken =
    (roomFor verdicts hash verdict now).insert hash (now, verdict) := by
  cases verdict <;> rfl

theorem roomFor_subset : (roomFor verdicts hash verdict now).entries ⊆
    (makeRoom (verdicts.sweep now).byToken hash).entries := by
  cases verdict with
  | none => exact List.Subset.refl _
  | some reviewed => exact dropSamePod_subset _ _ _

theorem mem_remember (h : e ∈ (verdicts.remember hash verdict now).byToken.entries) :
    e = ⟨hash, now, verdict⟩ ∨ e ∈ verdicts.byToken.entries := by
  rw [remember_byToken, mem_insert] at h
  exact h.imp_right fun h => sweep_subset _ _ (makeRoom_subset _ _ (roomFor_subset h.1))

end

section

variable {verdicts : Verdicts} {byToken : ByToken} {hash : TokenHash}
  {now : ℕ} {verdict : Option Reviewed}

theorem not_full_iff : fullFor byToken hash = false ↔
    byToken.keys.length < maxVerdicts ∨ (byToken.lookup hash).isSome = true := by
  rw [fullFor, Bool.and_eq_false_iff, decide_eq_false_iff_not, not_le, Option.isNone_eq_false_iff]

theorem exists_at_cutoff {k : ℕ} (hk : k < byToken.keys.length) : ∃ e ∈ byToken.entries,
    e.2.1 = (((Map.values byToken).map Prod.fst).insertionSort (· ≤ ·)).getD k 0 := by
  have hmem : (((Map.values byToken).map Prod.fst).insertionSort (· ≤ ·)).getD k 0 ∈
      ((Map.values byToken).map Prod.fst).insertionSort (· ≤ ·) := by
    rw [getD_eq_getElem?_getD,
      getElem?_eq_getElem (by simpa [Map.values, AList.keys, List.keys] using hk)]
    exact getElem_mem _
  obtain ⟨entry, hentry, hat⟩ := mem_map.mp ((mem_insertionSort _).mp hmem)
  obtain ⟨e, he, rfl⟩ := mem_map.mp hentry
  exact ⟨e, he, hat⟩

theorem not_full_quarter (hsize : byToken.keys.length ≤ maxVerdicts)
    (hfull : fullFor byToken hash = true) :
    fullFor (retain (fun _ entry => (((Map.values byToken).map Prod.fst).insertionSort
      (· ≤ ·)).getD (maxVerdicts / 4) 0 < entry.1) byToken) hash = false := by
  have hlong : maxVerdicts / 4 < byToken.keys.length := by
    by_contra hshort
    have hroom : byToken.keys.length < maxVerdicts := by
      unfold maxVerdicts at hshort ⊢
      omega
    simp [not_full_iff.mpr (.inl hroom)] at hfull
  obtain ⟨e, he, hat⟩ := exists_at_cutoff hlong
  refine not_full_iff.mpr (.inl (lt_of_lt_of_le ?_ hsize))
  simp only [AList.keys, List.keys, length_map]
  refine length_filter_lt_length_iff_exists.mpr ⟨e, he, fun h => ?_⟩
  exact absurd (of_decide_eq_true h) (by rw [hat]; exact lt_irrefl _)

theorem not_full_makeRoom (hsize : byToken.keys.length ≤ maxVerdicts) :
    fullFor (makeRoom byToken hash) hash = false := by
  unfold makeRoom
  simp only
  split_ifs with hfull hstill
  · exact not_full_quarter ((length_keys_le (retain_subset _ _)).trans hsize) hstill
  · exact Bool.eq_false_of_not_eq_true hstill
  · exact Bool.eq_false_of_not_eq_true hfull

theorem size_remember (hsize : verdicts.byToken.keys.length ≤ maxVerdicts) :
    (verdicts.remember hash verdict now).byToken.keys.length ≤ maxVerdicts := by
  have hswept := (length_keys_le (sweep_subset verdicts now)).trans hsize
  have hmade := (length_keys_le (makeRoom_subset (verdicts.sweep now).byToken hash)).trans hswept
  rw [remember_byToken]
  refine (length_keys_le (insert_subset roomFor_subset)).trans ?_
  cases hlookup : (makeRoom (verdicts.sweep now).byToken hash).lookup hash with
  | some entry => rwa [length_replace hlookup]
  | none =>
    rw [length_insert_new hlookup]
    exact (not_full_iff.mp (not_full_makeRoom hswept)).resolve_right (by simp [hlookup])

def isAccepted (e : Entry) : Bool := e.2.2.isSome

def ofPod (pod : Bytes) (e : Entry) : Bool :=
  e.2.2.any fun r => r.podUid == pod

/-- The tokens of a pod other than the one that is stored. -/
def samePodOf (byToken : ByToken) (hash : TokenHash) (pod : Bytes) :
    List (ℕ × TokenHash) :=
  (byToken.entries.filter fun e => e.1 != hash && ofPod pod e).map fun e => (e.2.1, e.1)

theorem mem_dropSamePod {reviewed : Reviewed} {e : Entry} :
    e ∈ (dropSamePod byToken hash reviewed).entries ↔ e ∈ byToken.entries ∧
      e.1 ∉ (((samePodOf byToken hash reviewed.podUid).insertionSort olderFirst).take
        ((samePodOf byToken hash reviewed.podUid).length + 1 - maxVerdictsPerPod)).map
          Prod.snd := by
  have hunfold : dropSamePod byToken hash reviewed =
      if maxVerdictsPerPod ≤ (samePodOf byToken hash reviewed.podUid).length then
        (((samePodOf byToken hash reviewed.podUid).insertionSort olderFirst).take
          ((samePodOf byToken hash reviewed.podUid).length - maxVerdictsPerPod + 1)).foldl
            (fun m old => m.erase old.2) byToken
      else byToken := rfl
  rw [hunfold]
  split_ifs with hmany
  · rw [mem_erase_all, Nat.sub_add_comm hmany]
  · rw [Nat.sub_eq_zero_of_le (by omega)]
    simp

/-- One token of a pod is left besides the one that is stored. -/
theorem length_dropSamePod (byToken : ByToken) (hash : TokenHash)
    (reviewed : Reviewed) : ((dropSamePod byToken hash reviewed).entries.filter fun e =>
      ofPod reviewed.podUid e && e.1 ≠ hash).length ≤ 1 := by
  have hdrop (e : Entry) :
      e ∈ (dropSamePod byToken hash reviewed).entries ↔ _ := mem_dropSamePod
  generalize hpod : samePodOf byToken hash reviewed.podUid = samePod at hdrop
  have hlength : ((samePod.insertionSort olderFirst).drop
      (samePod.length + 1 - maxVerdictsPerPod)).length ≤ 1 := by
    rw [length_drop, length_insertionSort]
    unfold maxVerdictsPerPod
    omega
  rw [← length_map (fun e : Entry => (e.2.1, e.1))]
  refine (subperm_of_subset ?_ fun old hold => ?_).length_le.trans hlength
  · refine List.Nodup.of_map Prod.snd ?_
    rw [map_map]
    exact List.NodupKeys.sublist filter_sublist (AList.nodupKeys _)
  · obtain ⟨e, he, rfl⟩ := mem_map.mp hold
    obtain ⟨he, hkind⟩ := mem_filter.mp he
    obtain ⟨he, hkey⟩ := (hdrop e).mp he
    have hin : (e.2.1, e.1) ∈ samePod.insertionSort olderFirst := by
      rw [mem_insertionSort, ← hpod]
      refine mem_map_of_mem (mem_filter.mpr ⟨he, ?_⟩)
      simpa [and_comm] using hkind
    rw [← take_append_drop (samePod.length + 1 - maxVerdictsPerPod)
      (samePod.insertionSort olderFirst), mem_append] at hin
    exact hin.resolve_left fun htake => hkey (mem_map.mpr ⟨_, htake, rfl⟩)

theorem pods_remember (hpods : ∀ pod, (verdicts.byToken.entries.filter (ofPod pod)).length ≤
    maxVerdictsPerPod) (pod : Bytes) :
    ((verdicts.remember hash verdict now).byToken.entries.filter (ofPod pod)).length ≤
      maxVerdictsPerPod := by
  rw [remember_byToken]
  refine (length_filter_insert_le (ofPod pod)).trans ?_
  by_cases hnew : ofPod pod ⟨hash, now, verdict⟩ = true
  · cases verdict with
    | none => cases hnew
    | some reviewed =>
      obtain rfl : reviewed.podUid = pod := by simpa [ofPod] using hnew
      rw [if_pos hnew]
      exact Nat.add_le_add_left (length_dropSamePod _ hash reviewed) 1
  · rw [if_neg hnew, zero_add]
    have hmost : ((roomFor verdicts hash verdict now).entries.filter fun e =>
        ofPod pod e && e.1 ≠ hash).length ≤
          ((roomFor verdicts hash verdict now).entries.filter (ofPod pod)).length :=
      (monotone_filter_right _ fun e => Bool.and_elim_left).length_le
    refine hmost.trans ((length_filter_le (fun e he => ?_) _).trans (hpods pod))
    exact sweep_subset _ _ (makeRoom_subset _ _ (roomFor_subset he))

end

section

variable {verdicts : Verdicts} {byToken : ByToken} {hash : TokenHash}
  {e : Entry} {now : ℕ} {verdict : Option Reviewed}

theorem mem_sweep (he : e ∈ verdicts.byToken.entries) (hacc : isAccepted e = true)
    (hage : now - e.2.1 < cacheTtl + staleTtl) : e ∈ (verdicts.sweep now).byToken.entries := by
  unfold Verdicts.sweep
  simp only
  split_ifs
  · refine mem_filter.mpr ⟨he, decide_eq_true (hage.trans_eq ?_)⟩
    exact (if_pos hacc).symm
  · exact he

theorem mem_makeRoom (hfew : (byToken.entries.filter isAccepted).length < maxVerdicts)
    (he : e ∈ byToken.entries) (hacc : isAccepted e = true) :
    e ∈ (makeRoom byToken hash).entries := by
  have hroom : fullFor (retain (fun _ entry => entry.2.isSome) byToken) hash = false := by
    refine not_full_iff.mpr (.inl ?_)
    simp only [AList.keys, List.keys, length_map]
    exact hfew
  unfold makeRoom
  simp only
  split_ifs with hfull hstill
  · simp [hroom] at hstill
  · exact mem_filter.mpr ⟨he, hacc⟩
  · exact he

theorem mem_dropSamePod_of_other {reviewed : Reviewed} (he : e ∈ byToken.entries)
    (hpod : ofPod reviewed.podUid e = false) :
    e ∈ (dropSamePod byToken hash reviewed).entries := by
  refine mem_dropSamePod.mpr ⟨he, fun hkey => ?_⟩
  obtain ⟨old, hold, hkey⟩ := mem_map.mp hkey
  obtain ⟨e', he', rfl⟩ := mem_map.mp ((mem_insertionSort _).mp (mem_of_mem_take hold))
  obtain ⟨he', hkind⟩ := mem_filter.mp he'
  obtain rfl : e' = e := byToken.nodupKeys.eq_of_fst_eq he' he hkey
  simp [hpod] at hkind

/-- An accepted verdict that is not too old stays when another token's is stored, unless both are
of one pod. -/
theorem mem_remember_of_accepted
    (hfew : (verdicts.byToken.entries.filter isAccepted).length < maxVerdicts)
    (he : e ∈ verdicts.byToken.entries) (hkey : e.1 ≠ hash) (hacc : isAccepted e = true)
    (hage : now - e.2.1 < cacheTtl + staleTtl)
    (hpod : ∀ reviewed ∈ verdict, ofPod reviewed.podUid e = false) :
    e ∈ (verdicts.remember hash verdict now).byToken.entries := by
  have hroom : e ∈ (makeRoom (verdicts.sweep now).byToken hash).entries :=
    mem_makeRoom ((length_filter_le (sweep_subset _ _) _).trans_lt hfew)
      (mem_sweep he hacc hage) hacc
  rw [remember_byToken, mem_insert]
  refine .inr ⟨?_, hkey⟩
  cases verdict with
  | none => exact hroom
  | some reviewed => exact mem_dropSamePod_of_other hroom (hpod reviewed rfl)

end

/-- The cache after verdicts are stored in turn, each a token's at a time. -/
def storeAll (stores : List (TokenHash × Option Reviewed × ℕ)) : Verdicts :=
  stores.foldl (fun verdicts s => verdicts.remember s.1 s.2.1 s.2.2) ⟨∅, none⟩

theorem storeAll_bounded (stores : List (TokenHash × Option Reviewed × ℕ)) :
    (storeAll stores).byToken.keys.length ≤ maxVerdicts ∧
    ∀ pod, ((storeAll stores).byToken.entries.filter (ofPod pod)).length ≤ maxVerdictsPerPod := by
  unfold storeAll
  induction stores using List.reverseRecOn with
  | nil => exact ⟨Nat.zero_le _, fun _ => Nat.zero_le _⟩
  | append_singleton stores s ih =>
    rw [foldl_append]
    exact ⟨size_remember ih.1, pods_remember ih.2⟩

/-- Whatever verdicts are stored, the cache keeps to its size and to its share of each pod. While
it holds fewer accepted ones than fit, storing a rejection drops none of another token that is
young, and storing an acceptance none of another pod's. -/
theorem verdicts_bounded (stores : List (TokenHash × Option Reviewed × ℕ)) :
    (storeAll stores).byToken.keys.length ≤ maxVerdicts ∧
    (∀ pod, ((storeAll stores).byToken.entries.filter (ofPod pod)).length ≤ maxVerdictsPerPod) ∧
    (((storeAll stores).byToken.entries.filter isAccepted).length < maxVerdicts →
      ∀ token at_ reviewed, (storeAll stores).byToken.lookup token = some (at_, some reviewed) →
      ∀ hash now, token ≠ hash → now - at_ < cacheTtl + staleTtl →
        (storeAll (stores ++ [(hash, none, now)])).byToken.lookup token =
          some (at_, some reviewed) ∧
        ∀ stored : Reviewed, stored.podUid ≠ reviewed.podUid →
          (storeAll (stores ++ [(hash, some stored, now)])).byToken.lookup token =
            some (at_, some reviewed)) := by
  obtain ⟨hsize, hpods⟩ := storeAll_bounded stores
  refine ⟨hsize, hpods, fun hfew token at_ reviewed hlookup hash now hkey hage => ?_⟩
  have hstore (s : TokenHash × Option Reviewed × ℕ) :
      storeAll (stores ++ [s]) = (storeAll stores).remember s.1 s.2.1 s.2.2 := by
    rw [storeAll, foldl_append]
    rfl
  have hkept (verdict : Option Reviewed) (hpod : ∀ r ∈ verdict, r.podUid ≠ reviewed.podUid) :
      (storeAll (stores ++ [(hash, verdict, now)])).byToken.lookup token =
        some (at_, some reviewed) := by
    rw [hstore]
    refine AList.mem_lookup_iff.mpr (mem_remember_of_accepted hfew (AList.mem_lookup_iff.mp hlookup)
      hkey rfl hage fun r hr => ?_)
    simpa [ofPod] using (hpod r hr).symm
  exact ⟨hkept none nofun, fun stored hpod => hkept (some stored) (by simpa using hpod)⟩

end Portail.Controller.Auth
