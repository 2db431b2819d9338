import Mathlib.Data.List.AList

/-!
# Finite maps

What a lookup answers after an edit, and how many keys an edit leaves.
-/

namespace Portail.Lib

open List

section

variable {K V : Type} [DecidableEq K] {m m' : AList fun _ : K => V} {k k' : K} {v v' : V}
  {e : Sigma fun _ : K => V}

theorem mem_of_lookup (h : m.lookup k = some v) : k ∈ m :=
  AList.lookup_isSome.mp (by rw [h]; rfl)

theorem lookup_insert_cases :
    (m.insert k v).lookup k' = if k' = k then some v else m.lookup k' := by
  split_ifs with hk
  · subst hk
    exact AList.lookup_insert m
  · exact AList.lookup_insert_ne hk

theorem lookup_erase_cases : (m.erase k).lookup k' = if k' = k then none else m.lookup k' := by
  split_ifs with hk
  · subst hk
    exact AList.lookup_erase ..
  · exact AList.lookup_erase_ne hk

theorem length_replace (h : m.lookup k = some v) :
    (m.insert k v').keys.length = m.keys.length := by
  have hmem : k ∈ m.keys := mem_of_lookup h
  rw [AList.keys_insert, length_cons, length_erase_of_mem hmem]
  have hpos := length_pos_of_mem hmem
  omega

theorem length_insert_new (h : m.lookup k = none) :
    (m.insert k v).keys.length = m.keys.length + 1 := by
  have hmem : k ∉ m.keys := AList.lookup_eq_none.mp h
  rw [AList.keys_insert, length_cons, erase_of_not_mem hmem]

theorem length_erase (h : m.lookup k = some v) : (m.erase k).keys.length + 1 = m.keys.length := by
  have hmem : k ∈ m.keys := mem_of_lookup h
  rw [AList.keys_erase, length_erase_of_mem hmem]
  have hpos := length_pos_of_mem hmem
  omega

theorem mem_erase : e ∈ (m.erase k).entries ↔ e ∈ m.entries ∧ e.1 ≠ k := by
  obtain ⟨k', v⟩ := e
  rw [← AList.mem_lookup_iff, ← AList.mem_lookup_iff, lookup_erase_cases]
  by_cases hk : k' = k <;> simp [hk]

theorem mem_insert : e ∈ (m.insert k v).entries ↔ e = ⟨k, v⟩ ∨ e ∈ m.entries ∧ e.1 ≠ k := by
  rw [AList.entries_insert, mem_cons]
  exact or_congr_right mem_erase

omit [DecidableEq K] in
/-- The fewer entries a map has, the fewer there are of a kind. -/
theorem length_filter_le (h : m'.entries ⊆ m.entries) (p : (Sigma fun _ : K => V) → Bool) :
    (m'.entries.filter p).length ≤ (m.entries.filter p).length :=
  (subperm_of_subset (m'.nodupKeys.nodup.filter p) (filter_subset p h)).length_le

theorem insert_subset (h : m'.entries ⊆ m.entries) :
    (m'.insert k v).entries ⊆ (m.insert k v).entries := fun _ he =>
  mem_insert.mpr ((mem_insert.mp he).imp_right fun he => ⟨h he.1, he.2⟩)

omit [DecidableEq K] in
theorem length_keys_le (h : m'.entries ⊆ m.entries) : m'.keys.length ≤ m.keys.length := by
  simpa [AList.keys, List.keys] using length_filter_le h fun _ => true

/-- Of a kind there is one more at most, and none under the key that was there. -/
theorem length_filter_insert_le (p : (Sigma fun _ : K => V) → Bool) :
    ((m.insert k v).entries.filter p).length ≤
      (if p ⟨k, v⟩ then 1 else 0) + (m.entries.filter fun e => p e && e.1 ≠ k).length := by
  have hrest : ((m.erase k).entries.filter p).length ≤
      (m.entries.filter fun e => p e && e.1 ≠ k).length := by
    refine (subperm_of_subset ((m.erase k).nodupKeys.nodup.filter p) fun e he => ?_).length_le
    obtain ⟨hmem, hp⟩ := mem_filter.mp he
    obtain ⟨hmem, hne⟩ := mem_erase.mp hmem
    exact mem_filter.mpr ⟨hmem, by simp [hp, hne]⟩
  rw [AList.entries_insert, filter_cons]
  split_ifs with hp
  · rw [length_cons, Nat.add_comm]
    exact Nat.add_le_add_left hrest 1
  · rw [Nat.zero_add]
    exact hrest

end

section

variable {K V : Type}

/-- The entries that pass a test. -/
def retain (p : K → V → Bool) (m : AList fun _ : K => V) : AList fun _ : K => V where
  entries := m.entries.filter fun e => p e.1 e.2
  nodupKeys := List.NodupKeys.sublist filter_sublist m.nodupKeys

theorem retain_subset (p : K → V → Bool) (m : AList fun _ : K => V) :
    (retain p m).entries ⊆ m.entries := filter_subset_self _

end
end Portail.Lib
