import Mathlib

/-!
# Sorted maps

`boost::container::flat_map`: the entries of a map kept in the order of their keys, each key
once.  `m[k]` makes the entry of a missing key from a default value, and a loop over the map
visits the entries in the order of their keys.

* `SortedMap κ β`            the entries, with keys strictly increasing;
* `SortedMap.modify m k d f` `m[k]` changed by `f`, the entry made from `d` when `k` has none;
* `lookup_modify`, `mem_keys_modify`   the entries after a `modify`;
* `SortedMap.modifyEach m ks d f`   a loop of `modify` over the keys `ks`, with
                             `lookup_modifyEach` and `mem_keys_modifyEach`;
* `nodup_keys`               each key once.
-/

/-- the entries of a map ordered by their keys, each key once -/
structure SortedMap (κ β : Type) [LinearOrder κ] where
  entries : List (κ × β)
  ascending : (entries.map Prod.fst).Pairwise (· < ·)

namespace SortedMap

variable {κ β : Type} [LinearOrder κ]

/-- the map with no entry -/
def empty : SortedMap κ β := ⟨[], List.Pairwise.nil⟩

/-- the entries after `m[k]` is changed by `f`; a missing entry is put in its place in the order -/
def modifyEntries (k : κ) (d : β) (f : β → β) : List (κ × β) → List (κ × β)
  | [] => [(k, f d)]
  | (k', v) :: m =>
    if k < k' then (k, f d) :: (k', v) :: m
    else if k = k' then (k', f v) :: m
    else (k', v) :: modifyEntries k d f m

theorem mem_keys_modifyEntries (k : κ) (d : β) (f : β → β) (a : κ) :
    ∀ m : List (κ × β), a ∈ (modifyEntries k d f m).map Prod.fst ↔ a = k ∨ a ∈ m.map Prod.fst
  | [] => by simp [modifyEntries]
  | (k', v) :: m => by
    unfold modifyEntries
    split
    · simp
    · split
      · next heq =>
        subst heq
        simp
      · simp only [List.map_cons, List.mem_cons, mem_keys_modifyEntries k d f a m]
        tauto

theorem ascending_modifyEntries (k : κ) (d : β) (f : β → β) :
    ∀ {m : List (κ × β)}, (m.map Prod.fst).Pairwise (· < ·) →
      ((modifyEntries k d f m).map Prod.fst).Pairwise (· < ·)
  | [], _ => by simp [modifyEntries]
  | (k', v) :: m, h => by
    rw [List.map_cons, List.pairwise_cons] at h
    unfold modifyEntries
    split
    · next hlt =>
      simp only [List.map_cons, List.pairwise_cons, List.mem_cons, forall_eq_or_imp]
      exact ⟨⟨hlt, fun b hb => hlt.trans (h.1 b hb)⟩, h.1, h.2⟩
    · split
      · next heq =>
        subst heq
        simpa using h
      · next hnlt hne =>
        have hgt : k' < k := lt_of_le_of_ne (not_lt.mp hnlt) (Ne.symm hne)
        rw [List.map_cons, List.pairwise_cons]
        refine ⟨fun b hb => ?_, ascending_modifyEntries k d f h.2⟩
        rcases (mem_keys_modifyEntries k d f b m).mp hb with rfl | hb
        · exact hgt
        · exact h.1 b hb

/-- `m[k]`, changed by `f`; the entry of a missing key is made from `d` -/
def modify (m : SortedMap κ β) (k : κ) (d : β) (f : β → β) : SortedMap κ β :=
  ⟨modifyEntries k d f m.entries, ascending_modifyEntries k d f m.ascending⟩

/-- the value of the entry of `a` -/
def lookup (m : SortedMap κ β) (a : κ) : Option β := m.entries.lookup a

@[simp] theorem lookup_empty (a : κ) : (empty : SortedMap κ β).lookup a = none := rfl

theorem nodup_keys (m : SortedMap κ β) : (m.entries.map Prod.fst).Nodup :=
  m.ascending.imp ne_of_lt

theorem lookup_eq_none_of_lt {k : κ} :
    ∀ {m : List (κ × β)}, (m.map Prod.fst).Pairwise (· < ·) → (∀ b ∈ m.map Prod.fst, k < b) →
      m.lookup k = none
  | [], _, _ => rfl
  | (k', v) :: m, h, hlt => by
    rw [List.map_cons, List.pairwise_cons] at h
    have hk : k ≠ k' := ne_of_lt (hlt k' List.mem_cons_self)
    rw [List.lookup_cons, beq_false_of_ne hk]
    exact lookup_eq_none_of_lt h.2 fun b hb => hlt b (List.mem_cons_of_mem _ hb)

theorem lookup_modifyEntries (k a : κ) (d : β) (f : β → β) :
    ∀ {m : List (κ × β)}, (m.map Prod.fst).Pairwise (· < ·) →
      (modifyEntries k d f m).lookup a = if a = k then some (f ((m.lookup k).getD d)) else m.lookup a
  | [], _ => by
    by_cases ha : a = k <;> simp [modifyEntries, ha]
  | (k', v) :: m, h => by
    unfold modifyEntries
    split
    · next hlt =>
      have hnone : ((k', v) :: m).lookup k = none :=
        lookup_eq_none_of_lt h fun b hb => by
          rw [List.map_cons, List.pairwise_cons] at h
          rcases List.mem_cons.mp hb with rfl | hb
          · exact hlt
          · exact hlt.trans (h.1 b hb)
      by_cases ha : a = k
      · simp [ha, hnone]
      · rw [List.lookup_cons, beq_false_of_ne ha, if_neg ha]
    · split
      · next heq =>
        subst heq
        by_cases ha : a = k
        · simp [ha]
        · simp [ha, List.lookup_cons, beq_false_of_ne ha]
      · next hnlt hne =>
        rw [List.map_cons, List.pairwise_cons] at h
        have ih := lookup_modifyEntries k a d f h.2
        by_cases ha : a = k
        · subst ha
          simp [List.lookup_cons, beq_false_of_ne hne, ih]
        · by_cases hak : a = k'
          · subst hak
            simp [ha]
          · simp [List.lookup_cons, beq_false_of_ne hak, ih, ha]

theorem lookup_modify (m : SortedMap κ β) (k a : κ) (d : β) (f : β → β) :
    (m.modify k d f).lookup a = if a = k then some (f ((m.lookup k).getD d)) else m.lookup a :=
  lookup_modifyEntries k a d f m.ascending

theorem mem_keys_modify (m : SortedMap κ β) (k a : κ) (d : β) (f : β → β) :
    a ∈ (m.modify k d f).entries.map Prod.fst ↔ a = k ∨ a ∈ m.entries.map Prod.fst :=
  mem_keys_modifyEntries k d f a m.entries

/-- `for (k : ks) m[k]` changed by `f` -/
def modifyEach (m : SortedMap κ β) (ks : List κ) (d : β) (f : β → β) : SortedMap κ β :=
  ks.foldl (fun m k => m.modify k d f) m

theorem lookup_modifyEach (d : β) (f : β → β) (a : κ) :
    ∀ {ks : List κ} (m : SortedMap κ β), ks.Nodup →
      (m.modifyEach ks d f).lookup a = if a ∈ ks then some (f ((m.lookup a).getD d)) else m.lookup a
  | [], m, _ => by simp [modifyEach]
  | k :: ks, m, hnd => by
    rw [List.nodup_cons] at hnd
    have ih := lookup_modifyEach d f a (m.modify k d f) hnd.2
    rw [modifyEach, List.foldl_cons, ← modifyEach, ih, lookup_modify]
    by_cases hks : a ∈ ks
    · -- `a` comes later in the loop, so it is not `k`
      have hak : a ≠ k := fun h => hnd.1 (h ▸ hks)
      simp [hks, hak]
    · by_cases hak : a = k
      · subst hak
        simp [hks]
      · simp [hks, hak]

theorem mem_keys_modifyEach (d : β) (f : β → β) (a : κ) :
    ∀ (ks : List κ) (m : SortedMap κ β),
      a ∈ (m.modifyEach ks d f).entries.map Prod.fst ↔ a ∈ ks ∨ a ∈ m.entries.map Prod.fst
  | [], m => by simp [modifyEach]
  | k :: ks, m => by
    rw [modifyEach, List.foldl_cons, ← modifyEach, mem_keys_modifyEach d f a ks, mem_keys_modify,
      List.mem_cons]
    tauto

end SortedMap
