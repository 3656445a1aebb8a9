import Mathlib.Data.List.DropRight

/-!
# Trimming a list on the right

`List.rdropWhile p l` is `l` without the longest suffix of elements that satisfy `p`, and
`List.rtakeWhile p l` is that suffix.  Here, where the two parts lie: the kept part is a prefix,
so below its length it reads as `l`; at and above its length `l` has only elements that satisfy
`p`; and its last element does not.  Trimming commutes with dropping a prefix and does not see a
tail of elements that satisfy `p`.  Last, the last position below `k` at which a test holds.

* `getElem?_rdropWhile`, `rdropWhile_dropped`, `rdropWhile_last`   the two parts by position;
* `drop_rdropWhile`, `rdropWhile_append_replicate`   trimming after a drop and before a tail;
* `getLast?_filter_range_eq_some`, `getLast?_filter_range_eq_none`   the last position.
-/

namespace Trim

variable {α : Type} {p : α → Bool}

theorem getElem?_rdropWhile {l : List α} {i : Nat} (h : i < (l.rdropWhile p).length) :
    (l.rdropWhile p)[i]? = l[i]? := by
  rw [List.prefix_iff_eq_take.mp (List.rdropWhile_prefix p l), List.getElem?_take, if_pos h]

theorem rdropWhile_dropped {l : List α} {i : Nat} {x : α} (hx : l[i]? = some x)
    (h : (l.rdropWhile p).length ≤ i) : p x = true := by
  rw [← List.rdropWhile_append_rtakeWhile (p := p) (l := l), List.getElem?_append_right h] at hx
  exact List.mem_rtakeWhile_imp (List.mem_of_getElem? hx)

theorem rdropWhile_last {l : List α} (h : l.rdropWhile p ≠ []) :
    ∃ x, l[(l.rdropWhile p).length - 1]? = some x ∧ p x = false := by
  refine ⟨(l.rdropWhile p).getLast h, ?_, by simpa using List.rdropWhile_last_not p l h⟩
  have hlen : (l.rdropWhile p).length - 1 < (l.rdropWhile p).length := by
    have := List.length_pos_iff.mpr h
    omega
  rw [← getElem?_rdropWhile hlen, List.getLast_eq_getElem, List.getElem?_eq_getElem hlen]

theorem rdropWhile_append_replicate (l : List α) {a : α} (ha : p a = true) :
    ∀ m, (l ++ List.replicate m a).rdropWhile p = l.rdropWhile p
  | 0 => by rw [List.replicate_zero, List.append_nil]
  | m + 1 => by
    rw [List.replicate_succ', ← List.append_assoc, List.rdropWhile_concat_pos _ _ _ ha]
    exact rdropWhile_append_replicate l ha m

theorem drop_rdropWhile (k : Nat) (l : List α) :
    (l.rdropWhile p).drop k = (l.drop k).rdropWhile p := by
  induction l using List.reverseRecOn with
  | nil => simp
  | append_singleton l a ih =>
    by_cases hk : k ≤ l.length
    · rw [List.drop_append_of_le_length hk]
      by_cases ha : p a = true
      · rw [List.rdropWhile_concat_pos _ _ _ ha, List.rdropWhile_concat_pos _ _ _ ha, ih]
      · rw [List.rdropWhile_concat_neg _ _ _ ha, List.rdropWhile_concat_neg _ _ _ ha,
          List.drop_append_of_le_length hk]
    · -- both sides are empty: the prefix dropped is the whole list
      have hle : (l ++ [a]).length ≤ k := by
        rw [List.length_append, List.length_singleton]
        omega
      rw [List.drop_eq_nil_of_le hle, List.drop_eq_nil_of_le
        ((List.rdropWhile_prefix p _).length_le.trans hle)]
      rfl

theorem getLast?_filter_range_eq_some {q : Nat → Bool} {i : Nat} :
    ∀ k, ((List.range k).filter q).getLast? = some i ↔
      i < k ∧ q i = true ∧ ∀ j < k, q j = true → j ≤ i
  | 0 => by simp
  | k + 1 => by
    rw [List.range_succ, List.filter_append, List.getLast?_append]
    by_cases hk : q k = true
    · -- `k` itself is the last
      rw [List.filter_singleton, hk, cond_true, List.getLast?_singleton, Option.some_or]
      constructor
      · rintro ⟨⟩
        exact ⟨by omega, hk, fun j hj _ => by omega⟩
      · rintro ⟨hi, -, hmax⟩
        exact congrArg some (le_antisymm (hmax k (by omega) hk) (by omega))
    · rw [List.filter_singleton, Bool.eq_false_iff.mpr hk, cond_false, List.getLast?_nil, Option.none_or,
        getLast?_filter_range_eq_some k]
      constructor
      · rintro ⟨hi, hq, hmax⟩
        refine ⟨by omega, hq, fun j hj hqj => ?_⟩
        rcases Nat.lt_succ_iff_lt_or_eq.mp hj with hj | rfl
        · exact hmax j hj hqj
        · exact absurd hqj hk
      · rintro ⟨hi, hq, hmax⟩
        have hik : i ≠ k := fun h => hk (h ▸ hq)
        exact ⟨by omega, hq, fun j hj => hmax j (by omega)⟩

theorem getLast?_filter_range_eq_none {q : Nat → Bool} {k : Nat} :
    ((List.range k).filter q).getLast? = none ↔ ∀ j < k, q j = false := by
  simp

end Trim
