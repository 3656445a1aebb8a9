import Mathlib.Data.List.MinMax
import Mathlib.Data.List.Nodup
import Mathlib.Data.Prod.Lex

/-!
# Searches of an ordered index

An ordered index of a multi-index container keeps its rows sorted by a key, and a program moves
through it with `lower_bound`, `upper_bound`, `find`, `++itr` and `--itr`.  The rows are kept
here as a list in any order, and each search as the least or the greatest row, by key, of those
that pass a test:

* `first key p rows`   the least row that passes `p`: `lower_bound`, `upper_bound` and `++itr`
                       for a test closed upwards; `none` is `end()`;
* `last key p rows`    the greatest row that passes `p`: `--itr` for a test closed downwards;
                       `none` when the iterator was `begin()`;
* `first_eq_some_iff`, `last_eq_some_iff`   the row found, when the keys are distinct;
* `first_restrict`, `last_restrict`   an index on a composite key `(f, g)`, searched from a bound
                       `(t, _)` and cut at the rows with `f = t`, is the index on `g` of those rows;
* `first_filter_eq`, `first_restrict_eq`   `find` of a key as its `lower_bound` kept only when
                       equal, in one index and in one prefix of a composite one;
* `last_of_first_gt`, `first_of_last_lt`, `last_of_first_gt_eq_none`   `--itr` undoes `++itr`
                       and `++itr` undoes `--itr`, from a row and from the end.
-/

set_option linter.unusedSectionVars false

namespace OrderedIndex

variable {α κ τ β : Type*}

section Search
variable [LinearOrder κ] (key : α → κ)

/-- the least row, by key, that passes `p`: `lower_bound`, `upper_bound` and `++itr` of an
ordered index for a test `p` closed upwards; `none` is `end()` -/
def first (p : α → Bool) (rows : List α) : Option α := (rows.filter p).argmin key

/-- the greatest row, by key, that passes `p`: `--itr` from the first row that fails a test `p`
closed downwards; `none` when that row was `begin()` -/
def last (p : α → Bool) (rows : List α) : Option α := (rows.filter p).argmax key

end Search

section Lemmas
variable [LinearOrder κ] {key : α → κ} {p q : α → Bool} {rows : List α} {r : α}

theorem first_congr (h : ∀ r ∈ rows, p r = q r) : first key p rows = first key q rows := by
  rw [first, first, List.filter_congr h]

theorem last_congr (h : ∀ r ∈ rows, p r = q r) : last key p rows = last key q rows := by
  rw [last, last, List.filter_congr h]

theorem mem_of_first (h : first key p rows = some r) : r ∈ rows ∧ p r = true :=
  List.mem_filter.mp (List.argmin_mem h)

theorem mem_of_last (h : last key p rows = some r) : r ∈ rows ∧ p r = true :=
  List.mem_filter.mp (List.argmax_mem h)

theorem le_of_first (h : first key p rows = some r) {r' : α} (hr' : r' ∈ rows) (hp : p r' = true) :
    key r ≤ key r' :=
  List.le_of_mem_argmin (List.mem_filter.mpr ⟨hr', hp⟩) h

theorem le_of_last (h : last key p rows = some r) {r' : α} (hr' : r' ∈ rows) (hp : p r' = true) :
    key r' ≤ key r :=
  List.le_of_mem_argmax (List.mem_filter.mpr ⟨hr', hp⟩) h

theorem first_eq_none : first key p rows = none ↔ ∀ r ∈ rows, p r = false := by
  simp [first]

theorem last_eq_none : last key p rows = none ↔ ∀ r ∈ rows, p r = false := by
  simp [last]

theorem first_eq_some_iff (hinj : (rows.map key).Nodup) :
    first key p rows = some r ↔
      (r ∈ rows ∧ p r = true) ∧ ∀ r' ∈ rows, p r' = true → key r ≤ key r' := by
  refine ⟨fun h => ⟨mem_of_first h, fun r' hr' hp => le_of_first h hr' hp⟩, ?_⟩
  rintro ⟨⟨hr, hp⟩, hmin⟩
  cases hm : first key p rows with
  | none => simp [(first_eq_none.mp hm) r hr] at hp
  | some m =>
    obtain ⟨hm', hpm⟩ := mem_of_first hm
    have hkey : key m = key r := le_antisymm (le_of_first hm hr hp) (hmin m hm' hpm)
    rw [List.inj_on_of_nodup_map hinj hm' hr hkey]

theorem last_eq_some_iff (hinj : (rows.map key).Nodup) :
    last key p rows = some r ↔
      (r ∈ rows ∧ p r = true) ∧ ∀ r' ∈ rows, p r' = true → key r' ≤ key r := by
  refine ⟨fun h => ⟨mem_of_last h, fun r' hr' hp => le_of_last h hr' hp⟩, ?_⟩
  rintro ⟨⟨hr, hp⟩, hmax⟩
  cases hm : last key p rows with
  | none => simp [(last_eq_none.mp hm) r hr] at hp
  | some m =>
    obtain ⟨hm', hpm⟩ := mem_of_last hm
    have hkey : key m = key r := le_antisymm (hmax m hm' hpm) (le_of_last hm hr hp)
    rw [List.inj_on_of_nodup_map hinj hm' hr hkey]

theorem first_filter_eq [LinearOrder β] {h : α → β} (hmono : ∀ a b, key a ≤ key b → h a ≤ h b)
    (s : β) (hinj : (rows.map key).Nodup) :
    (first key (fun r => decide (s ≤ h r)) rows).filter (fun r => decide (h r = s)) =
      first key (fun r => decide (h r = s)) rows := by
  cases hm : first key (fun r => decide (s ≤ h r)) rows with
  | none =>
    refine (first_eq_none.mpr fun r hr => ?_).symm
    have := (first_eq_none.mp hm) r hr
    simp only [decide_eq_false_iff_not, not_le] at this ⊢
    exact this.ne
  | some m =>
    obtain ⟨hm', hsm⟩ := mem_of_first hm
    by_cases hms : h m = s
    · rw [Option.filter_some, if_pos (decide_eq_true hms)]
      refine ((first_eq_some_iff hinj).mpr ⟨⟨hm', decide_eq_true hms⟩, fun r' hr' he => ?_⟩).symm
      exact le_of_first hm hr' (decide_eq_true (of_decide_eq_true he).ge)
    · -- the lower bound is past `s`: a row equal to `s` would lie below it
      rw [Option.filter_some, if_neg (by simpa using hms)]
      refine (first_eq_none.mpr fun r hr => decide_eq_false fun hrs => ?_).symm
      have hle := hmono _ _ (le_of_first hm hr (decide_eq_true hrs.ge))
      exact hms (le_antisymm (hrs ▸ hle) (of_decide_eq_true hsm))

/-! ### Neighbours: `--itr` undoes `++itr` -/

theorem last_of_first_gt (hinj : (rows.map key).Nodup) {a b : α} (ha : a ∈ rows)
    (hb : first key (fun r => decide (key a < key r)) rows = some b) :
    last key (fun r => decide (key r < key b)) rows = some a := by
  have hab : key a < key b := of_decide_eq_true (mem_of_first hb).2
  refine (last_eq_some_iff hinj).mpr ⟨⟨ha, decide_eq_true hab⟩, fun r hr hrb => ?_⟩
  by_contra hra
  have hb_le := le_of_first hb hr (decide_eq_true (lt_of_not_ge hra))
  exact absurd (of_decide_eq_true hrb) (not_lt.mpr hb_le)

theorem first_of_last_lt (hinj : (rows.map key).Nodup) {a b : α} (ha : a ∈ rows)
    (hb : last key (fun r => decide (key r < key a)) rows = some b) :
    first key (fun r => decide (key b < key r)) rows = some a := by
  have hba : key b < key a := of_decide_eq_true (mem_of_last hb).2
  refine (first_eq_some_iff hinj).mpr ⟨⟨ha, decide_eq_true hba⟩, fun r hr hbr => ?_⟩
  by_contra hra
  have hle_b := le_of_last hb hr (decide_eq_true (lt_of_not_ge hra))
  exact absurd (of_decide_eq_true hbr) (not_lt.mpr hle_b)

theorem last_of_first_gt_eq_none (hinj : (rows.map key).Nodup) {a : α} (ha : a ∈ rows)
    (hb : first key (fun r => decide (key a < key r)) rows = none) :
    last key (fun _ => true) rows = some a := by
  refine (last_eq_some_iff hinj).mpr ⟨⟨ha, rfl⟩, fun r hr _ => ?_⟩
  have hr' := (first_eq_none.mp hb) r hr
  simpa using hr'

end Lemmas

/-! ## A composite key cut at one prefix -/

section Prefix
variable [LinearOrder τ] [LinearOrder κ] {f : α → τ} {g : α → κ} {t : τ} {p : α → Bool}
  {q : κ → Bool} {rows : List α}

theorem nodup_restrict (hinj : (rows.map fun r => toLex (f r, g r)).Nodup) :
    ((rows.filter fun r => decide (f r = t)).map g).Nodup := by
  have hsub : ((rows.filter fun r => decide (f r = t)).map fun r => toLex (f r, g r)).Nodup :=
    hinj.sublist ((List.filter_sublist).map _)
  refine List.Nodup.of_map (fun x => toLex (t, x)) ?_
  rw [List.map_map]
  refine (List.map_congr_left fun r hr => ?_).symm ▸ hsub
  rw [of_decide_eq_true (List.mem_filter.mp hr).2]
  rfl

/-- **An index on `(f, g)` cut at the prefix `t` is the index on `g` of the rows of `t`**: the
least row at or after a bound `(t, _)` is, when its prefix is `t`, the least row of `t` past the
bound, and otherwise `t` has no row past it. -/
theorem first_restrict (hp : ∀ r, p r = true ↔ t < f r ∨ f r = t ∧ q (g r) = true)
    (hinj : (rows.map fun r => toLex (f r, g r)).Nodup) :
    (first (fun r => toLex (f r, g r)) p rows).filter (fun r => decide (f r = t)) =
      first g (fun r => q (g r)) (rows.filter fun r => decide (f r = t)) := by
  cases hm : first (fun r => toLex (f r, g r)) p rows with
  | none =>
    refine (first_eq_none.mpr fun r hr => ?_).symm
    obtain ⟨hr, hrt⟩ := List.mem_filter.mp hr
    have hpr := (first_eq_none.mp hm) r hr
    by_contra hqr
    have := (hp r).mpr (Or.inr ⟨of_decide_eq_true hrt, Bool.not_eq_false _ ▸ hqr⟩)
    simp_all
  | some m =>
    obtain ⟨hm', hpm⟩ := mem_of_first hm
    by_cases hmt : f m = t
    · -- the row found has prefix `t`: it is the least row of `t` that passes `q`
      rw [Option.filter_some, if_pos (decide_eq_true hmt)]
      refine ((first_eq_some_iff (nodup_restrict hinj)).mpr ⟨⟨?_, ?_⟩, fun r' hr' hq' => ?_⟩).symm
      · exact List.mem_filter.mpr ⟨hm', decide_eq_true hmt⟩
      · rcases (hp m).mp hpm with hlt | ⟨-, hqm⟩
        · exact absurd hmt hlt.ne'
        · exact hqm
      · obtain ⟨hr', hrt⟩ := List.mem_filter.mp hr'
        have hrt := of_decide_eq_true hrt
        have hle := le_of_first hm hr' ((hp r').mpr (Or.inr ⟨hrt, hq'⟩))
        rcases Prod.Lex.toLex_le_toLex.mp hle with hlt | ⟨-, hle⟩
        · exact absurd (hmt.trans hrt.symm) hlt.ne
        · exact hle
    · -- the row found is past prefix `t`, so no row of `t` passes `q`
      rw [Option.filter_some, if_neg (by simpa using hmt)]
      refine (first_eq_none.mpr fun r hr => ?_).symm
      obtain ⟨hr, hrt⟩ := List.mem_filter.mp hr
      have hrt := of_decide_eq_true hrt
      have htm : t < f m := by
        rcases (hp m).mp hpm with hlt | ⟨heq, -⟩
        · exact hlt
        · exact absurd heq hmt
      by_contra hqr
      have hle := le_of_first hm hr ((hp r).mpr (Or.inr ⟨hrt, Bool.not_eq_false _ ▸ hqr⟩))
      rcases Prod.Lex.toLex_le_toLex.mp hle with hlt | ⟨heq, -⟩
      · exact absurd (hrt ▸ hlt) (not_lt.mpr htm.le)
      · exact hmt (heq.trans hrt)

theorem last_restrict (hp : ∀ r, p r = true ↔ f r < t ∨ f r = t ∧ q (g r) = true)
    (hinj : (rows.map fun r => toLex (f r, g r)).Nodup) :
    (last (fun r => toLex (f r, g r)) p rows).filter (fun r => decide (f r = t)) =
      last g (fun r => q (g r)) (rows.filter fun r => decide (f r = t)) := by
  cases hm : last (fun r => toLex (f r, g r)) p rows with
  | none =>
    refine (last_eq_none.mpr fun r hr => ?_).symm
    obtain ⟨hr, hrt⟩ := List.mem_filter.mp hr
    have hpr := (last_eq_none.mp hm) r hr
    by_contra hqr
    have := (hp r).mpr (Or.inr ⟨of_decide_eq_true hrt, Bool.not_eq_false _ ▸ hqr⟩)
    simp_all
  | some m =>
    obtain ⟨hm', hpm⟩ := mem_of_last hm
    by_cases hmt : f m = t
    · rw [Option.filter_some, if_pos (decide_eq_true hmt)]
      refine ((last_eq_some_iff (nodup_restrict hinj)).mpr ⟨⟨?_, ?_⟩, fun r' hr' hq' => ?_⟩).symm
      · exact List.mem_filter.mpr ⟨hm', decide_eq_true hmt⟩
      · rcases (hp m).mp hpm with hlt | ⟨-, hqm⟩
        · exact absurd hmt hlt.ne
        · exact hqm
      · obtain ⟨hr', hrt⟩ := List.mem_filter.mp hr'
        have hrt := of_decide_eq_true hrt
        have hle := le_of_last hm hr' ((hp r').mpr (Or.inr ⟨hrt, hq'⟩))
        rcases Prod.Lex.toLex_le_toLex.mp hle with hlt | ⟨-, hle⟩
        · exact absurd (hrt.trans hmt.symm) hlt.ne
        · exact hle
    · -- the row found is before prefix `t`, so no row of `t` passes `q`
      rw [Option.filter_some, if_neg (by simpa using hmt)]
      refine (last_eq_none.mpr fun r hr => ?_).symm
      obtain ⟨hr, hrt⟩ := List.mem_filter.mp hr
      have hrt := of_decide_eq_true hrt
      have hmt' : f m < t := by
        rcases (hp m).mp hpm with hlt | ⟨heq, -⟩
        · exact hlt
        · exact absurd heq hmt
      by_contra hqr
      have hle := le_of_last hm hr ((hp r).mpr (Or.inr ⟨hrt, Bool.not_eq_false _ ▸ hqr⟩))
      rcases Prod.Lex.toLex_le_toLex.mp hle with hlt | ⟨heq, -⟩
      · exact absurd (hrt ▸ hlt) (not_lt.mpr hmt'.le)
      · exact hmt (heq.symm.trans hrt)

theorem first_restrict_eq [LinearOrder β] {h : κ → β} (hmono : Monotone h) {s : β}
    (hp : ∀ r, p r = true ↔ t < f r ∨ f r = t ∧ s ≤ h (g r))
    (hinj : (rows.map fun r => toLex (f r, g r)).Nodup) :
    (first (fun r => toLex (f r, g r)) p rows).filter (fun r => decide (f r = t ∧ h (g r) = s)) =
      first g (fun r => decide (h (g r) = s)) (rows.filter fun r => decide (f r = t)) := by
  have hsplit : ∀ x : Option α, x.filter (fun r => decide (f r = t ∧ h (g r) = s)) =
      (x.filter fun r => decide (f r = t)).filter fun r => decide (h (g r) = s) := by
    intro x
    rw [Option.filter_filter]
    congr 1
    funext r
    simp
  rw [hsplit, first_restrict (q := fun k => decide (s ≤ h k)) (by simpa using hp) hinj]
  exact first_filter_eq (fun a b (hab : g a ≤ g b) => hmono hab) s (nodup_restrict hinj)

end Prefix

theorem nodup_map_of_determines {ι' : Type*} {rows : List α} {ident : α → ι'} {k : α → β}
    (hnd : (rows.map ident).Nodup) (hk : ∀ a b, k a = k b → ident a = ident b) :
    (rows.map k).Nodup :=
  (hnd.of_map ident).map_on fun a ha b hb hab => List.inj_on_of_nodup_map hnd ha hb (hk a b hab)

end OrderedIndex
