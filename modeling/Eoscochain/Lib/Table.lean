import Mathlib.Algebra.BigOperators.Group.List.Basic
import Mathlib.Tactic.Abel
import Mathlib.Data.List.Nodup

/-!
# Tables as lists of rows

A table of a contract is a list of rows in primary-key order; a secondary index is the same
rows ordered by another key, ties broken by the primary key, that is by position.

* `first key rows`           `begin()` of the index ordered by `key`, with its position;
* `firstBy key rows`         that row;
* `eraseWhileFirst key p`    the loop that erases `begin()` while it satisfies `p`, counting
                             the erased rows; `mem_eraseWhileFirst`: for a `p` that holds below
                             where it holds, the rows satisfying `p` are erased, the others kept;
* `nextPk pk rows`           `available_primary_key()`: one past the largest primary key;
* `insertByPk`, `getByPk`    `emplace` and `get` by primary key;
* `findKey`, `getKey`        `find` and `get` on an index by `key`, with the row's position;
* `mem_set_of_ne`, `mem_eraseIdx_of_ne`, `map_set_of_key`, `mem_map_eraseIdx`   the rows that
                             `modify` and `erase` of another row leave, the index a `modify`
                             keeps and the one an `erase` leaves; `map_set_of_image`,
                             `map_modify_of_image`: what a `modify` keeps of each row it keeps
                             of the rows;
* `find?_set_of_neg`, `find?_eraseIdx_of_neg`   a search that the changed or erased row fails;
* `findKey_set_of_key`, `findKey_append_of_none`   `find` after a `modify` that keeps the key,
                             and after an `emplace` of a new key;
* `index_eq_of_key`, `eq_of_mem_set_of_key`   with unique keys, a key names one row;
* `sum_map_set`, `sum_map_eraseIdx`, `perm_insertByPk`   what `modify`, `erase` and `emplace`
                             do to a sum over the rows;
* `sumBy key val k`          what a table holds for the key `k`, and `findKey_val_eq_sumBy`: with
                             unique keys, the value of the row `find` returns.
-/

set_option linter.unusedSectionVars false

namespace Table

section
variable {α κ : Type*} [DecidableEq κ]

/-- the position and the value of the first row with the least `key` -/
def first (key : α → Nat) : List α → Option (Nat × α)
  | [] => none
  | r :: rs =>
    match first key rs with
    | some (i, r') => if key r' < key r then some (i + 1, r') else some (0, r)
    | none => some (0, r)

/-- `begin()` of the index ordered by `key` -/
def firstBy (key : α → Nat) (rows : List α) : Option α := (first key rows).map Prod.snd

/-- `available_primary_key()` -/
def nextPk (pk : α → Nat) (rows : List α) : Nat :=
  match (rows.map pk).max? with
  | some m => m + 1
  | none => 0

/-- `for (it = idx.begin(); it != idx.end() && p(*it);) { idx.erase(it); it = idx.begin(); }`,
with the number of erased rows; one iteration per unit of `fuel` -/
def eraseWhileFirst (key : α → Nat) (p : α → Bool) : Nat → List α → List α × Nat
  | 0, rows => (rows, 0)
  | fuel + 1, rows =>
    match first key rows with
    | some (i, r) =>
      if p r then
        let res := eraseWhileFirst key p fuel (rows.eraseIdx i)
        (res.1, res.2 + 1)
      else (rows, 0)
    | none => (rows, 0)

/-- a row put in primary-key order, as `emplace` stores it -/
def insertByPk (pk : α → Nat) (row : α) : List α → List α
  | [] => [row]
  | r :: rs => if pk row < pk r then row :: r :: rs else r :: insertByPk pk row rs

/-- `get(key, msg)`: the row with that primary key, or the error `msg` -/
def getByPk (pk : α → Nat) (key : Nat) (rows : List α) (msg : String) : Except String α :=
  match rows.find? (pk · == key) with
  | some r => pure r
  | none => throw msg

/-- `find(k)` on an index by `key`: the position and the value of the first row with key `k` -/
def findKey (key : α → κ) (k : κ) : List α → Option (Nat × α)
  | [] => none
  | r :: rs => if key r = k then some (0, r) else (findKey key k rs).map fun p => (p.1 + 1, p.2)

/-- `get(k, msg)` on an index by `key` -/
def getKey (key : α → κ) (k : κ) (rows : List α) (msg : String) : Except String (Nat × α) :=
  match findKey key k rows with
  | some p => pure p
  | none => throw msg

@[simp] theorem length_insertByPk (pk : α → Nat) (row : α) :
    ∀ rows : List α, (insertByPk pk row rows).length = rows.length + 1
  | [] => rfl
  | r :: rs => by
    unfold insertByPk
    split
    · rfl
    · simp [length_insertByPk pk row rs]

theorem getByPk_eq_ok {pk : α → Nat} {key : Nat} {rows : List α} {msg : String} {r : α}
    (h : getByPk pk key rows msg = .ok r) : r ∈ rows ∧ pk r = key := by
  unfold getByPk at h
  split at h
  · next r' hr =>
    cases h
    exact ⟨List.mem_of_find?_eq_some hr, by simpa using List.find?_some hr⟩
  · cases h

theorem first_get {key : α → Nat} :
    ∀ {rows : List α} {i : Nat} {r : α}, first key rows = some (i, r) → rows[i]? = some r
  | [], _, _, h => nomatch h
  | r0 :: rs, i, r, h => by
    unfold first at h
    split at h
    · next j r' hj =>
      split at h
      · cases h
        have hj' : rs[j]? = some r := first_get hj
        simpa using hj'
      · cases h
        rfl
    · cases h
      rfl

theorem first_lt_length {key : α → Nat} {rows : List α} {i : Nat} {r : α}
    (h : first key rows = some (i, r)) : i < rows.length := by
  have hget := first_get h
  exact (List.getElem?_eq_some_iff.mp hget).1

theorem first_eq_none {key : α → Nat} {rows : List α} : first key rows = none ↔ rows = [] := by
  cases rows with
  | nil => exact ⟨fun _ => rfl, fun _ => rfl⟩
  | cons r rs =>
    constructor
    · intro h
      unfold first at h
      split at h <;> (try split at h) <;> cases h
    · intro h
      cases h

theorem first_le {key : α → Nat} :
    ∀ {rows : List α} {i : Nat} {r : α}, first key rows = some (i, r) → ∀ y ∈ rows, key r ≤ key y
  | [], _, _, h => nomatch h
  | r0 :: rs, i, r, h => by
    unfold first at h
    intro y hy
    split at h
    · next j r' hj =>
      have hle := first_le hj
      split at h
      · next hlt =>
        cases h
        rcases List.mem_cons.mp hy with rfl | hy
        · exact Nat.le_of_lt hlt
        · exact hle y hy
      · next hge =>
        cases h
        rcases List.mem_cons.mp hy with rfl | hy
        · exact Nat.le_refl _
        · exact Nat.le_trans (Nat.le_of_not_lt hge) (hle y hy)
    · next hnone =>
      cases h
      rw [first_eq_none.mp hnone] at hy
      rcases List.mem_cons.mp hy with rfl | hy
      · exact Nat.le_refl _
      · exact absurd hy List.not_mem_nil

theorem length_eraseIdx_first {key : α → Nat} {rows : List α} {i : Nat} {r : α}
    (h : first key rows = some (i, r)) : (rows.eraseIdx i).length + 1 = rows.length := by
  rw [List.length_eraseIdx_of_lt (first_lt_length h)]
  have := first_lt_length h
  omega

/-- **every erased row is counted** -/
theorem eraseWhileFirst_length (key : α → Nat) (p : α → Bool) :
    ∀ (fuel : Nat) (rows : List α),
      (eraseWhileFirst key p fuel rows).1.length + (eraseWhileFirst key p fuel rows).2
        = rows.length
  | 0, rows => rfl
  | fuel + 1, rows => by
    unfold eraseWhileFirst
    split
    · next i r h =>
      split
      · have ih := eraseWhileFirst_length key p fuel (rows.eraseIdx i)
        have hl := length_eraseIdx_first h
        simp only
        omega
      · rfl
    · rfl

theorem findKey_get {key : α → κ} {k : κ} :
    ∀ {rows : List α} {i : Nat} {r : α}, findKey key k rows = some (i, r) →
      rows[i]? = some r ∧ key r = k
  | [], _, _, h => nomatch h
  | r0 :: rs, i, r, h => by
    unfold findKey at h
    split at h
    · next hk =>
      cases h
      exact ⟨rfl, hk⟩
    · obtain ⟨⟨j, r'⟩, hj, hp⟩ := Option.map_eq_some_iff.mp h
      cases hp
      have hrs : rs[j]? = some r' ∧ key r' = k := findKey_get hj
      simpa using hrs

theorem findKey_eq_none {key : α → κ} {k : κ} :
    ∀ {rows : List α}, findKey key k rows = none → ∀ r ∈ rows, key r ≠ k
  | [], _, _, hr => nomatch hr
  | r0 :: rs, h, r, hr => by
    unfold findKey at h
    split at h
    · cases h
    · next hk =>
      rcases List.mem_cons.mp hr with rfl | hr
      · exact hk
      · exact findKey_eq_none (Option.map_eq_none_iff.mp h) r hr

theorem getKey_eq_ok {key : α → κ} {k : κ} {rows : List α} {msg : String} {i : Nat} {r : α}
    (h : getKey key k rows msg = .ok (i, r)) : rows[i]? = some r ∧ key r = k := by
  unfold getKey at h
  split at h
  · next p hp =>
    cases h
    exact findKey_get hp
  · cases h

theorem findKey_of_getKey {key : α → κ} {k : κ} {rows : List α} {msg : String} {p : Nat × α}
    (h : getKey key k rows msg = .ok p) : findKey key k rows = some p := by
  unfold getKey at h
  split at h
  · next p' hp =>
    cases h
    exact hp
  · cases h

theorem mem_set_of_ne {rows : List α} {i : Nat} {r : α} (x : α) (hr : r ∈ rows)
    (hne : ∀ h : i < rows.length, r ≠ rows[i]) : r ∈ rows.set i x := by
  obtain ⟨k, hk, rfl⟩ := List.mem_iff_getElem.mp hr
  have hki : k ≠ i := fun hki => by subst hki; exact hne hk rfl
  exact List.mem_iff_getElem.mpr ⟨k, by simpa using hk, List.getElem_set_ne (Ne.symm hki) _⟩

theorem mem_eraseIdx_of_ne {rows : List α} {i : Nat} {r : α} (hr : r ∈ rows)
    (hne : ∀ h : i < rows.length, r ≠ rows[i]) : r ∈ rows.eraseIdx i := by
  obtain ⟨k, hk, rfl⟩ := List.mem_iff_getElem.mp hr
  have hki : k ≠ i := fun hki => by subst hki; exact hne hk rfl
  exact List.mem_eraseIdx_iff_getElem.mpr ⟨k, hk, hki, rfl⟩

theorem find?_set_of_neg {p : α → Bool} {x : α} :
    ∀ {rows : List α} {i : Nat} {r : α}, rows[i]? = some r → p r = false → p x = false →
      (rows.set i x).find? p = rows.find? p
  | [], _, _, h, _, _ => by simp at h
  | y :: ys, 0, r, h, hr, hx => by
    obtain rfl : y = r := by simpa using h
    rw [List.set_cons_zero, List.find?_cons_of_neg (by simp [hx]),
      List.find?_cons_of_neg (by simp [hr])]
  | y :: ys, i + 1, r, h, hr, hx => by
    rw [List.set_cons_succ, List.find?_cons, List.find?_cons,
      find?_set_of_neg (by simpa using h) hr hx]

theorem find?_eraseIdx_of_neg {p : α → Bool} :
    ∀ {rows : List α} {i : Nat} {r : α}, rows[i]? = some r → p r = false →
      (rows.eraseIdx i).find? p = rows.find? p
  | [], _, _, h, _ => by simp at h
  | y :: ys, 0, r, h, hr => by
    obtain rfl : y = r := by simpa using h
    rw [List.eraseIdx_cons_zero, List.find?_cons_of_neg (by simp [hr])]
  | y :: ys, i + 1, r, h, hr => by
    rw [List.eraseIdx_cons_succ, List.find?_cons, List.find?_cons,
      find?_eraseIdx_of_neg (by simpa using h) hr]

/-- **The loop erases exactly the rows satisfying `p`**, when `p` holds of every key below one
where it holds and the fuel covers the rows -/
theorem mem_eraseWhileFirst {key : α → Nat} {p : α → Bool}
    (hdown : ∀ x y, p x = true → key y ≤ key x → p y = true) :
    ∀ (fuel : Nat) (rows : List α), rows.length ≤ fuel →
      ∀ x, x ∈ (eraseWhileFirst key p fuel rows).1 ↔ x ∈ rows ∧ p x = false
  | 0, rows, hfuel, x => by
    rw [List.eq_nil_of_length_eq_zero (Nat.le_zero.mp hfuel)]
    simp [eraseWhileFirst]
  | fuel + 1, rows, hfuel, x => by
    unfold eraseWhileFirst
    split
    · next i r h =>
      have hr : rows[i]? = some r := first_get h
      split
      · next hp =>
        have hlen := length_eraseIdx_first h
        rw [mem_eraseWhileFirst hdown fuel (rows.eraseIdx i) (by omega) x]
        constructor
        · rintro ⟨hx, hpx⟩
          exact ⟨List.mem_of_mem_eraseIdx hx, hpx⟩
        · rintro ⟨hx, hpx⟩
          refine ⟨mem_eraseIdx_of_ne hx fun hi heq => ?_, hpx⟩
          obtain ⟨_, hget⟩ := List.getElem?_eq_some_iff.mp hr
          rw [heq, hget, hp] at hpx
          cases hpx
      · next hp =>
        constructor
        · intro hx
          refine ⟨hx, ?_⟩
          cases hpx : p x with
          | false => rfl
          | true =>
            have := hdown x r hpx (first_le h x hx)
            rw [this] at hp
            exact absurd rfl hp
        · exact fun hx => hx.1
    · next hnone =>
      rw [first_eq_none.mp hnone]
      simp

theorem nodup_map_append {key : α → κ} {rows : List α} {x : α} (hrows : (rows.map key).Nodup)
    (hx : ∀ r ∈ rows, key r ≠ key x) : ((rows ++ [x]).map key).Nodup := by
  rw [List.map_append]
  refine List.nodup_append.mpr ⟨hrows, List.nodup_singleton _, ?_⟩
  intro k hk k' hk' hkk
  rw [List.map_singleton, List.mem_singleton] at hk'
  obtain ⟨r, hr, rfl⟩ := List.mem_map.mp hk
  exact hx r hr (hkk.trans hk')

theorem index_eq_of_key {key : α → κ} {rows : List α} (hnodup : (rows.map key).Nodup) {i j : Nat}
    (hi : i < rows.length) (hj : j < rows.length) (hk : key rows[i] = key rows[j]) : i = j := by
  have hi' : i < (rows.map key).length := by simpa using hi
  have hj' : j < (rows.map key).length := by simpa using hj
  have hinj := @List.Nodup.getElem_inj_iff _ _ hnodup i hi' j hj'
  simp only [List.getElem_map] at hinj
  exact hinj.mp hk

theorem mem_map_eraseIdx {key : α → κ} {rows : List α} {i : Nat} {r : α}
    (hnodup : (rows.map key).Nodup) (hi : rows[i]? = some r) (k : κ) :
    k ∈ (rows.eraseIdx i).map key ↔ k ∈ rows.map key ∧ k ≠ key r := by
  obtain ⟨hlt, rfl⟩ := List.getElem?_eq_some_iff.mp hi
  constructor
  · intro hk
    obtain ⟨x, hx, rfl⟩ := List.mem_map.mp hk
    obtain ⟨j, hj, hji, rfl⟩ := List.mem_eraseIdx_iff_getElem.mp hx
    exact ⟨List.mem_map_of_mem (List.getElem_mem hj),
      fun heq => hji (index_eq_of_key hnodup hj hlt heq)⟩
  · rintro ⟨hk, hne⟩
    obtain ⟨x, hx, rfl⟩ := List.mem_map.mp hk
    exact List.mem_map_of_mem (mem_eraseIdx_of_ne hx fun _ hxi => hne (by rw [hxi]))

theorem eq_of_mem_set_of_key {key : α → κ} {rows : List α} {i : Nat} {r x y : α}
    (hnodup : (rows.map key).Nodup) (hi : rows[i]? = some r) (hy : y ∈ rows.set i x)
    (hk : key y = key r) : y = x := by
  obtain ⟨hlt, rfl⟩ := List.getElem?_eq_some_iff.mp hi
  obtain ⟨j, hj, rfl⟩ := List.mem_iff_getElem.mp hy
  rw [List.length_set] at hj
  by_cases hji : i = j
  · subst hji
    exact List.getElem_set_self _
  · rw [List.getElem_set_ne hji] at hk ⊢
    exact absurd (index_eq_of_key hnodup hj hlt hk).symm hji

theorem findKey_set_self {key : α → κ} {k : κ} {x : α} :
    ∀ {rows : List α} {i : Nat} {r : α}, findKey key k rows = some (i, r) → key x = k →
      findKey key k (rows.set i x) = some (i, x)
  | [], _, _, h, _ => nomatch h
  | r0 :: rs, i, r, h, hx => by
    unfold findKey at h
    split at h
    · cases h
      simp [findKey, hx]
    · next hk =>
      obtain ⟨⟨j, r'⟩, hj, hp⟩ := Option.map_eq_some_iff.mp h
      cases hp
      simp [findKey, hk, findKey_set_self hj hx]

theorem findKey_set_of_ne {key : α → κ} {k : κ} {x : α} :
    ∀ {rows : List α} {i : Nat} (hi : i < rows.length), key x = key rows[i] → key rows[i] ≠ k →
      findKey key k (rows.set i x) = findKey key k rows
  | [], _, hi, _, _ => absurd hi (Nat.not_lt_zero _)
  | r0 :: rs, 0, _, hx, hk => by
    simp only [List.getElem_cons_zero] at hx hk
    simp [findKey, hx, hk]
  | r0 :: rs, i + 1, hi, hx, hk => by
    simp only [List.getElem_cons_succ] at hx hk
    simp [findKey, findKey_set_of_ne (by simpa using hi) hx hk]

theorem findKey_set_of_key {key : α → κ} {k : κ} {x : α} :
    ∀ {rows : List α} {i : Nat} (hi : i < rows.length), key x = key rows[i] →
      findKey key k (rows.set i x) = (findKey key k rows).map fun p => if p.1 = i then (i, x) else p
  | [], _, hi, _ => absurd hi (Nat.not_lt_zero _)
  | r0 :: rs, 0, _, hx => by
    simp only [List.getElem_cons_zero] at hx
    by_cases hk : key r0 = k
    · simp [findKey, hx, hk]
    · simp [findKey, hx, hk, Option.map_map, Function.comp_def]
  | r0 :: rs, i + 1, hi, hx => by
    simp only [List.getElem_cons_succ] at hx
    by_cases hk : key r0 = k
    · simp [findKey, hk]
    · simp [findKey, hk, findKey_set_of_key (by simpa using hi) hx, Option.map_map, Function.comp_def,
        apply_ite (fun p : Nat × α => (p.1 + 1, p.2))]

theorem findKey_append_of_none {key : α → κ} {k : κ} {x : α} (hx : key x = k) :
    ∀ {rows : List α}, findKey key k rows = none → findKey key k (rows ++ [x]) = some (rows.length, x)
  | [], _ => by simp [findKey, hx]
  | r0 :: rs, h => by
    unfold findKey at h
    split at h
    · cases h
    · next hk =>
      simp [findKey, hk, findKey_append_of_none hx (Option.map_eq_none_iff.mp h)]

theorem map_set_of_key {key : α → κ} {rows : List α} {i : Nat} {x : α} (hi : i < rows.length)
    (hx : key x = key rows[i]) : (rows.set i x).map key = rows.map key := by
  have hself := List.set_getElem_self (by simpa using hi : i < (rows.map key).length)
  rw [List.getElem_map] at hself
  rw [List.map_set, hx, hself]

theorem map_set_of_image {g : α → κ} {rows : List α} {i : Nat} {r x : α} (hi : rows[i]? = some r)
    (hx : g x = g r) : (rows.set i x).map g = rows.map g := by
  obtain ⟨hlt, rfl⟩ := List.getElem?_eq_some_iff.mp hi
  exact map_set_of_key hlt hx

theorem map_modify_of_image {g : α → κ} {f : α → α} (hf : ∀ x, g (f x) = g x) (rows : List α)
    (i : Nat) : (rows.modify i f).map g = rows.map g := by
  apply List.ext_getElem (by simp)
  intro j _ _
  simp only [List.getElem_map, List.getElem_modify]
  split
  · exact hf _
  · rfl

theorem modify_eq_set_of_get {rows : List α} {i : Nat} {r : α} (f : α → α) (hi : rows[i]? = some r) :
    rows.modify i f = rows.set i (f r) := by
  rw [List.modify_eq_set_getElem?, hi]
  rfl

theorem perm_insertByPk (pk : α → Nat) (row : α) :
    ∀ rows : List α, (insertByPk pk row rows).Perm (row :: rows)
  | [] => .refl _
  | r :: rs => by
    unfold insertByPk
    split
    · exact .refl _
    · exact ((perm_insertByPk pk row rs).cons r).trans (.swap row r rs)

section Sums
variable {β : Type*} [AddCommGroup β] (g : α → β)

theorem sum_map_set :
    ∀ (rows : List α) (i : Nat) (x : α) (h : i < rows.length),
      ((rows.set i x).map g).sum = (rows.map g).sum - g rows[i] + g x
  | [], _, _, h => absurd h (Nat.not_lt_zero _)
  | r :: rs, 0, x, _ => by
    simp only [List.set_cons_zero, List.map_cons, List.sum_cons, List.getElem_cons_zero]
    abel
  | r :: rs, i + 1, x, h => by
    have ih := sum_map_set rs i x (by simpa using h)
    simp only [List.set_cons_succ, List.map_cons, List.sum_cons, List.getElem_cons_succ, ih]
    abel

theorem sum_map_eraseIdx :
    ∀ (rows : List α) (i : Nat) (h : i < rows.length),
      ((rows.eraseIdx i).map g).sum = (rows.map g).sum - g rows[i]
  | [], _, h => absurd h (Nat.not_lt_zero _)
  | r :: rs, 0, _ => by
    simp only [List.eraseIdx_cons_zero, List.map_cons, List.sum_cons, List.getElem_cons_zero]
    abel
  | r :: rs, i + 1, h => by
    have ih := sum_map_eraseIdx rs i (by simpa using h)
    simp only [List.eraseIdx_cons_succ, List.map_cons, List.sum_cons, List.getElem_cons_succ, ih]
    abel

theorem sum_map_insertByPk (pk : α → Nat) (row : α) (rows : List α) :
    ((insertByPk pk row rows).map g).sum = g row + (rows.map g).sum := by
  rw [((perm_insertByPk pk row rows).map g).sum_eq, List.map_cons, List.sum_cons]

end Sums

section SumBy
variable (key : α → κ) (val : α → Int)

/-- the sum of `val` over the rows of key `k`: what a table keyed by `key` holds for `k` -/
def sumBy (k : κ) (rows : List α) : Int := (rows.map fun r => if key r = k then val r else 0).sum

variable {key val} {k : κ} {rows : List α}

@[simp] theorem sumBy_nil : sumBy key val k [] = 0 := rfl

theorem sumBy_append (x : α) :
    sumBy key val k (rows ++ [x]) = sumBy key val k rows + if key x = k then val x else 0 := by
  simp [sumBy]

theorem sumBy_set {i : Nat} {r : α} (hi : rows[i]? = some r) (x : α) :
    sumBy key val k (rows.set i x) =
      sumBy key val k rows - (if key r = k then val r else 0) + if key x = k then val x else 0 := by
  obtain ⟨hlt, rfl⟩ := List.getElem?_eq_some_iff.mp hi
  exact sum_map_set _ rows i x hlt

theorem sumBy_eraseIdx {i : Nat} {r : α} (hi : rows[i]? = some r) :
    sumBy key val k (rows.eraseIdx i) = sumBy key val k rows - if key r = k then val r else 0 := by
  obtain ⟨hlt, rfl⟩ := List.getElem?_eq_some_iff.mp hi
  exact sum_map_eraseIdx _ rows i hlt

theorem sumBy_eq_zero (h : ∀ r ∈ rows, key r ≠ k) : sumBy key val k rows = 0 := by
  unfold sumBy
  rw [List.map_congr_left fun r hr => if_neg (h r hr)]
  simp

theorem sumBy_of_nodup :
    ∀ {rows : List α}, (rows.map key).Nodup → ∀ {r : α}, r ∈ rows → sumBy key val (key r) rows = val r
  | [], _, _, hr => nomatch hr
  | r0 :: rs, hnodup, r, hr => by
    rw [List.map_cons, List.nodup_cons] at hnodup
    simp only [sumBy, List.map_cons, List.sum_cons]
    rcases List.mem_cons.mp hr with rfl | hr
    · -- no other row has the key of the head
      have hrest : sumBy key val (key r) rs = 0 :=
        sumBy_eq_zero fun x hx hk => hnodup.1 (hk ▸ List.mem_map_of_mem hx)
      rw [if_pos rfl]
      unfold sumBy at hrest
      omega
    · have hne : key r0 ≠ key r := fun hk => hnodup.1 (hk ▸ List.mem_map_of_mem hr)
      have ih : sumBy key val (key r) rs = val r := sumBy_of_nodup hnodup.2 hr
      unfold sumBy at ih
      rw [if_neg hne, ih, Int.zero_add]

theorem findKey_val_eq_sumBy (hnodup : (rows.map key).Nodup) :
    (match findKey key k rows with
      | some (_, r) => val r
      | none => 0) = sumBy key val k rows := by
  split
  · next i r hfind =>
    obtain ⟨hi, rfl⟩ := findKey_get hfind
    exact (sumBy_of_nodup hnodup (List.mem_of_getElem? hi)).symm
  · next hfind =>
    exact (sumBy_eq_zero (findKey_eq_none hfind)).symm

end SumBy

end

end Table
