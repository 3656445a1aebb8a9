import Mathlib.Data.List.Nodup

/-!
# Maps as association lists

An ordered map whose keys are only ever added (a `std::map` filled with `emplace`) as the list of
its entries in the order they were added.  `List.lookup` finds the entry of a key.

* `emplace m k v`          adds the entry unless the key has one;
* `emplace_of_lookup_eq_none`, `emplace_of_lookup_isSome`   the two cases;
* `lookup_concat`          the lookup after an entry is added at the end;
* `lookup_eq_some_of_mem`, `mem_of_lookup_eq_some`, `lookup_eq_none_of_not_mem`   lookup and
                           membership, for keys that are pairwise distinct;
* `erase m k`, `lookup_erase`   `std::map::erase`;
* `assign m k v`, `lookup_assign`   `map[k] = v` on a `flat_map`;
* `Inverts m l enc f`      a map kept as the inverse of a vector (an index from values to their
                           places), with `Inverts.concat` for a value pushed on the vector and
                           `Inverts.set` for a place cleared.
-/

set_option linter.unusedSectionVars false

namespace AssocList

section
variable {α β : Type} [BEq α] [LawfulBEq α]

/-- `std::map::emplace`: a key already present keeps its value -/
def emplace (m : List (α × β)) (k : α) (v : β) : List (α × β) :=
  if (m.lookup k).isSome then m else m ++ [(k, v)]

theorem emplace_of_lookup_eq_none {m : List (α × β)} {k : α} (v : β) (h : m.lookup k = none) :
    emplace m k v = m ++ [(k, v)] := by
  rw [emplace, h]
  rfl

theorem emplace_of_lookup_isSome {m : List (α × β)} {k : α} (v : β) (h : (m.lookup k).isSome) :
    emplace m k v = m := by
  rw [emplace, if_pos h]

theorem lookup_concat (m : List (α × β)) (a k : α) (v : β) :
    (m ++ [(k, v)]).lookup a = (m.lookup a).or (if (a == k) = true then some v else none) := by
  rw [List.lookup_append, List.lookup_cons]
  cases a == k <;> rfl

theorem mem_of_lookup_eq_some : ∀ {m : List (α × β)} {a : α} {b : β}, m.lookup a = some b → (a, b) ∈ m
  | [], _, _, h => by cases h
  | (k, v) :: m, a, b, h => by
    rw [List.lookup_cons] at h
    by_cases hak : a = k
    · subst hak
      simp only [beq_self_eq_true, Option.some.injEq] at h
      subst h
      exact List.mem_cons_self
    · rw [show (a == k) = false from beq_false_of_ne hak] at h
      exact List.mem_cons_of_mem _ (mem_of_lookup_eq_some h)

theorem lookup_eq_some_of_mem : ∀ {m : List (α × β)} {a : α} {b : β}, (m.map Prod.fst).Nodup →
    (a, b) ∈ m → m.lookup a = some b
  | [], _, _, _, h => absurd h List.not_mem_nil
  | (k, v) :: m, a, b, hnd, h => by
    rw [List.map_cons, List.nodup_cons] at hnd
    rw [List.lookup_cons]
    rcases List.mem_cons.mp h with h | h
    · cases h
      simp
    · -- a key further on is not the first key
      have hmem : a ∈ m.map Prod.fst := List.mem_map_of_mem (f := Prod.fst) h
      have hak : a ≠ k := fun hak => hnd.1 (hak ▸ hmem)
      rw [show (a == k) = false from beq_false_of_ne hak]
      exact lookup_eq_some_of_mem hnd.2 h

theorem lookup_eq_none_of_not_mem {m : List (α × β)} {a : α} (h : a ∉ m.map Prod.fst) :
    m.lookup a = none := by
  rw [List.lookup_eq_none_iff]
  intro p hp
  rw [bne_iff_ne]
  rintro rfl
  exact h (List.mem_map_of_mem hp)

/-- `std::map::erase` -/
def erase (m : List (α × β)) (k : α) : List (α × β) := m.filter fun e => e.1 != k

theorem lookup_erase (m : List (α × β)) (k a : α) :
    (erase m k).lookup a = if a == k then none else m.lookup a := by
  induction m with
  | nil => simp [erase]
  | cons e m ih =>
    obtain ⟨k', v⟩ := e
    simp only [erase] at ih ⊢
    by_cases hk : k' = k
    · -- the entry of `k` goes
      subst hk
      simp only [List.filter_cons, bne_self_eq_false, Bool.false_eq_true, if_false, ih,
        List.lookup_cons]
      by_cases ha : a = k'
      · simp [ha]
      · simp [beq_false_of_ne ha]
    · -- another entry stays
      simp only [List.filter_cons, bne_iff_ne, ne_eq, hk, not_false_eq_true, if_true,
        List.lookup_cons, ih]
      by_cases ha : a = k
      · subst ha
        simp [beq_false_of_ne (Ne.symm hk)]
      · simp [ha]

/-- `map[k] = v`: the entry of `k` takes the value `v`, or is added at the end when the key has none -/
def assign : List (α × β) → α → β → List (α × β)
  | [], k, v => [(k, v)]
  | (k', v') :: m, k, v => if k' == k then (k, v) :: m else (k', v') :: assign m k v

theorem lookup_assign (m : List (α × β)) (k a : α) (v : β) :
    (assign m k v).lookup a = if a == k then some v else m.lookup a := by
  induction m with
  | nil => cases hak : a == k <;> simp [assign, List.lookup_cons, hak]
  | cons e m ih =>
    obtain ⟨k', v'⟩ := e
    by_cases hk : k' = k
    · -- the entry of `k` is the one replaced
      subst hk
      by_cases ha : a = k'
      · simp [assign, ha]
      · simp [assign, List.lookup_cons, beq_false_of_ne ha]
    · simp only [assign, beq_false_of_ne hk, Bool.false_eq_true, if_false, List.lookup_cons, ih]
      by_cases ha : a = k
      · subst ha
        simp [beq_false_of_ne (Ne.symm hk)]
      · simp [beq_false_of_ne ha]

end

/-! ## A map that inverts a vector -/

theorem getElem?_concat_eq_some {γ : Type} {l : List γ} {x y : γ} {i : Nat} :
    (l ++ [x])[i]? = some y ↔ l[i]? = some y ∨ i = l.length ∧ x = y := by
  rcases Nat.lt_or_ge i l.length with hi | hi
  · rw [List.getElem?_append_left hi]
    constructor
    · exact Or.inl
    · rintro (h | ⟨rfl, -⟩)
      · exact h
      · exact absurd hi (Nat.lt_irrefl _)
  · rw [List.getElem?_append_right hi, List.getElem?_eq_none hi]
    rcases Nat.eq_or_lt_of_le hi with rfl | hlt
    · simp
    · have : [x][i - l.length]? = none := List.getElem?_eq_none (by simp; omega)
      simp [this]
      omega

section Inverse
variable {α β γ : Type} [BEq α] [LawfulBEq α]

/-- the map `m` inverts the vector `l`: the value of a key is `f i` for the place `i` where the
vector holds the key, as `enc` stores it -/
def Inverts (m : List (α × β)) (l : List γ) (enc : α → γ) (f : Nat → β) : Prop :=
  ∀ k v, m.lookup k = some v ↔ ∃ i, l[i]? = some (enc k) ∧ v = f i

variable {m : List (α × β)} {l : List γ} {enc : α → γ} {f : Nat → β}

theorem Inverts.lookup_of_getElem? (h : Inverts m l enc f) {k : α} {i : Nat}
    (hi : l[i]? = some (enc k)) : m.lookup k = some (f i) :=
  (h k (f i)).mpr ⟨i, hi, rfl⟩

theorem Inverts.lookup_eq_none (h : Inverts m l enc f) {k : α} : m.lookup k = none ↔ enc k ∉ l := by
  constructor
  · intro hk hmem
    obtain ⟨i, hi⟩ := List.mem_iff_getElem?.mp hmem
    rw [h.lookup_of_getElem? hi] at hk
    cases hk
  · intro hk
    cases hv : m.lookup k with
    | none => rfl
    | some v =>
      obtain ⟨i, hi, -⟩ := (h k v).mp hv
      exact absurd (List.mem_of_getElem? hi) hk

theorem Inverts.index_unique (h : Inverts m l enc f) (hf : Function.Injective f) {k : α} {i j : Nat}
    (hi : l[i]? = some (enc k)) (hj : l[j]? = some (enc k)) : i = j :=
  hf (Option.some.inj ((h.lookup_of_getElem? hi).symm.trans (h.lookup_of_getElem? hj)))

theorem Inverts.concat (h : Inverts m l enc f) (henc : Function.Injective enc) {k : α}
    (hk : m.lookup k = none) : Inverts (emplace m k (f l.length)) (l ++ [enc k]) enc f := by
  rw [emplace_of_lookup_eq_none _ hk]
  intro a v
  rw [lookup_concat]
  by_cases hak : a = k
  · -- the new key: its one place is the new one
    subst hak
    have hnot : enc a ∉ l := h.lookup_eq_none.mp hk
    simp only [hk, beq_self_eq_true, if_true, Option.none_or]
    constructor
    · intro hv
      cases hv
      exact ⟨l.length, List.getElem?_concat_length, rfl⟩
    · rintro ⟨i, hi, rfl⟩
      rcases getElem?_concat_eq_some.mp hi with hi | ⟨rfl, -⟩
      · exact absurd (List.mem_of_getElem? hi) hnot
      · rfl
  · -- an old key keeps its old place
    have hne : enc k ≠ enc a := fun he => hak (henc he).symm
    simp only [beq_false_of_ne hak, Bool.false_eq_true, if_false, Option.or_none, h a v]
    constructor
    · rintro ⟨i, hi, rfl⟩
      exact ⟨i, getElem?_concat_eq_some.mpr (Or.inl hi), rfl⟩
    · rintro ⟨i, hi, rfl⟩
      rcases getElem?_concat_eq_some.mp hi with hi | ⟨-, he⟩
      · exact ⟨i, hi, rfl⟩
      · exact absurd he hne

theorem Inverts.set (h : Inverts m l enc f) (hf : Function.Injective f)
    (henc : Function.Injective enc) {k : α} {i : Nat} (hi : l[i]? = some (enc k)) {x : γ}
    (hx : ∀ a, x ≠ enc a) : Inverts (erase m k) (l.set i x) enc f := by
  have hlt : i < l.length := (List.getElem?_eq_some_iff.mp hi).1
  have hself : (l.set i x)[i]? = some x := List.getElem?_set_self hlt
  intro a v
  rw [lookup_erase]
  by_cases hak : a = k
  · -- the erased key: its one place now holds `x`
    subst hak
    simp only [beq_self_eq_true, if_true, reduceCtorEq, false_iff, not_exists, not_and]
    intro j hj _
    by_cases hij : i = j
    · subst hij
      rw [hself] at hj
      exact hx a (Option.some.inj hj)
    · rw [List.getElem?_set_ne hij] at hj
      exact hij (h.index_unique hf hi hj)
  · -- another key: its place is not `i`
    have hne : enc k ≠ enc a := fun he => hak (henc he).symm
    simp only [beq_false_of_ne hak, Bool.false_eq_true, if_false, h a v]
    constructor
    · rintro ⟨j, hj, rfl⟩
      have hij : i ≠ j := by
        rintro rfl
        rw [hi] at hj
        exact hne (Option.some.inj hj)
      exact ⟨j, by rw [List.getElem?_set_ne hij]; exact hj, rfl⟩
    · rintro ⟨j, hj, rfl⟩
      have hij : i ≠ j := by
        rintro rfl
        rw [hself] at hj
        exact hx a (Option.some.inj hj)
      exact ⟨j, by rwa [List.getElem?_set_ne hij] at hj, rfl⟩

end Inverse

end AssocList
