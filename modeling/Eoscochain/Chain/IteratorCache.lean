import Eoscochain.Lib.Assert
import Eoscochain.Lib.AssocList

/-!
# The iterator cache of an action

libraries/chain apply_context.hpp, `apply_context::iterator_cache<T>`: the integers a contract
holds, during one action, for the rows and the tables of one index.  A row's iterator is its
place in `_iterator_to_object`, a table's end iterator is `-(index + 2)` for its place in
`_end_iterator_to_table`, and `-1` stands for no table.  A pointer is modelled by what it points
to: a table by its id, a row by its identity `ρ`.

* `cacheTable`, `getTable`, `getEndIteratorByTableId`, `findTableByEndIterator`, `get`,
  `remove`, `add`        the methods;
* `denote c it`          what the integer `it` stands for: the end of a table, a row, or nothing;
* `CacheInv c tableOf`   each map inverts its vector, and the table of every cached row has an
                         end iterator;
* `denote_cacheTable_self`, `denote_add_self`   the iterator a method returns stands for the table
                         or the row it was given;
* `denote_cacheTable`, `denote_add`, `denote_remove`   every other iterator keeps what it stands
                         for; `remove` frees its own;
* `denote_inj`, `WellNumbered`   one iterator for each row and each table, table ends below `-1`
                         and rows from `0`.
-/

set_option linter.unusedSectionVars false

namespace Eos.ApplyContext

open Machine AssocList

/-- what an iterator stands for -/
inductive Target (ρ : Type) where
  /-- the end of the table with this id -/
  | endOf (tId : Nat)
  | row (r : ρ)
  deriving DecidableEq, Repr

/-- `apply_context::iterator_cache<T>` -/
structure IteratorCache (ρ : Type) where
  /-- `_table_cache`: a table's id and its end iterator -/
  tableCache : List (Nat × Int) := []
  /-- `_end_iterator_to_table` -/
  endIteratorToTable : List Nat := []
  /-- `_iterator_to_object`; `none` is the `nullptr` that `remove` leaves -/
  iteratorToObject : List (Option ρ) := []
  /-- `_object_to_iterator` -/
  objectToIterator : List (ρ × Nat) := []
  deriving DecidableEq, Repr

/-- `end_iterator_to_index` -/
def endIteratorToIndex (ei : Int) : Nat := (-ei - 2).toNat

/-- `index_to_end_iterator` -/
def indexToEndIterator (indx : Nat) : Int := -((indx : Int) + 2)

theorem indexToEndIterator_lt (indx : Nat) : indexToEndIterator indx < -1 := by
  unfold indexToEndIterator
  omega

@[simp] theorem endIteratorToIndex_indexToEndIterator (indx : Nat) :
    endIteratorToIndex (indexToEndIterator indx) = indx := by
  unfold endIteratorToIndex indexToEndIterator
  omega

theorem indexToEndIterator_endIteratorToIndex {ei : Int} (h : ei < -1) :
    indexToEndIterator (endIteratorToIndex ei) = ei := by
  unfold endIteratorToIndex indexToEndIterator
  omega

theorem indexToEndIterator_injective : Function.Injective indexToEndIterator := by
  intro i j h
  unfold indexToEndIterator at h
  omega

namespace IteratorCache
variable {ρ : Type} [DecidableEq ρ]

/-- `cache_table`: the end iterator of the table, handed out the first time -/
def cacheTable (c : IteratorCache ρ) (tobj : Nat) : IteratorCache ρ × Int :=
  match c.tableCache.lookup tobj with
  | some ei => (c, ei)
  | none =>
    let ei := indexToEndIterator c.endIteratorToTable.length
    ({ c with endIteratorToTable := c.endIteratorToTable ++ [tobj],
              tableCache := emplace c.tableCache tobj ei }, ei)

/-- `get_table`: the table, which the caller then reads by its id -/
def getTable (c : IteratorCache ρ) (i : Nat) : Except String Nat :=
  match c.tableCache.lookup i with
  | some _ => pure i
  | none => throw "an invariant was broken, table should be in cache"

/-- `get_end_iterator_by_table_id` -/
def getEndIteratorByTableId (c : IteratorCache ρ) (i : Nat) : Except String Int :=
  match c.tableCache.lookup i with
  | some ei => pure ei
  | none => throw "an invariant was broken, table should be in cache"

/-- `find_table_by_end_iterator`; `none` is the `nullptr` past the end of the vector -/
def findTableByEndIterator (c : IteratorCache ρ) (ei : Int) : Except String (Option Nat) := do
  assert (decide (ei < -1)) "not an end iterator"
  pure c.endIteratorToTable[endIteratorToIndex ei]?

/-- `get` -/
def get (c : IteratorCache ρ) (iterator : Int) : Except String ρ := do
  assert (iterator != -1) "invalid iterator"
  assert (decide (iterator ≥ 0)) "dereference of end iterator"
  assert (decide (iterator < c.iteratorToObject.length)) "iterator out of range"
  match c.iteratorToObject[iterator.toNat]? with
  | some (some result) => pure result
  | _ => throw "dereference of deleted object"

/-- `remove` -/
def remove (c : IteratorCache ρ) (iterator : Int) : Except String (IteratorCache ρ) := do
  assert (iterator != -1) "invalid iterator"
  assert (decide (iterator ≥ 0)) "cannot call remove on end iterators"
  assert (decide (iterator < c.iteratorToObject.length)) "iterator out of range"
  match c.iteratorToObject[iterator.toNat]? with
  | some (some objPtr) =>
    pure { c with iteratorToObject := c.iteratorToObject.set iterator.toNat none,
                  objectToIterator := erase c.objectToIterator objPtr }
  | _ => pure c

/-- `add`: the row's iterator, handed out the first time; the row has no entry in
`_object_to_iterator` when one is made, so the assignment is an `emplace` -/
def add (c : IteratorCache ρ) (obj : ρ) : IteratorCache ρ × Int :=
  match c.objectToIterator.lookup obj with
  | some i => (c, (i : Int))
  | none =>
    ({ c with iteratorToObject := c.iteratorToObject ++ [some obj],
              objectToIterator := emplace c.objectToIterator obj c.iteratorToObject.length },
      (c.iteratorToObject.length : Int))

/-- what the iterator `it` stands for -/
def denote (c : IteratorCache ρ) (it : Int) : Option (Target ρ) :=
  if it < -1 then c.endIteratorToTable[endIteratorToIndex it]?.map .endOf
  else if it = -1 then none
  else (c.iteratorToObject[it.toNat]?).join.map .row

/-- the cache of an action: each map inverts its vector, and every cached row has the end
iterator of its table -/
structure CacheInv (c : IteratorCache ρ) (tableOf : ρ → Nat) : Prop where
  tables : Inverts c.tableCache c.endIteratorToTable id indexToEndIterator
  objects : Inverts c.objectToIterator c.iteratorToObject some id
  cached : ∀ r, some r ∈ c.iteratorToObject → tableOf r ∈ c.endIteratorToTable

variable {c c' : IteratorCache ρ} {tableOf : ρ → Nat} {it it' : Int} {x : Target ρ}

theorem cacheInv_empty : CacheInv ({} : IteratorCache ρ) tableOf := by
  refine ⟨fun _ _ => ?_, fun _ _ => ?_, fun _ h => absurd h List.not_mem_nil⟩ <;> simp

/-! ## What an iterator stands for -/

theorem denote_endIterator (indx : Nat) :
    c.denote (indexToEndIterator indx) = c.endIteratorToTable[indx]?.map .endOf := by
  rw [denote, if_pos (indexToEndIterator_lt indx), endIteratorToIndex_indexToEndIterator]

theorem denote_natCast (n : Nat) : c.denote n = (c.iteratorToObject[n]?).join.map .row := by
  rw [denote, if_neg (by omega), if_neg (by omega), Int.toNat_natCast]

theorem denote_eq_endOf {t : Nat} :
    c.denote it = some (.endOf t) ↔
      ∃ indx, it = indexToEndIterator indx ∧ c.endIteratorToTable[indx]? = some t := by
  constructor
  · intro h
    unfold denote at h
    split at h
    · next hlt =>
      obtain ⟨t', ht', he⟩ := Option.map_eq_some_iff.mp h
      cases he
      exact ⟨_, (indexToEndIterator_endIteratorToIndex hlt).symm, ht'⟩
    · split at h
      · cases h
      · obtain ⟨_, -, he⟩ := Option.map_eq_some_iff.mp h
        cases he
  · rintro ⟨indx, rfl, ht⟩
    rw [denote_endIterator, ht]
    rfl

theorem denote_eq_row {r : ρ} :
    c.denote it = some (.row r) ↔ ∃ n : Nat, it = n ∧ c.iteratorToObject[n]? = some (some r) := by
  constructor
  · intro h
    unfold denote at h
    split at h
    · obtain ⟨_, -, he⟩ := Option.map_eq_some_iff.mp h
      cases he
    · split at h
      · cases h
      · next hlt hne =>
        obtain ⟨r', hr', he⟩ := Option.map_eq_some_iff.mp h
        cases he
        exact ⟨it.toNat, by omega, Option.join_eq_some_iff.mp hr'⟩
  · rintro ⟨n, rfl, hn⟩
    rw [denote_natCast, hn]
    rfl

/-- **One iterator for each row and each table** -/
theorem denote_inj (h : CacheInv c tableOf) (hit : c.denote it = some x)
    (hit' : c.denote it' = some x) : it = it' := by
  cases x with
  | endOf t =>
    obtain ⟨i, rfl, hi⟩ := denote_eq_endOf.mp hit
    obtain ⟨j, rfl, hj⟩ := denote_eq_endOf.mp hit'
    rw [h.tables.index_unique indexToEndIterator_injective (k := t) hi hj]
  | row r =>
    obtain ⟨i, rfl, hi⟩ := denote_eq_row.mp hit
    obtain ⟨j, rfl, hj⟩ := denote_eq_row.mp hit'
    rw [h.objects.index_unique Function.injective_id (k := r) hi hj]

/-- the numbering of a cache: one integer for each row and each table end, a table end at
`-(index + 2)` and a row at its place from `0` -/
def WellNumbered (c : IteratorCache ρ) : Prop :=
  (∀ it it' x, c.denote it = some x → c.denote it' = some x → it = it') ∧
    (∀ it t, c.denote it = some (.endOf t) → ∃ k : Nat, it = -((k : Int) + 2)) ∧
    ∀ it r, c.denote it = some (.row r) → ∃ k : Nat, it = k

theorem CacheInv.wellNumbered (h : CacheInv c tableOf) : WellNumbered c := by
  refine ⟨fun _ _ _ hit hit' => denote_inj h hit hit', fun _ _ hit => ?_, fun _ _ hit => ?_⟩
  · obtain ⟨k, rfl, -⟩ := denote_eq_endOf.mp hit
    exact ⟨k, rfl⟩
  · obtain ⟨k, rfl, -⟩ := denote_eq_row.mp hit
    exact ⟨k, rfl⟩

/-! ## The methods -/

theorem get_eq_ok {r : ρ} : c.get it = .ok r ↔ c.denote it = some (.row r) := by
  rw [denote_eq_row]
  unfold get
  constructor
  · intro h
    obtain ⟨hne, h⟩ := assert_bind_eq_ok.mp h
    obtain ⟨hge, h⟩ := assert_bind_eq_ok.mp h
    obtain ⟨-, h⟩ := assert_bind_eq_ok.mp h
    have hge : 0 ≤ it := of_decide_eq_true hge
    refine ⟨it.toNat, by omega, ?_⟩
    split at h
    · next result hres =>
      cases h
      exact hres
    · cases h
  · rintro ⟨n, rfl, hn⟩
    have hlt : n < c.iteratorToObject.length := (List.getElem?_eq_some_iff.mp hn).1
    rw [assert_of_true _ (by simp), ok_bind, assert_of_true _ (by simp), ok_bind,
      assert_of_true _ (by simpa using hlt), ok_bind, Int.toNat_natCast, hn]
    rfl

theorem findTableByEndIterator_of_lt (hlt : it < -1) :
    c.findTableByEndIterator it = .ok (c.endIteratorToTable[endIteratorToIndex it]?) := by
  rw [findTableByEndIterator, assert_of_true _ (decide_eq_true hlt), ok_bind]
  rfl

theorem findTableByEndIterator_denote (hlt : it < -1) :
    (c.endIteratorToTable[endIteratorToIndex it]?).map .endOf = c.denote it := by
  rw [denote, if_pos hlt]

theorem getEndIteratorByTableId_of_mem (h : CacheInv c tableOf) {t : Nat}
    (ht : t ∈ c.endIteratorToTable) :
    ∃ ei, c.getEndIteratorByTableId t = .ok ei ∧ c.denote ei = some (.endOf t) := by
  obtain ⟨indx, hindx⟩ := List.mem_iff_getElem?.mp ht
  refine ⟨indexToEndIterator indx, ?_, by rw [denote_endIterator, hindx]; rfl⟩
  rw [getEndIteratorByTableId, h.tables.lookup_of_getElem? (k := t) hindx]
  rfl

theorem getTable_of_mem (h : CacheInv c tableOf) {t : Nat} (ht : t ∈ c.endIteratorToTable) :
    c.getTable t = .ok t := by
  obtain ⟨indx, hindx⟩ := List.mem_iff_getElem?.mp ht
  rw [getTable, h.tables.lookup_of_getElem? (k := t) hindx]
  rfl

section CacheTable
variable (t : Nat)

theorem cacheTable_of_lookup_eq_none (hnone : c.tableCache.lookup t = none) :
    c.cacheTable t =
      ({ c with endIteratorToTable := c.endIteratorToTable ++ [t],
                tableCache := emplace c.tableCache t (indexToEndIterator c.endIteratorToTable.length) },
        indexToEndIterator c.endIteratorToTable.length) := by
  rw [cacheTable, hnone]

theorem cacheTable_of_lookup_eq_some {ei : Int} (hsome : c.tableCache.lookup t = some ei) :
    c.cacheTable t = (c, ei) := by
  rw [cacheTable, hsome]

@[simp] theorem iteratorToObject_cacheTable :
    (c.cacheTable t).1.iteratorToObject = c.iteratorToObject := by
  unfold cacheTable
  split <;> rfl

@[simp] theorem objectToIterator_cacheTable :
    (c.cacheTable t).1.objectToIterator = c.objectToIterator := by
  unfold cacheTable
  split <;> rfl

theorem endIteratorToTable_cacheTable :
    ∃ l, (c.cacheTable t).1.endIteratorToTable = c.endIteratorToTable ++ l := by
  unfold cacheTable
  split
  · exact ⟨[], (List.append_nil _).symm⟩
  · exact ⟨[t], rfl⟩

theorem denote_cacheTable (hit : c.denote it = some x) : (c.cacheTable t).1.denote it = some x := by
  obtain ⟨l, hl⟩ := endIteratorToTable_cacheTable (c := c) t
  cases x with
  | endOf t' =>
    obtain ⟨indx, rfl, hindx⟩ := denote_eq_endOf.mp hit
    rw [denote_endIterator, hl, List.getElem?_append_left (List.getElem?_eq_some_iff.mp hindx).1,
      hindx]
    rfl
  | row r =>
    obtain ⟨n, rfl, hn⟩ := denote_eq_row.mp hit
    rw [denote_natCast, iteratorToObject_cacheTable, hn]
    rfl

theorem denote_cacheTable_self (h : CacheInv c tableOf) :
    (c.cacheTable t).1.denote (c.cacheTable t).2 = some (.endOf t) := by
  cases hlook : c.tableCache.lookup t with
  | some ei =>
    rw [cacheTable_of_lookup_eq_some t hlook]
    obtain ⟨indx, hindx, rfl⟩ := (h.tables t ei).mp hlook
    rw [denote_endIterator, hindx]
    rfl
  | none =>
    rw [cacheTable_of_lookup_eq_none t hlook, denote_endIterator]
    simp

theorem mem_cacheTable (h : CacheInv c tableOf) : t ∈ (c.cacheTable t).1.endIteratorToTable := by
  obtain ⟨indx, -, hindx⟩ := denote_eq_endOf.mp (denote_cacheTable_self t h)
  exact List.mem_of_getElem? hindx

theorem cacheInv_cacheTable (h : CacheInv c tableOf) : CacheInv (c.cacheTable t).1 tableOf := by
  cases hlook : c.tableCache.lookup t with
  | some ei =>
    rw [cacheTable_of_lookup_eq_some t hlook]
    exact h
  | none =>
    rw [cacheTable_of_lookup_eq_none t hlook]
    exact ⟨h.tables.concat Function.injective_id hlook, h.objects,
      fun r hr => List.mem_append_left _ (h.cached r hr)⟩

theorem cacheTable_cacheTable : (c.cacheTable t).1.cacheTable t = c.cacheTable t := by
  cases hlook : c.tableCache.lookup t with
  | some ei =>
    rw [cacheTable_of_lookup_eq_some t hlook, cacheTable_of_lookup_eq_some t hlook]
  | none =>
    rw [cacheTable_of_lookup_eq_none t hlook]
    refine cacheTable_of_lookup_eq_some t ?_
    simp [emplace_of_lookup_eq_none _ hlook, lookup_concat, hlook]

end CacheTable

section Add
variable (r : ρ)

theorem add_of_lookup_eq_none (hnone : c.objectToIterator.lookup r = none) :
    c.add r =
      ({ c with iteratorToObject := c.iteratorToObject ++ [some r],
                objectToIterator := emplace c.objectToIterator r c.iteratorToObject.length },
        (c.iteratorToObject.length : Int)) := by
  rw [add, hnone]

theorem add_of_lookup_eq_some {i : Nat} (hsome : c.objectToIterator.lookup r = some i) :
    c.add r = (c, (i : Int)) := by
  rw [add, hsome]

@[simp] theorem endIteratorToTable_add : (c.add r).1.endIteratorToTable = c.endIteratorToTable := by
  unfold add
  split <;> rfl

@[simp] theorem tableCache_add : (c.add r).1.tableCache = c.tableCache := by
  unfold add
  split <;> rfl

theorem iteratorToObject_add :
    ∃ l, (c.add r).1.iteratorToObject = c.iteratorToObject ++ l ∧ ∀ o ∈ l, o = some r := by
  unfold add
  split
  · exact ⟨[], (List.append_nil _).symm, fun _ h => absurd h List.not_mem_nil⟩
  · exact ⟨[some r], rfl, fun _ h => List.mem_singleton.mp h⟩

theorem mem_add {r' : ρ} (hr' : some r' ∈ (c.add r).1.iteratorToObject) :
    some r' ∈ c.iteratorToObject ∨ r' = r := by
  obtain ⟨l, hl, hlr⟩ := iteratorToObject_add (c := c) r
  rw [hl] at hr'
  rcases List.mem_append.mp hr' with h | h
  · exact Or.inl h
  · exact Or.inr (Option.some.inj (hlr _ h))

theorem denote_add (hit : c.denote it = some x) : (c.add r).1.denote it = some x := by
  obtain ⟨l, hl, -⟩ := iteratorToObject_add (c := c) r
  cases x with
  | endOf t' =>
    obtain ⟨indx, rfl, hindx⟩ := denote_eq_endOf.mp hit
    rw [denote_endIterator, endIteratorToTable_add, hindx]
    rfl
  | row r' =>
    obtain ⟨n, rfl, hn⟩ := denote_eq_row.mp hit
    rw [denote_natCast, hl, List.getElem?_append_left (List.getElem?_eq_some_iff.mp hn).1, hn]
    rfl

theorem denote_add_self (h : CacheInv c tableOf) : (c.add r).1.denote (c.add r).2 = some (.row r) := by
  cases hlook : c.objectToIterator.lookup r with
  | some i =>
    rw [add_of_lookup_eq_some r hlook]
    obtain ⟨n, hn, rfl⟩ := (h.objects r i).mp hlook
    rw [denote_natCast, hn]
    rfl
  | none =>
    rw [add_of_lookup_eq_none r hlook, denote_natCast]
    simp

theorem cacheInv_add (h : CacheInv c tableOf) (hr : tableOf r ∈ c.endIteratorToTable) :
    CacheInv (c.add r).1 tableOf := by
  cases hlook : c.objectToIterator.lookup r with
  | some i =>
    rw [add_of_lookup_eq_some r hlook]
    exact h
  | none =>
    rw [add_of_lookup_eq_none r hlook]
    refine ⟨h.tables, h.objects.concat (fun _ _ => Option.some.inj) hlook, fun r' hr' => ?_⟩
    rcases List.mem_append.mp hr' with hr' | hr'
    · exact h.cached r' hr'
    · rw [Option.some.inj (List.mem_singleton.mp hr')]
      exact hr

end Add

section Remove

theorem remove_eq_ok (hrm : c.remove it = .ok c') :
    ∃ n : Nat, it = n ∧
      ((∃ r, c.iteratorToObject[n]? = some (some r) ∧
          c' = { c with iteratorToObject := c.iteratorToObject.set n none,
                        objectToIterator := erase c.objectToIterator r }) ∨
        (c.iteratorToObject[n]? = some none ∧ c' = c)) := by
  unfold remove at hrm
  obtain ⟨-, hrm⟩ := assert_bind_eq_ok.mp hrm
  obtain ⟨hge, hrm⟩ := assert_bind_eq_ok.mp hrm
  obtain ⟨hlt, hrm⟩ := assert_bind_eq_ok.mp hrm
  have hge : 0 ≤ it := of_decide_eq_true hge
  have hlt : it.toNat < c.iteratorToObject.length := by
    have := of_decide_eq_true hlt
    omega
  refine ⟨it.toNat, by omega, ?_⟩
  split at hrm
  · next objPtr hobj =>
    cases hrm
    exact Or.inl ⟨objPtr, hobj, rfl⟩
  · next hnot =>
    cases hrm
    refine Or.inr ⟨?_, rfl⟩
    rw [List.getElem?_eq_getElem hlt] at hnot ⊢
    cases hentry : c.iteratorToObject[it.toNat] with
    | none => rfl
    | some r => exact absurd (by rw [hentry]) (hnot r)

theorem denote_remove (hrm : c.remove it = .ok c') (hne : it' ≠ it) : c'.denote it' = c.denote it' := by
  obtain ⟨n, rfl, ⟨r, -, rfl⟩ | ⟨-, rfl⟩⟩ := remove_eq_ok hrm
  · unfold denote
    split
    · rfl
    · split
      · rfl
      · dsimp only
        rw [List.getElem?_set_ne (by omega)]
  · rfl

theorem denote_remove_self (hrm : c.remove it = .ok c') : c'.denote it = none := by
  obtain ⟨n, rfl, ⟨r, hr, rfl⟩ | ⟨hn, rfl⟩⟩ := remove_eq_ok hrm
  · rw [denote_natCast, List.getElem?_set_self (List.getElem?_eq_some_iff.mp hr).1]
    rfl
  · rw [denote_natCast, hn]
    rfl

@[simp] theorem endIteratorToTable_remove (hrm : c.remove it = .ok c') :
    c'.endIteratorToTable = c.endIteratorToTable := by
  obtain ⟨n, rfl, ⟨r, -, rfl⟩ | ⟨-, rfl⟩⟩ := remove_eq_ok hrm <;> rfl

theorem cacheInv_remove (h : CacheInv c tableOf) (hrm : c.remove it = .ok c') : CacheInv c' tableOf := by
  obtain ⟨n, rfl, ⟨r, hr, rfl⟩ | ⟨-, rfl⟩⟩ := remove_eq_ok hrm
  · refine ⟨h.tables, h.objects.set Function.injective_id (fun _ _ => Option.some.inj) hr
      (fun _ h => by cases h), fun r' hr' => h.cached r' ?_⟩
    obtain ⟨j, hj⟩ := List.mem_iff_getElem?.mp hr'
    rw [List.getElem?_set] at hj
    split at hj
    · split at hj <;> cases hj
    · exact List.mem_of_getElem? hj
  · exact h

theorem mem_remove (h : CacheInv c tableOf) (hrm : c.remove it = .ok c') {r r' : ρ}
    (hget : c.get it = .ok r) (hr' : some r' ∈ c'.iteratorToObject) :
    some r' ∈ c.iteratorToObject ∧ r' ≠ r := by
  obtain ⟨n, rfl, hn⟩ := denote_eq_row.mp (get_eq_ok.mp hget)
  obtain ⟨m, hm, ⟨r0, hr0, rfl⟩ | ⟨hnone, rfl⟩⟩ := remove_eq_ok hrm
  · have hmn : m = n := by omega
    subst hmn
    obtain ⟨j, hj⟩ := List.mem_iff_getElem?.mp hr'
    rw [List.getElem?_set] at hj
    split at hj
    · split at hj <;> cases hj
    · next hmj =>
      refine ⟨List.mem_of_getElem? hj, fun hrr => hmj ?_⟩
      subst hrr
      rw [hn] at hr0
      cases hr0
      exact h.objects.index_unique Function.injective_id (k := r') hn hj
  · have hmn : m = n := by omega
    subst hmn
    rw [hn] at hnone
    cases hnone

end Remove

end IteratorCache

end Eos.ApplyContext
