import Eoscochain.Lib.OrderedIndex
import Eoscochain.Lib.Run
import Eoscochain.Chain.IteratorCache
import Eoscochain.Resource.Ram

/-!
# The contract database of an action

libraries/chain apply_context.cpp (`db_*_i64`) and apply_context.hpp (`generic_index`): the
calls a contract makes on the rows of tables, which name rows and tables by the integers of the
iterator caches of the action.  The rows of the primary index are the `key_value_object`s of
`Ram`, stored, updated and removed as `Ram` does it; the objects of a secondary index `i : ι`
carry a key of type `σ i` (the indices `idx64`, `idx128`, `idx256`, `idx_double` and
`idx_long_double` of the source).

Every index is searched through a composite key whose first part is the table id:
`by_scope_primary` and `by_primary` order by `(t_id, primary_key)`, `by_secondary` by
`(t_id, secondary_key, primary_key)`.  A search of one table is a search of the whole index
followed by a test of the table of the row found.

* `seek`, `seekEnd`, `seekNext`, `seekPrevious`   the bodies the calls of each index share;
* `dbFindI64` … `dbPreviousI64`, `findSecondary` … `previousPrimary`   the calls, each the body
                         of its family at its own index, bound and out-parameters;
* `Context`, `step`      the state of an action and the calls that change it;
* `DbInv`                keys unique in every index, every cache well formed over the rows that
                         are still there;
* `rowsOf`, `landing`    the ordered map of one table, and where a search of it lands;
* `Answers`              what each search returns, stated on that map;
* `Keeps`                what a call leaves of the iterators handed out before it.
-/

set_option linter.unusedSectionVars false

namespace Eos.ApplyContext

open Machine Table Codec Resource Ram OrderedIndex IteratorCache

/-- `apply_context::find_table` -/
def findTable (st : RamState) (code scope table : Nat) : Option TableIdObject :=
  (findKey TableIdObject.byCodeScopeTable (code, scope, table) st.tables).map Prod.snd

/-- the order of `by_scope_primary` -/
def keyvalKey (o : KeyValueObject) : Lex (Nat × Nat) := toLex o.byScopePrimary

/-- `secondary_index<SecondaryKey>::index_object` -/
structure IndexObject (σ : Type) where
  tId : Nat
  primaryKey : Nat
  payer : Nat
  secondaryKey : σ
  deriving DecidableEq, Repr

namespace IndexObject
variable {σ : Type}

/-- the key of `by_primary`, and the identity the iterator cache keeps of the object -/
def byPrimary (o : IndexObject σ) : Nat × Nat := (o.tId, o.primaryKey)

/-- the order of `by_primary` -/
def primaryOrder (o : IndexObject σ) : Lex (Nat × Nat) := toLex o.byPrimary

/-- the order of `by_secondary` -/
def bySecondary [LinearOrder σ] (o : IndexObject σ) : Lex (Nat × Lex (σ × Nat)) :=
  toLex (o.tId, toLex (o.secondaryKey, o.primaryKey))

end IndexObject

/-- what the database calls of one action read and write: the chain state of `Ram`, the objects
of the secondary indices, and the iterator caches `keyval_cache` and `itr_cache` of each index -/
structure Context (ι : Type) (σ : ι → Type) where
  db : RamState
  index : (i : ι) → List (IndexObject (σ i))
  keyvalCache : IteratorCache (Nat × Nat) := {}
  itrCache : ι → IteratorCache (Nat × Nat) := fun _ => {}

/-! ## The bodies the calls share -/

section Bodies
variable {ρ κ : Type} [LinearOrder κ] (ident : ρ → Nat × Nat) (key : ρ → κ)

/-- `*ptr` for the identity the cache keeps: the row of the index; the table id is the first
part of the identity -/
def deref (rows : List ρ) (objId : Nat × Nat) : Except String ρ :=
  match rows.find? (fun r => ident r = objId) with
  | some obj => pure obj
  | none => throw "dereference of deleted object"

/-- the body of `db_find_i64`, `db_lowerbound_i64`, `db_upperbound_i64` and of `find_*`,
`lowerbound_*` and `upperbound_*` of `generic_index`: the table, its end iterator, then the row
that the index's `lower_bound` or `upper_bound` from `bound` finds, if `hit` keeps it (a row of
the table, or of the key sought); the row is returned for the out-parameters -/
def seek (st : RamState) (rows : List ρ) (c : IteratorCache (Nat × Nat)) (code scope table : Nat)
    (bound hit : Nat → ρ → Bool) : IteratorCache (Nat × Nat) × Int × Option ρ :=
  match findTable st code scope table with
  | none => (c, -1, none)
  | some tab =>
    let (c, tableEndItr) := c.cacheTable tab.id
    -- `itr == idx.end()`, or a row the search does not keep
    match (first key (bound tab.id) rows).filter (hit tab.id) with
    | none => (c, tableEndItr, none)
    | some itr =>
      let (c, i) := c.add (ident itr)
      (c, i, some itr)

/-- the body of `db_end_i64` and `end_secondary` -/
def seekEnd (st : RamState) (c : IteratorCache (Nat × Nat)) (code scope table : Nat) :
    IteratorCache (Nat × Nat) × Int :=
  match findTable st code scope table with
  | none => (c, -1)
  | some tab => c.cacheTable tab.id

/-- the body of `db_next_i64`, `next_secondary` and `next_primary` -/
def seekNext (rows : List ρ) (c : IteratorCache (Nat × Nat)) (iterator : Int) :
    Except String (IteratorCache (Nat × Nat) × Int × Option ρ) := do
  -- cannot increment past end iterator of table
  if iterator < -1 then return (c, -1, none)
  let obj ← deref ident rows (← c.get iterator)
  -- `itr == idx.end() || itr->t_id != obj.t_id` after `++itr` from `obj`
  match (first key (fun r => decide (key obj < key r)) rows).filter
      (fun r => decide ((ident r).1 = (ident obj).1)) with
  | none =>
    let ei ← c.getEndIteratorByTableId (ident obj).1
    return (c, ei, none)
  | some itr =>
    let (c, i) := c.add (ident itr)
    return (c, i, some itr)

/-- the body of `db_previous_i64`, `previous_secondary` and `previous_primary` -/
def seekPrevious (rows : List ρ) (c : IteratorCache (Nat × Nat)) (iterator : Int) :
    Except String (IteratorCache (Nat × Nat) × Int × Option ρ) := do
  if iterator < -1 then
    match ← c.findTableByEndIterator iterator with
    | none => throw "not a valid end iterator"
    | some tab =>
      -- `--idx.upper_bound(tab->id)`; `none` when that is `idx.begin()` (empty table), or a row
      -- of another table
      match (last key (fun r => decide ((ident r).1 ≤ tab)) rows).filter
          (fun r => decide ((ident r).1 = tab)) with
      | none => return (c, -1, none)
      | some itr =>
        let (c, i) := c.add (ident itr)
        return (c, i, some itr)
  else
    let obj ← deref ident rows (← c.get iterator)
    -- `--idx.iterator_to(obj)`; `none` when `obj` is `idx.begin()`, or a row of another table
    match (last key (fun r => decide (key r < key obj)) rows).filter
        (fun r => decide ((ident r).1 = (ident obj).1)) with
    | none => return (c, -1, none)
    | some itr =>
      let (c, i) := c.add (ident itr)
      return (c, i, some itr)

end Bodies

/-! ## A cache over the rows of its index -/

/-- the cache of one index over the identities `ids` of its rows: well formed, and every row it
holds is still there -/
structure CacheOver (c : IteratorCache (Nat × Nat)) (ids : List (Nat × Nat)) : Prop where
  inv : CacheInv c Prod.fst
  live : ∀ r, some r ∈ c.iteratorToObject → r ∈ ids

/-- every iterator of `c` stands for the same in `c'` -/
def Extends (c c' : IteratorCache (Nat × Nat)) : Prop := ∀ it x, c.denote it = some x → c'.denote it = some x

section CacheOver
variable {c c' : IteratorCache (Nat × Nat)} {ids : List (Nat × Nat)}

theorem cacheOver_empty : CacheOver {} ids := ⟨cacheInv_empty, fun _ h => absurd h List.not_mem_nil⟩

theorem CacheOver.mono (h : CacheOver c ids) {ids' : List (Nat × Nat)} (hsub : ∀ r ∈ ids, r ∈ ids') :
    CacheOver c ids' :=
  ⟨h.inv, fun r hr => hsub r (h.live r hr)⟩

theorem CacheOver.cacheTable (h : CacheOver c ids) (t : Nat) : CacheOver (c.cacheTable t).1 ids :=
  ⟨cacheInv_cacheTable t h.inv, fun r hr => h.live r (by simpa using hr)⟩

theorem CacheOver.add (h : CacheOver c ids) {r : Nat × Nat} (hr : r ∈ ids)
    (ht : r.1 ∈ c.endIteratorToTable) : CacheOver (c.add r).1 ids := by
  refine ⟨cacheInv_add r h.inv ht, fun r' hr' => ?_⟩
  rcases mem_add r hr' with hr' | rfl
  · exact h.live r' hr'
  · exact hr

theorem Extends.refl (c : IteratorCache (Nat × Nat)) : Extends c c := fun _ _ h => h

theorem Extends.trans {c'' : IteratorCache (Nat × Nat)} (h : Extends c c') (h' : Extends c' c'') :
    Extends c c'' := fun it x hx => h' it x (h it x hx)

theorem extends_cacheTable (t : Nat) : Extends c (c.cacheTable t).1 :=
  fun _ _ h => denote_cacheTable t h

theorem extends_add (r : Nat × Nat) : Extends c (c.add r).1 := fun _ _ h => denote_add r h

theorem cacheOver_land (h : CacheOver c ids) {t : Nat} {r : Nat × Nat} (hr : r ∈ ids)
    (hrt : r.1 = t) : CacheOver ((c.cacheTable t).1.add r).1 ids ∧
      Extends c ((c.cacheTable t).1.add r).1 ∧
      ((c.cacheTable t).1.add r).1.denote ((c.cacheTable t).1.add r).2 = some (.row r) :=
  ⟨(h.cacheTable t).add hr (hrt ▸ mem_cacheTable t h.inv),
    (extends_cacheTable t).trans (extends_add r), denote_add_self r (h.cacheTable t).inv⟩

end CacheOver

/-! ## The shared bodies -/

/-- where a search of table `t` lands: on the row it finds, or at the end of the table -/
def landing {ρ : Type} (ident : ρ → Nat × Nat) (t : Nat) : Option ρ → Target (Nat × Nat)
  | some r => .row (ident r)
  | none => .endOf t

section BodyLemmas
variable {ρ κ : Type} [LinearOrder κ] {ident : ρ → Nat × Nat} (key : ρ → κ) {rows : List ρ}
  {c : IteratorCache (Nat × Nat)}

theorem deref_of_mem (hnd : (rows.map ident).Nodup) {obj : ρ} (hobj : obj ∈ rows) :
    deref ident rows (ident obj) = .ok obj := by
  unfold deref
  cases hfind : rows.find? (fun r => decide (ident r = ident obj)) with
  | none =>
    exact absurd (List.find?_eq_none.mp hfind obj hobj) (by simp)
  | some o =>
    have ho : ident o = ident obj := by simpa using List.find?_some hfind
    rw [List.inj_on_of_nodup_map hnd (List.mem_of_find?_eq_some hfind) hobj ho]
    rfl

theorem deref_of_live (hc : CacheOver c (rows.map ident)) (hnd : (rows.map ident).Nodup)
    {it : Int} {r : Nat × Nat} (hden : c.denote it = some (.row r)) :
    ∃ obj ∈ rows, ident obj = r ∧ deref ident rows r = .ok obj := by
  obtain ⟨n, -, hn⟩ := denote_eq_row.mp hden
  obtain ⟨obj, hobj, rfl⟩ := List.mem_map.mp (hc.live r (List.mem_of_getElem? hn))
  exact ⟨obj, hobj, rfl, deref_of_mem hnd hobj⟩

variable {st : RamState} {code scope table : Nat} {bound hit : Nat → ρ → Bool}

theorem seek_of_none (htab : findTable st code scope table = none) :
    seek ident key st rows c code scope table bound hit = (c, -1, none) := by
  rw [seek, htab]

/-- **`seek` lands on the row it keeps, or at the end of the table** -/
theorem seek_of_some (bound : Nat → ρ → Bool) (hc : CacheOver c (rows.map ident)) {tab : TableIdObject}
    (htab : findTable st code scope table = some tab)
    (hhit : ∀ r, hit tab.id r = true → (ident r).1 = tab.id) :
    let res := seek ident key st rows c code scope table bound hit
    res.2.2 = (first key (bound tab.id) rows).filter (hit tab.id) ∧
      res.1.denote res.2.1 = some (landing ident tab.id res.2.2) ∧
      CacheOver res.1 (rows.map ident) ∧ Extends c res.1 := by
  intro res
  have hres : res = match (first key (bound tab.id) rows).filter (hit tab.id) with
      | none => ((c.cacheTable tab.id).1, (c.cacheTable tab.id).2, none)
      | some itr => (((c.cacheTable tab.id).1.add (ident itr)).1,
          ((c.cacheTable tab.id).1.add (ident itr)).2, some itr) := by
    simp only [res, seek, htab]
  rw [hres]
  cases hfound : (first key (bound tab.id) rows).filter (hit tab.id) with
  | none =>
    exact ⟨rfl, denote_cacheTable_self tab.id hc.inv, hc.cacheTable tab.id, extends_cacheTable tab.id⟩
  | some itr =>
    obtain ⟨hfirst, hhitr⟩ := Option.filter_eq_some_iff.mp hfound
    obtain ⟨hland, hext, hden⟩ :=
      cacheOver_land hc (List.mem_map_of_mem (mem_of_first hfirst).1) (hhit itr hhitr)
    exact ⟨rfl, hden, hland, hext⟩

theorem seekEnd_of_none (htab : findTable st code scope table = none) :
    seekEnd st c code scope table = (c, -1) := by
  rw [seekEnd, htab]

theorem seekEnd_of_some {ids : List (Nat × Nat)} (hc : CacheOver c ids) {tab : TableIdObject}
    (htab : findTable st code scope table = some tab) :
    let res := seekEnd st c code scope table
    res.1.denote res.2 = some (.endOf tab.id) ∧ CacheOver res.1 ids ∧ Extends c res.1 := by
  simp only [seekEnd, htab]
  exact ⟨denote_cacheTable_self tab.id hc.inv, hc.cacheTable tab.id, extends_cacheTable tab.id⟩


variable {iterator : Int}

theorem denote_natCast_of_row {r : Nat × Nat} (hden : c.denote iterator = some (.row r)) :
    ¬ iterator < -1 := by
  obtain ⟨n, rfl, -⟩ := denote_eq_row.mp hden
  omega

theorem seekNext_of_lt (hlt : iterator < -1) : seekNext ident key rows c iterator = .ok (c, -1, none) := by
  rw [seekNext, if_pos hlt]
  rfl

/-- **`++itr` lands on the next row of the table, or at its end** -/
theorem seekNext_of_row (hc : CacheOver c (rows.map ident)) (hnd : (rows.map ident).Nodup)
    {r : Nat × Nat} (hden : c.denote iterator = some (.row r)) :
    ∃ obj ∈ rows, ident obj = r ∧ ∃ c' itr,
      seekNext ident key rows c iterator = .ok (c', itr,
        (first key (fun r' => decide (key obj < key r')) rows).filter
          (fun r' => decide ((ident r').1 = r.1))) ∧
      c'.denote itr = some (landing ident r.1 ((first key (fun r' => decide (key obj < key r'))
        rows).filter (fun r' => decide ((ident r').1 = r.1)))) ∧
      CacheOver c' (rows.map ident) ∧ Extends c c' := by
  obtain ⟨obj, hobj, rfl, hderef⟩ := deref_of_live hc hnd hden
  refine ⟨obj, hobj, rfl, ?_⟩
  have hget : c.get iterator = .ok (ident obj) := get_eq_ok.mpr hden
  obtain ⟨n, -, hn⟩ := denote_eq_row.mp hden
  have hcached := hc.inv.cached _ (List.mem_of_getElem? hn)
  rw [seekNext, if_neg (denote_natCast_of_row hden)]
  simp only [hget, hderef, ok_bind]
  cases hfound : (first key (fun r' => decide (key obj < key r')) rows).filter
      (fun r' => decide ((ident r').1 = (ident obj).1)) with
  | none =>
    obtain ⟨ei, hei, hdenei⟩ := getEndIteratorByTableId_of_mem hc.inv hcached
    exact ⟨c, ei, by rw [hei]; rfl, hdenei, hc, Extends.refl c⟩
  | some itr =>
    obtain ⟨hfirst, hsame⟩ := Option.filter_eq_some_iff.mp hfound
    have hsame : (ident itr).1 = (ident obj).1 := of_decide_eq_true hsame
    refine ⟨(c.add (ident itr)).1, (c.add (ident itr)).2, rfl, denote_add_self _ hc.inv,
      hc.add (List.mem_map_of_mem (mem_of_first hfirst).1) (hsame ▸ hcached), extends_add _⟩

theorem seekNext_of_not_row (ident : ρ → Nat × Nat) (rows : List ρ) (hge : ¬ iterator < -1) (hden : ∀ r, c.denote iterator ≠ some (.row r)) :
    ∃ e, seekNext ident key rows c iterator = .error e := by
  rw [seekNext, if_neg hge]
  cases hget : c.get iterator with
  | error e => exact ⟨e, rfl⟩
  | ok r => exact absurd (get_eq_ok.mp hget) (hden r)

/-- **`--itr` from a row lands on the row before it in the table, or gives `-1`** -/
theorem seekPrevious_of_row (hc : CacheOver c (rows.map ident)) (hnd : (rows.map ident).Nodup)
    {r : Nat × Nat} (hden : c.denote iterator = some (.row r)) :
    ∃ obj ∈ rows, ident obj = r ∧ ∃ c' itr,
      seekPrevious ident key rows c iterator = .ok (c', itr,
        (last key (fun r' => decide (key r' < key obj)) rows).filter
          (fun r' => decide ((ident r').1 = r.1))) ∧
      c'.denote itr = ((last key (fun r' => decide (key r' < key obj)) rows).filter
          (fun r' => decide ((ident r').1 = r.1))).map (fun o => .row (ident o)) ∧
      ((last key (fun r' => decide (key r' < key obj)) rows).filter
          (fun r' => decide ((ident r').1 = r.1)) = none → itr = -1) ∧
      CacheOver c' (rows.map ident) ∧ Extends c c' := by
  obtain ⟨obj, hobj, rfl, hderef⟩ := deref_of_live hc hnd hden
  refine ⟨obj, hobj, rfl, ?_⟩
  have hget : c.get iterator = .ok (ident obj) := get_eq_ok.mpr hden
  obtain ⟨n, -, hn⟩ := denote_eq_row.mp hden
  have hcached := hc.inv.cached _ (List.mem_of_getElem? hn)
  rw [seekPrevious, if_neg (denote_natCast_of_row hden)]
  simp only [hget, hderef, ok_bind]
  cases hfound : (last key (fun r' => decide (key r' < key obj)) rows).filter
      (fun r' => decide ((ident r').1 = (ident obj).1)) with
  | none => exact ⟨c, -1, rfl, by simp [denote], fun _ => rfl, hc, Extends.refl c⟩
  | some itr =>
    obtain ⟨hlast, hsame⟩ := Option.filter_eq_some_iff.mp hfound
    have hsame : (ident itr).1 = (ident obj).1 := of_decide_eq_true hsame
    refine ⟨(c.add (ident itr)).1, (c.add (ident itr)).2, rfl, denote_add_self _ hc.inv,
      (fun h => absurd h (Option.some_ne_none _)), hc.add (List.mem_map_of_mem (mem_of_last hlast).1) (hsame ▸ hcached),
      extends_add _⟩

/-- **`--itr` from the end of a table lands on its last row, or gives `-1`** -/
theorem seekPrevious_of_end (hc : CacheOver c (rows.map ident)) {t : Nat}
    (hden : c.denote iterator = some (.endOf t)) :
    ∃ c' itr,
      seekPrevious ident key rows c iterator = .ok (c', itr,
        (last key (fun r' => decide ((ident r').1 ≤ t)) rows).filter
          (fun r' => decide ((ident r').1 = t))) ∧
      c'.denote itr = ((last key (fun r' => decide ((ident r').1 ≤ t)) rows).filter
          (fun r' => decide ((ident r').1 = t))).map (fun o => .row (ident o)) ∧
      ((last key (fun r' => decide ((ident r').1 ≤ t)) rows).filter
          (fun r' => decide ((ident r').1 = t)) = none → itr = -1) ∧
      CacheOver c' (rows.map ident) ∧ Extends c c' := by
  obtain ⟨indx, rfl, hindx⟩ := denote_eq_endOf.mp hden
  have hlt := indexToEndIterator_lt indx
  have hfind : c.findTableByEndIterator (indexToEndIterator indx) = .ok (some t) := by
    rw [findTableByEndIterator_of_lt hlt, endIteratorToIndex_indexToEndIterator, hindx]
  rw [seekPrevious, if_pos hlt]
  simp only [hfind, ok_bind]
  cases hfound : (last key (fun r' => decide ((ident r').1 ≤ t)) rows).filter
      (fun r' => decide ((ident r').1 = t)) with
  | none => exact ⟨c, -1, rfl, by simp [denote], fun _ => rfl, hc, Extends.refl c⟩
  | some itr =>
    obtain ⟨hlast, hsame⟩ := Option.filter_eq_some_iff.mp hfound
    have hsame : (ident itr).1 = t := of_decide_eq_true hsame
    refine ⟨(c.add (ident itr)).1, (c.add (ident itr)).2, rfl, denote_add_self _ hc.inv,
      (fun h => absurd h (Option.some_ne_none _)),
      hc.add (List.mem_map_of_mem (mem_of_last hlast).1) (hsame ▸ List.mem_of_getElem? hindx),
      extends_add _⟩

theorem seekPrevious_of_none (ident : ρ → Nat × Nat) (rows : List ρ) (hden : c.denote iterator = none) :
    ∃ e, seekPrevious ident key rows c iterator = .error e := by
  by_cases hlt : iterator < -1
  · have hnone : c.endIteratorToTable[endIteratorToIndex iterator]? = none := by
      rw [← findTableByEndIterator_denote hlt] at hden
      exact Option.map_eq_none_iff.mp hden
    refine ⟨"not a valid end iterator", ?_⟩
    rw [seekPrevious, if_pos hlt, findTableByEndIterator_of_lt hlt, hnone]
    rfl
  · rw [seekPrevious, if_neg hlt]
    cases hget : c.get iterator with
    | error e => exact ⟨e, rfl⟩
    | ok r => exact absurd ((get_eq_ok.mp hget).symm.trans hden) (by simp)

theorem seekNext_cacheOver (hc : CacheOver c (rows.map ident)) (hnd : (rows.map ident).Nodup)
    {res : IteratorCache (Nat × Nat) × Int × Option ρ}
    (hres : seekNext ident key rows c iterator = .ok res) :
    CacheOver res.1 (rows.map ident) ∧ Extends c res.1 := by
  by_cases hlt : iterator < -1
  · rw [seekNext_of_lt key hlt] at hres
    cases hres
    exact ⟨hc, Extends.refl c⟩
  by_cases hrow : ∃ r, c.denote iterator = some (.row r)
  · obtain ⟨r, hden⟩ := hrow
    obtain ⟨_, -, -, c', itr, hnext, -, hc', hext⟩ := seekNext_of_row key hc hnd hden
    rw [hnext] at hres
    cases hres
    exact ⟨hc', hext⟩
  · obtain ⟨e, he⟩ := seekNext_of_not_row key ident rows hlt fun r hr => hrow ⟨r, hr⟩
    rw [he] at hres
    cases hres

theorem seekPrevious_cacheOver (hc : CacheOver c (rows.map ident)) (hnd : (rows.map ident).Nodup)
    {res : IteratorCache (Nat × Nat) × Int × Option ρ}
    (hres : seekPrevious ident key rows c iterator = .ok res) :
    CacheOver res.1 (rows.map ident) ∧ Extends c res.1 := by
  cases hden : c.denote iterator with
  | none =>
    obtain ⟨e, he⟩ := seekPrevious_of_none key ident rows hden
    rw [he] at hres
    cases hres
  | some x =>
    cases x with
    | endOf t =>
      obtain ⟨c', itr, hprev, -, -, hc', hext⟩ := seekPrevious_of_end key hc hden
      rw [hprev] at hres
      cases hres
      exact ⟨hc', hext⟩
    | row r =>
      obtain ⟨_, -, -, c', itr, hprev, -, -, hc', hext⟩ := seekPrevious_of_row key hc hnd hden
      rw [hprev] at hres
      cases hres
      exact ⟨hc', hext⟩

end BodyLemmas

/-! ## The calls -/

section Calls
variable {ι : Type} [DecidableEq ι] {σ : ι → Type} [∀ i, LinearOrder (σ i)]

/-- `apply_context::db_find_i64` -/
def dbFindI64 (ctx : Context ι σ) (code scope table id : Nat) : Context ι σ × Int :=
  let (keyvalCache, itr, _) := seek KeyValueObject.byScopePrimary keyvalKey ctx.db ctx.db.rows
    ctx.keyvalCache code scope table (fun t o => decide (toLex (t, id) ≤ keyvalKey o))
    (fun t o => decide (o.byScopePrimary = (t, id)))
  ({ ctx with keyvalCache }, itr)

/-- `apply_context::db_lowerbound_i64` -/
def dbLowerboundI64 (ctx : Context ι σ) (code scope table id : Nat) : Context ι σ × Int :=
  let (keyvalCache, itr, _) := seek KeyValueObject.byScopePrimary keyvalKey ctx.db ctx.db.rows
    ctx.keyvalCache code scope table (fun t o => decide (toLex (t, id) ≤ keyvalKey o))
    (fun t o => decide (o.tId = t))
  ({ ctx with keyvalCache }, itr)

/-- `apply_context::db_upperbound_i64` -/
def dbUpperboundI64 (ctx : Context ι σ) (code scope table id : Nat) : Context ι σ × Int :=
  let (keyvalCache, itr, _) := seek KeyValueObject.byScopePrimary keyvalKey ctx.db ctx.db.rows
    ctx.keyvalCache code scope table (fun t o => decide (toLex (t, id) < keyvalKey o))
    (fun t o => decide (o.tId = t))
  ({ ctx with keyvalCache }, itr)

/-- `apply_context::db_end_i64` -/
def dbEndI64 (ctx : Context ι σ) (code scope table : Nat) : Context ι σ × Int :=
  let (keyvalCache, itr) := seekEnd ctx.db ctx.keyvalCache code scope table
  ({ ctx with keyvalCache }, itr)

/-- `apply_context::db_next_i64`, writing `primary` -/
def dbNextI64 (ctx : Context ι σ) (iterator : Int) : Except String (Context ι σ × Int × Option Nat) := do
  let (keyvalCache, itr, obj) ←
    seekNext KeyValueObject.byScopePrimary keyvalKey ctx.db.rows ctx.keyvalCache iterator
  pure ({ ctx with keyvalCache }, itr, obj.map (·.primaryKey))

/-- `apply_context::db_previous_i64`, writing `primary` -/
def dbPreviousI64 (ctx : Context ι σ) (iterator : Int) :
    Except String (Context ι σ × Int × Option Nat) := do
  let (keyvalCache, itr, obj) ←
    seekPrevious KeyValueObject.byScopePrimary keyvalKey ctx.db.rows ctx.keyvalCache iterator
  pure ({ ctx with keyvalCache }, itr, obj.map (·.primaryKey))

/-- `apply_context::db_get_i64`: the size of the row's value, or the bytes copied into a buffer
of `bufferSize` -/
def dbGetI64 (ctx : Context ι σ) (iterator : Int) (bufferSize : Nat) : Except String (Nat × Bytes) := do
  let obj ← deref KeyValueObject.byScopePrimary ctx.db.rows (← ctx.keyvalCache.get iterator)
  let s := obj.value.length
  if bufferSize = 0 then return (s, [])
  let copySize := min bufferSize s
  pure (copySize, obj.value.take copySize)

/-- `apply_context::db_store_i64` on the receiver's table: the store of `Ram`, then the row and
its table, the one `find_or_create_table` gave, enter the cache -/
def dbStoreI64 (env : ApplyEnv) (ctx : Context ι σ) (scope table payer id : Nat) (buffer : Bytes) :
    Except String (Context ι σ × Int) := do
  let db ← Ram.dbStoreI64 env ctx.db scope table payer id buffer
  let (_, tab) ← findOrCreateTable env ctx.db env.receiver scope table payer
  let (keyvalCache, _) := ctx.keyvalCache.cacheTable tab.id
  let (keyvalCache, itr) := keyvalCache.add (tab.id, id)
  pure ({ ctx with db, keyvalCache }, itr)

/-- `apply_context::db_update_i64` -/
def dbUpdateI64 (env : ApplyEnv) (ctx : Context ι σ) (iterator : Int) (payer : Nat) (buffer : Bytes) :
    Except String (Context ι σ) := do
  let obj ← ctx.keyvalCache.get iterator
  let _ ← ctx.keyvalCache.getTable obj.1
  let db ← Ram.dbUpdateI64 env ctx.db obj payer buffer
  pure { ctx with db }

/-- `apply_context::db_remove_i64` -/
def dbRemoveI64 (env : ApplyEnv) (ctx : Context ι σ) (iterator : Int) : Except String (Context ι σ) := do
  let obj ← ctx.keyvalCache.get iterator
  let _ ← ctx.keyvalCache.getTable obj.1
  let db ← Ram.dbRemoveI64 env ctx.db obj
  let keyvalCache ← ctx.keyvalCache.remove iterator
  pure { ctx with db, keyvalCache }

/-- `generic_index::store` on the receiver's table; `billable` is
`config::billable_size_v<ObjectType>` -/
def store (env : ApplyEnv) (billable : Nat) (ctx : Context ι σ) (i : ι) (scope table payer id : Nat)
    (value : σ i) : Except String (Context ι σ × Int) := do
  assert (payer != 0) "must specify a valid account to pay for new record"
  let (db, tab) ← findOrCreateTable env ctx.db env.receiver scope table payer
  let obj : IndexObject (σ i) := ⟨tab.id, id, payer, value⟩
  assert (findKey IndexObject.byPrimary obj.byPrimary (ctx.index i)).isNone insertViolation
  let (j, t) ← Ram.getTable db tab.id
  let db := { db with tables := db.tables.set j { t with count := t.count + 1 } }
  let db ← updateDbUsage env db payer billable
  let (c, _) := (ctx.itrCache i).cacheTable tab.id
  let (c, itr) := c.add obj.byPrimary
  pure ({ ctx with db, index := Function.update ctx.index i (ctx.index i ++ [obj]),
                   itrCache := Function.update ctx.itrCache i c }, itr)

/-- `generic_index::remove` -/
def remove (env : ApplyEnv) (billable : Nat) (ctx : Context ι σ) (i : ι) (iterator : Int) :
    Except String (Context ι σ) := do
  let objId ← (ctx.itrCache i).get iterator
  let (k, obj) ← getKey IndexObject.byPrimary objId (ctx.index i) "dereference of deleted object"
  let db ← updateDbUsage env ctx.db obj.payer (-(billable : Int))
  let _ ← (ctx.itrCache i).getTable obj.tId
  let (j, tableObj) ← Ram.getTable db obj.tId
  assert (tableObj.code == env.receiver) "db access violation"
  let tableObj := { tableObj with count := tableObj.count - 1 }
  let db := { db with tables := db.tables.set j tableObj }
  let db ← if tableObj.count = 0 then removeTable env db j tableObj else pure db
  let c ← (ctx.itrCache i).remove iterator
  pure { ctx with db, index := Function.update ctx.index i ((ctx.index i).eraseIdx k),
                  itrCache := Function.update ctx.itrCache i c }

/-- `generic_index::update`; a payer `0` keeps the object's -/
def update (env : ApplyEnv) (billable : Nat) (ctx : Context ι σ) (i : ι) (iterator : Int)
    (payer : Nat) (secondary : σ i) : Except String (Context ι σ) := do
  let objId ← (ctx.itrCache i).get iterator
  let (k, obj) ← getKey IndexObject.byPrimary objId (ctx.index i) "dereference of deleted object"
  let _ ← (ctx.itrCache i).getTable obj.tId
  let (_, tableObj) ← Ram.getTable ctx.db obj.tId
  assert (tableObj.code == env.receiver) "db access violation"
  let payer := if payer = 0 then obj.payer else payer
  let db ←
    if obj.payer ≠ payer then do
      let db ← updateDbUsage env ctx.db obj.payer (-(billable : Int))
      updateDbUsage env db payer billable
    else pure ctx.db
  let obj := { obj with secondaryKey := secondary, payer := payer }
  pure { ctx with db, index := Function.update ctx.index i ((ctx.index i).set k obj) }

/-- `generic_index::find_secondary`, writing `primary` -/
def findSecondary (ctx : Context ι σ) (i : ι) (code scope table : Nat) (secondary : σ i) :
    Context ι σ × Int × Option Nat :=
  let (c, itr, obj) := seek IndexObject.byPrimary IndexObject.bySecondary ctx.db (ctx.index i)
    (ctx.itrCache i) code scope table
    (fun t o => decide (toLex (t, secondary) ≤ toLex (o.tId, o.secondaryKey)))
    (fun t o => decide (o.tId = t ∧ o.secondaryKey = secondary))
  ({ ctx with itrCache := Function.update ctx.itrCache i c }, itr, obj.map (·.primaryKey))

/-- `generic_index::lowerbound_secondary`, writing `primary` and `secondary` -/
def lowerboundSecondary (ctx : Context ι σ) (i : ι) (code scope table : Nat) (secondary : σ i) :
    Context ι σ × Int × Option (Nat × σ i) :=
  let (c, itr, obj) := seek IndexObject.byPrimary IndexObject.bySecondary ctx.db (ctx.index i)
    (ctx.itrCache i) code scope table
    (fun t o => decide (toLex (t, secondary) ≤ toLex (o.tId, o.secondaryKey)))
    (fun t o => decide (o.tId = t))
  ({ ctx with itrCache := Function.update ctx.itrCache i c }, itr,
    obj.map fun o => (o.primaryKey, o.secondaryKey))

/-- `generic_index::upperbound_secondary`, writing `primary` and `secondary` -/
def upperboundSecondary (ctx : Context ι σ) (i : ι) (code scope table : Nat) (secondary : σ i) :
    Context ι σ × Int × Option (Nat × σ i) :=
  let (c, itr, obj) := seek IndexObject.byPrimary IndexObject.bySecondary ctx.db (ctx.index i)
    (ctx.itrCache i) code scope table
    (fun t o => decide (toLex (t, secondary) < toLex (o.tId, o.secondaryKey)))
    (fun t o => decide (o.tId = t))
  ({ ctx with itrCache := Function.update ctx.itrCache i c }, itr,
    obj.map fun o => (o.primaryKey, o.secondaryKey))

/-- `generic_index::end_secondary` -/
def endSecondary (ctx : Context ι σ) (i : ι) (code scope table : Nat) : Context ι σ × Int :=
  let (c, itr) := seekEnd ctx.db (ctx.itrCache i) code scope table
  ({ ctx with itrCache := Function.update ctx.itrCache i c }, itr)

/-- `generic_index::next_secondary`, writing `primary` -/
def nextSecondary (ctx : Context ι σ) (i : ι) (iterator : Int) :
    Except String (Context ι σ × Int × Option Nat) := do
  let (c, itr, obj) ←
    seekNext IndexObject.byPrimary IndexObject.bySecondary (ctx.index i) (ctx.itrCache i) iterator
  pure ({ ctx with itrCache := Function.update ctx.itrCache i c }, itr, obj.map (·.primaryKey))

/-- `generic_index::previous_secondary`, writing `primary` -/
def previousSecondary (ctx : Context ι σ) (i : ι) (iterator : Int) :
    Except String (Context ι σ × Int × Option Nat) := do
  let (c, itr, obj) ←
    seekPrevious IndexObject.byPrimary IndexObject.bySecondary (ctx.index i) (ctx.itrCache i) iterator
  pure ({ ctx with itrCache := Function.update ctx.itrCache i c }, itr, obj.map (·.primaryKey))

/-- `generic_index::find_primary`, writing `secondary` -/
def findPrimary (ctx : Context ι σ) (i : ι) (code scope table primary : Nat) :
    Context ι σ × Int × Option (σ i) :=
  let (c, itr, obj) := seek IndexObject.byPrimary IndexObject.primaryOrder ctx.db (ctx.index i)
    (ctx.itrCache i) code scope table
    (fun t o => decide (toLex (t, primary) ≤ o.primaryOrder))
    (fun t o => decide (o.byPrimary = (t, primary)))
  ({ ctx with itrCache := Function.update ctx.itrCache i c }, itr, obj.map (·.secondaryKey))

/-- `generic_index::lowerbound_primary` -/
def lowerboundPrimary (ctx : Context ι σ) (i : ι) (code scope table primary : Nat) :
    Context ι σ × Int :=
  let (c, itr, _) := seek IndexObject.byPrimary IndexObject.primaryOrder ctx.db (ctx.index i)
    (ctx.itrCache i) code scope table
    (fun t o => decide (toLex (t, primary) ≤ o.primaryOrder)) (fun t o => decide (o.tId = t))
  ({ ctx with itrCache := Function.update ctx.itrCache i c }, itr)

/-- `generic_index::upperbound_primary`, which caches the table a second time before it adds the
row -/
def upperboundPrimary (ctx : Context ι σ) (i : ι) (code scope table primary : Nat) :
    Context ι σ × Int :=
  match findTable ctx.db code scope table with
  | none => (ctx, -1)
  | some tab =>
    let (c, tableEndItr) := (ctx.itrCache i).cacheTable tab.id
    match (first IndexObject.primaryOrder (fun o => decide (toLex (tab.id, primary) < o.primaryOrder))
        (ctx.index i)).filter (fun o => decide (o.tId = tab.id)) with
    | none => ({ ctx with itrCache := Function.update ctx.itrCache i c }, tableEndItr)
    | some itr =>
      let (c, _) := c.cacheTable tab.id
      let (c, n) := c.add itr.byPrimary
      ({ ctx with itrCache := Function.update ctx.itrCache i c }, n)

/-- `generic_index::next_primary`, writing `primary` -/
def nextPrimary (ctx : Context ι σ) (i : ι) (iterator : Int) :
    Except String (Context ι σ × Int × Option Nat) := do
  let (c, itr, obj) ←
    seekNext IndexObject.byPrimary IndexObject.primaryOrder (ctx.index i) (ctx.itrCache i) iterator
  pure ({ ctx with itrCache := Function.update ctx.itrCache i c }, itr, obj.map (·.primaryKey))

/-- `generic_index::previous_primary`, writing `primary` -/
def previousPrimary (ctx : Context ι σ) (i : ι) (iterator : Int) :
    Except String (Context ι σ × Int × Option Nat) := do
  let (c, itr, obj) ←
    seekPrevious IndexObject.byPrimary IndexObject.primaryOrder (ctx.index i) (ctx.itrCache i) iterator
  pure ({ ctx with itrCache := Function.update ctx.itrCache i c }, itr, obj.map (·.primaryKey))

/-- `generic_index::get`: the primary and the secondary key of the object -/
def get (ctx : Context ι σ) (i : ι) (iterator : Int) : Except String (Nat × σ i) := do
  let obj ← deref IndexObject.byPrimary (ctx.index i) (← (ctx.itrCache i).get iterator)
  pure (obj.primaryKey, obj.secondaryKey)

/-- a call of the database API that changes the state of the action (`db_get_i64` and `get`
only read) -/
inductive DbCall (ι : Type) (σ : ι → Type) where
  | dbStoreI64 (scope table payer id : Nat) (buffer : Bytes)
  | dbUpdateI64 (iterator : Int) (payer : Nat) (buffer : Bytes)
  | dbRemoveI64 (iterator : Int)
  | dbNextI64 (iterator : Int)
  | dbPreviousI64 (iterator : Int)
  | dbFindI64 (code scope table id : Nat)
  | dbLowerboundI64 (code scope table id : Nat)
  | dbUpperboundI64 (code scope table id : Nat)
  | dbEndI64 (code scope table : Nat)
  | store (i : ι) (scope table payer id : Nat) (secondary : σ i)
  | update (i : ι) (iterator : Int) (payer : Nat) (secondary : σ i)
  | remove (i : ι) (iterator : Int)
  | findSecondary (i : ι) (code scope table : Nat) (secondary : σ i)
  | lowerboundSecondary (i : ι) (code scope table : Nat) (secondary : σ i)
  | upperboundSecondary (i : ι) (code scope table : Nat) (secondary : σ i)
  | endSecondary (i : ι) (code scope table : Nat)
  | nextSecondary (i : ι) (iterator : Int)
  | previousSecondary (i : ι) (iterator : Int)
  | findPrimary (i : ι) (code scope table primary : Nat)
  | lowerboundPrimary (i : ι) (code scope table primary : Nat)
  | upperboundPrimary (i : ι) (code scope table primary : Nat)
  | nextPrimary (i : ι) (iterator : Int)
  | previousPrimary (i : ι) (iterator : Int)

/-- the state after a call; `billable i` is `config::billable_size_v` of the objects of index
`i` -/
def step (env : ApplyEnv) (billable : ι → Nat) (ctx : Context ι σ) : DbCall ι σ → Except String (Context ι σ)
  | .dbStoreI64 scope table payer id buffer =>
    Prod.fst <$> dbStoreI64 env ctx scope table payer id buffer
  | .dbUpdateI64 iterator payer buffer => dbUpdateI64 env ctx iterator payer buffer
  | .dbRemoveI64 iterator => dbRemoveI64 env ctx iterator
  | .dbNextI64 iterator => Prod.fst <$> dbNextI64 ctx iterator
  | .dbPreviousI64 iterator => Prod.fst <$> dbPreviousI64 ctx iterator
  | .dbFindI64 code scope table id => pure (dbFindI64 ctx code scope table id).1
  | .dbLowerboundI64 code scope table id => pure (dbLowerboundI64 ctx code scope table id).1
  | .dbUpperboundI64 code scope table id => pure (dbUpperboundI64 ctx code scope table id).1
  | .dbEndI64 code scope table => pure (dbEndI64 ctx code scope table).1
  | .store i scope table payer id secondary =>
    Prod.fst <$> store env (billable i) ctx i scope table payer id secondary
  | .update i iterator payer secondary => update env (billable i) ctx i iterator payer secondary
  | .remove i iterator => remove env (billable i) ctx i iterator
  | .findSecondary i code scope table secondary => pure (findSecondary ctx i code scope table secondary).1
  | .lowerboundSecondary i code scope table secondary =>
    pure (lowerboundSecondary ctx i code scope table secondary).1
  | .upperboundSecondary i code scope table secondary =>
    pure (upperboundSecondary ctx i code scope table secondary).1
  | .endSecondary i code scope table => pure (endSecondary ctx i code scope table).1
  | .nextSecondary i iterator => Prod.fst <$> nextSecondary ctx i iterator
  | .previousSecondary i iterator => Prod.fst <$> previousSecondary ctx i iterator
  | .findPrimary i code scope table primary => pure (findPrimary ctx i code scope table primary).1
  | .lowerboundPrimary i code scope table primary =>
    pure (lowerboundPrimary ctx i code scope table primary).1
  | .upperboundPrimary i code scope table primary =>
    pure (upperboundPrimary ctx i code scope table primary).1
  | .nextPrimary i iterator => Prod.fst <$> nextPrimary ctx i iterator
  | .previousPrimary i iterator => Prod.fst <$> previousPrimary ctx i iterator

end Calls

/-! ## The state of an action and the ordered map of a table -/

section State
variable {ι : Type} [DecidableEq ι] {σ : ι → Type} [∀ i, LinearOrder (σ i)]

/-- the state of an action: the keys of every index unique (what `ordered_unique` keeps), and
each cache well formed over the rows its index still has -/
structure DbInv (ctx : Context ι σ) : Prop where
  rows : (ctx.db.rows.map KeyValueObject.byScopePrimary).Nodup
  index : ∀ i, ((ctx.index i).map IndexObject.byPrimary).Nodup
  keyval : CacheOver ctx.keyvalCache (ctx.db.rows.map KeyValueObject.byScopePrimary)
  itr : ∀ i, CacheOver (ctx.itrCache i) ((ctx.index i).map IndexObject.byPrimary)

/-- **iterators are stable**: an iterator handed out before a call stands for the same table end,
or the same row while the row is there, after it -/
def Keeps (ctx ctx' : Context ι σ) : Prop :=
  (∀ it x, ctx.keyvalCache.denote it = some x →
      (∀ r, x = .row r → r ∈ ctx'.db.rows.map KeyValueObject.byScopePrimary) →
      ctx'.keyvalCache.denote it = some x) ∧
    ∀ i it x, (ctx.itrCache i).denote it = some x →
      (∀ r, x = .row r → r ∈ (ctx'.index i).map IndexObject.byPrimary) →
      (ctx'.itrCache i).denote it = some x

/-- the rows of table `t` in an index: the entries of the table's ordered map -/
def rowsOf {ρ : Type} (tId : ρ → Nat) (rows : List ρ) (t : Nat) : List ρ :=
  rows.filter fun r => decide (tId r = t)

/-- the order of the rows of one table in `by_secondary`: the secondary key, then the primary
key -/
def secondaryOrder {τ : Type} [LinearOrder τ] (o : IndexObject τ) : Lex (τ × Nat) :=
  toLex (o.secondaryKey, o.primaryKey)

/-- a search of the table `(code, scope, table)` answers with `itr` of the cache `c`: `-1` when the
table has no `table_id_object`, else an iterator for where the search of the table's ordered map
lands -/
def Lands (st : RamState) (code scope table : Nat) (c : IteratorCache (Nat × Nat)) (itr : Int)
    (lands : Nat → Target (Nat × Nat)) : Prop :=
  match findTable st code scope table with
  | none => itr = -1
  | some tab => c.denote itr = some (lands tab.id)

/-- a step forward answers with the iterator of the row found, or of the end of table `t` -/
def StepsTo {ρ : Type} (res : Except String (Context ι σ × Int × Option Nat))
    (cache : Context ι σ → IteratorCache (Nat × Nat)) (ident : ρ → Nat × Nat) (pk : ρ → Nat)
    (t : Nat) (found : Option ρ) : Prop :=
  ∃ ctx' itr, res = .ok (ctx', itr, found.map pk) ∧ (cache ctx').denote itr = some (landing ident t found)

/-- a step back answers with the iterator of the row found, or `-1` -/
def StepsBackTo {ρ : Type} (res : Except String (Context ι σ × Int × Option Nat))
    (cache : Context ι σ → IteratorCache (Nat × Nat)) (ident : ρ → Nat × Nat) (pk : ρ → Nat)
    (found : Option ρ) : Prop :=
  ∃ ctx' itr, res = .ok (ctx', itr, found.map pk) ∧ (found = none → itr = -1) ∧
    (cache ctx').denote itr = found.map fun o => .row (ident o)

/-- **What the calls return, on the ordered map of each table.**  A search lands, in the table
named, on the least row at or past its key (`lower_bound`, `find` of an equal key) or strictly
past it (`upper_bound`), and at the table's end when there is none; `next` of a row lands on the
least row after it in its table or at the table's end, and `next` of an end iterator gives `-1`;
`previous` of a row or of a table's end lands on the greatest row before it in its table, or
gives `-1`.  The rows of a table are ordered by primary key, and in a secondary index by
secondary key, then primary key.  An integer that is no iterator makes `next` and `previous`
fail. -/
def Answers (ctx : Context ι σ) : DbCall ι σ → Prop
  | .dbFindI64 code scope table id =>
    Lands ctx.db code scope table (dbFindI64 ctx code scope table id).1.keyvalCache
      (dbFindI64 ctx code scope table id).2 fun t => landing KeyValueObject.byScopePrimary t
        (first (·.primaryKey) (fun o => decide (o.primaryKey = id)) (rowsOf (·.tId) ctx.db.rows t))
  | .dbLowerboundI64 code scope table id =>
    Lands ctx.db code scope table (dbLowerboundI64 ctx code scope table id).1.keyvalCache
      (dbLowerboundI64 ctx code scope table id).2 fun t => landing KeyValueObject.byScopePrimary t
        (first (·.primaryKey) (fun o => decide (id ≤ o.primaryKey)) (rowsOf (·.tId) ctx.db.rows t))
  | .dbUpperboundI64 code scope table id =>
    Lands ctx.db code scope table (dbUpperboundI64 ctx code scope table id).1.keyvalCache
      (dbUpperboundI64 ctx code scope table id).2 fun t => landing KeyValueObject.byScopePrimary t
        (first (·.primaryKey) (fun o => decide (id < o.primaryKey)) (rowsOf (·.tId) ctx.db.rows t))
  | .dbEndI64 code scope table =>
    Lands ctx.db code scope table (dbEndI64 ctx code scope table).1.keyvalCache
      (dbEndI64 ctx code scope table).2 .endOf
  | .dbNextI64 iterator =>
    if iterator < -1 then dbNextI64 ctx iterator = .ok (ctx, -1, none)
    else match ctx.keyvalCache.denote iterator with
      | some (.row r) => ∃ o ∈ ctx.db.rows, o.byScopePrimary = r ∧
        StepsTo (dbNextI64 ctx iterator) (·.keyvalCache) KeyValueObject.byScopePrimary (·.primaryKey)
          r.1 (first (·.primaryKey) (fun o' => decide (o.primaryKey < o'.primaryKey))
            (rowsOf (·.tId) ctx.db.rows r.1))
      | _ => ∃ e, dbNextI64 ctx iterator = .error e
  | .dbPreviousI64 iterator =>
    match ctx.keyvalCache.denote iterator with
    | some (.endOf t) =>
      StepsBackTo (dbPreviousI64 ctx iterator) (·.keyvalCache) KeyValueObject.byScopePrimary
        (·.primaryKey) (last (·.primaryKey) (fun _ => true) (rowsOf (·.tId) ctx.db.rows t))
    | some (.row r) => ∃ o ∈ ctx.db.rows, o.byScopePrimary = r ∧
      StepsBackTo (dbPreviousI64 ctx iterator) (·.keyvalCache) KeyValueObject.byScopePrimary
        (·.primaryKey) (last (·.primaryKey) (fun o' => decide (o'.primaryKey < o.primaryKey))
          (rowsOf (·.tId) ctx.db.rows r.1))
    | none => ∃ e, dbPreviousI64 ctx iterator = .error e
  | .findSecondary i code scope table secondary =>
    Lands ctx.db code scope table ((findSecondary ctx i code scope table secondary).1.itrCache i)
      (findSecondary ctx i code scope table secondary).2.1 fun t => landing IndexObject.byPrimary t
        (first secondaryOrder (fun o => decide (o.secondaryKey = secondary))
          (rowsOf (·.tId) (ctx.index i) t))
  | .lowerboundSecondary i code scope table secondary =>
    Lands ctx.db code scope table ((lowerboundSecondary ctx i code scope table secondary).1.itrCache i)
      (lowerboundSecondary ctx i code scope table secondary).2.1 fun t => landing IndexObject.byPrimary t
        (first secondaryOrder (fun o => decide (secondary ≤ o.secondaryKey))
          (rowsOf (·.tId) (ctx.index i) t))
  | .upperboundSecondary i code scope table secondary =>
    Lands ctx.db code scope table ((upperboundSecondary ctx i code scope table secondary).1.itrCache i)
      (upperboundSecondary ctx i code scope table secondary).2.1 fun t => landing IndexObject.byPrimary t
        (first secondaryOrder (fun o => decide (secondary < o.secondaryKey))
          (rowsOf (·.tId) (ctx.index i) t))
  | .endSecondary i code scope table =>
    Lands ctx.db code scope table ((endSecondary ctx i code scope table).1.itrCache i)
      (endSecondary ctx i code scope table).2 .endOf
  | .nextSecondary i iterator =>
    if iterator < -1 then nextSecondary ctx i iterator = .ok (ctx, -1, none)
    else match (ctx.itrCache i).denote iterator with
      | some (.row r) => ∃ o ∈ ctx.index i, o.byPrimary = r ∧
        StepsTo (nextSecondary ctx i iterator) (·.itrCache i) IndexObject.byPrimary (·.primaryKey)
          r.1 (first secondaryOrder (fun o' => decide (secondaryOrder o < secondaryOrder o'))
            (rowsOf (·.tId) (ctx.index i) r.1))
      | _ => ∃ e, nextSecondary ctx i iterator = .error e
  | .previousSecondary i iterator =>
    match (ctx.itrCache i).denote iterator with
    | some (.endOf t) =>
      StepsBackTo (previousSecondary ctx i iterator) (·.itrCache i) IndexObject.byPrimary
        (·.primaryKey) (last secondaryOrder (fun _ => true) (rowsOf (·.tId) (ctx.index i) t))
    | some (.row r) => ∃ o ∈ ctx.index i, o.byPrimary = r ∧
      StepsBackTo (previousSecondary ctx i iterator) (·.itrCache i) IndexObject.byPrimary
        (·.primaryKey) (last secondaryOrder (fun o' => decide (secondaryOrder o' < secondaryOrder o))
          (rowsOf (·.tId) (ctx.index i) r.1))
    | none => ∃ e, previousSecondary ctx i iterator = .error e
  | .findPrimary i code scope table primary =>
    Lands ctx.db code scope table ((findPrimary ctx i code scope table primary).1.itrCache i)
      (findPrimary ctx i code scope table primary).2.1 fun t => landing IndexObject.byPrimary t
        (first (·.primaryKey) (fun o => decide (o.primaryKey = primary)) (rowsOf (·.tId) (ctx.index i) t))
  | .lowerboundPrimary i code scope table primary =>
    Lands ctx.db code scope table ((lowerboundPrimary ctx i code scope table primary).1.itrCache i)
      (lowerboundPrimary ctx i code scope table primary).2 fun t => landing IndexObject.byPrimary t
        (first (·.primaryKey) (fun o => decide (primary ≤ o.primaryKey)) (rowsOf (·.tId) (ctx.index i) t))
  | .upperboundPrimary i code scope table primary =>
    Lands ctx.db code scope table ((upperboundPrimary ctx i code scope table primary).1.itrCache i)
      (upperboundPrimary ctx i code scope table primary).2 fun t => landing IndexObject.byPrimary t
        (first (·.primaryKey) (fun o => decide (primary < o.primaryKey)) (rowsOf (·.tId) (ctx.index i) t))
  | .nextPrimary i iterator =>
    if iterator < -1 then nextPrimary ctx i iterator = .ok (ctx, -1, none)
    else match (ctx.itrCache i).denote iterator with
      | some (.row r) => ∃ o ∈ ctx.index i, o.byPrimary = r ∧
        StepsTo (nextPrimary ctx i iterator) (·.itrCache i) IndexObject.byPrimary (·.primaryKey)
          r.1 (first (·.primaryKey) (fun o' => decide (o.primaryKey < o'.primaryKey))
            (rowsOf (·.tId) (ctx.index i) r.1))
      | _ => ∃ e, nextPrimary ctx i iterator = .error e
  | .previousPrimary i iterator =>
    match (ctx.itrCache i).denote iterator with
    | some (.endOf t) =>
      StepsBackTo (previousPrimary ctx i iterator) (·.itrCache i) IndexObject.byPrimary
        (·.primaryKey) (last (·.primaryKey) (fun _ => true) (rowsOf (·.tId) (ctx.index i) t))
    | some (.row r) => ∃ o ∈ ctx.index i, o.byPrimary = r ∧
      StepsBackTo (previousPrimary ctx i iterator) (·.itrCache i) IndexObject.byPrimary
        (·.primaryKey) (last (·.primaryKey) (fun o' => decide (o'.primaryKey < o.primaryKey))
          (rowsOf (·.tId) (ctx.index i) r.1))
    | none => ∃ e, previousPrimary ctx i iterator = .error e
  | .dbStoreI64 .. | .dbUpdateI64 .. | .dbRemoveI64 .. | .store .. | .update .. | .remove .. => True

end State

/-! ## The searches -/

section Searches
variable {ι : Type} [DecidableEq ι] {σ : ι → Type} [∀ i, LinearOrder (σ i)] {ctx : Context ι σ}
  {c : IteratorCache (Nat × Nat)} {code scope table : Nat}

theorem nodup_keyvalKey {rows : List KeyValueObject}
    (h : (rows.map KeyValueObject.byScopePrimary).Nodup) :
    (rows.map fun o => toLex (o.tId, o.primaryKey)).Nodup :=
  nodup_map_of_determines h fun a b hab => by
    simpa [KeyValueObject.byScopePrimary] using hab

theorem nodup_primaryOrder {τ : Type} {objs : List (IndexObject τ)}
    (h : (objs.map IndexObject.byPrimary).Nodup) :
    (objs.map fun o => toLex (o.tId, o.primaryKey)).Nodup :=
  nodup_map_of_determines h fun a b hab => by
    simpa [IndexObject.byPrimary] using hab

theorem nodup_bySecondary {τ : Type} [LinearOrder τ] {objs : List (IndexObject τ)}
    (h : (objs.map IndexObject.byPrimary).Nodup) :
    (objs.map fun o => toLex (o.tId, secondaryOrder o)).Nodup :=
  nodup_map_of_determines h fun a b hab => by
    simp only [secondaryOrder, EmbeddingLike.apply_eq_iff_eq, Prod.mk.injEq] at hab
    simp [IndexObject.byPrimary, hab]

theorem dbInv_keyvalCache (h : DbInv ctx)
    (hc : CacheOver c (ctx.db.rows.map KeyValueObject.byScopePrimary)) :
    DbInv { ctx with keyvalCache := c } :=
  ⟨h.rows, h.index, hc, h.itr⟩

theorem keeps_keyvalCache (hext : Extends ctx.keyvalCache c) : Keeps ctx { ctx with keyvalCache := c } :=
  ⟨fun it x hx _ => hext it x hx, fun _ _ _ hx _ => hx⟩

theorem dbInv_itrCache (h : DbInv ctx) (i : ι)
    (hc : CacheOver c ((ctx.index i).map IndexObject.byPrimary)) :
    DbInv { ctx with itrCache := Function.update ctx.itrCache i c } := by
  refine ⟨h.rows, h.index, h.keyval, fun j => ?_⟩
  by_cases hj : j = i
  · subst hj
    simpa using hc
  · simpa [Function.update_of_ne hj] using h.itr j

theorem keeps_itrCache (i : ι) (hext : Extends (ctx.itrCache i) c) :
    Keeps ctx { ctx with itrCache := Function.update ctx.itrCache i c } := by
  refine ⟨fun _ _ hx _ => hx, fun j it x hx _ => ?_⟩
  by_cases hj : j = i
  · subst hj
    simpa using hext it x hx
  · simpa [Function.update_of_ne hj] using hx

theorem keyvalSeek_spec (h : DbInv ctx) (code scope table : Nat) (bound hit : Nat → KeyValueObject → Bool)
    (hhit : ∀ t o, hit t o = true → o.tId = t) {found : Nat → Option KeyValueObject}
    (hfound : ∀ t, (first keyvalKey (bound t) ctx.db.rows).filter (hit t) = found t) :
    let res := seek KeyValueObject.byScopePrimary keyvalKey ctx.db ctx.db.rows ctx.keyvalCache
      code scope table bound hit
    Lands ctx.db code scope table res.1 res.2.1 (fun t => landing KeyValueObject.byScopePrimary t (found t)) ∧
      DbInv { ctx with keyvalCache := res.1 } ∧ Keeps ctx { ctx with keyvalCache := res.1 } := by
  intro res
  cases htab : findTable ctx.db code scope table with
  | none =>
    have hres : res = (ctx.keyvalCache, -1, none) := seek_of_none keyvalKey htab
    simp only [Lands, htab, hres]
    exact ⟨trivial, h, keeps_keyvalCache (Extends.refl _)⟩
  | some tab =>
    obtain ⟨hres, hden, hc, hext⟩ := seek_of_some keyvalKey bound h.keyval htab
      fun r hr => hhit _ _ hr
    refine ⟨?_, dbInv_keyvalCache h hc, keeps_keyvalCache hext⟩
    simp only [Lands, htab]
    rw [← hfound, ← hres]
    exact hden

theorem indexSeek_spec (h : DbInv ctx) (i : ι) {κ : Type} [LinearOrder κ] (key : IndexObject (σ i) → κ)
    (code scope table : Nat) (bound hit : Nat → IndexObject (σ i) → Bool) (hhit : ∀ t o, hit t o = true → o.tId = t)
    {found : Nat → Option (IndexObject (σ i))}
    (hfound : ∀ t, (first key (bound t) (ctx.index i)).filter (hit t) = found t) :
    let res := seek IndexObject.byPrimary key ctx.db (ctx.index i) (ctx.itrCache i) code scope table
      bound hit
    Lands ctx.db code scope table (Function.update ctx.itrCache i res.1 i) res.2.1
        (fun t => landing IndexObject.byPrimary t (found t)) ∧
      DbInv { ctx with itrCache := Function.update ctx.itrCache i res.1 } ∧
      Keeps ctx { ctx with itrCache := Function.update ctx.itrCache i res.1 } := by
  intro res
  cases htab : findTable ctx.db code scope table with
  | none =>
    have hres : res = (ctx.itrCache i, -1, none) := seek_of_none key htab
    have hctx : { ctx with itrCache := Function.update ctx.itrCache i (ctx.itrCache i) } = ctx := by
      simp
    simp only [Lands, htab, hres, hctx]
    exact ⟨trivial, h, ⟨fun _ _ hx _ => hx, fun _ _ _ hx _ => hx⟩⟩
  | some tab =>
    obtain ⟨hres, hden, hc, hext⟩ := seek_of_some key bound (h.itr i) htab
      fun r hr => hhit _ _ hr
    refine ⟨?_, dbInv_itrCache h i hc, keeps_itrCache i hext⟩
    simp only [Lands, htab, Function.update_self]
    rw [← hfound, ← hres]
    exact hden

/-! Each search call: the global search, cut at the table, is the search of the table's ordered
map (`first_restrict`, `first_restrict_eq`). -/

theorem dbFindI64_spec (h : DbInv ctx) (code scope table id : Nat) :
    Answers ctx (.dbFindI64 code scope table id) ∧
      DbInv (dbFindI64 ctx code scope table id).1 ∧ Keeps ctx (dbFindI64 ctx code scope table id).1 := by
  have hfound : ∀ t, (first keyvalKey (fun o => decide (toLex (t, id) ≤ keyvalKey o)) ctx.db.rows).filter
      (fun o => decide (o.byScopePrimary = (t, id))) =
        first (·.primaryKey) (fun o => decide (o.primaryKey = id)) (rowsOf (·.tId) ctx.db.rows t) := by
    intro t
    have hhit : (fun o : KeyValueObject => decide (o.byScopePrimary = (t, id))) =
        fun o => decide (o.tId = t ∧ (fun k => k) o.primaryKey = id) := by
      funext o
      simp [KeyValueObject.byScopePrimary]
    rw [hhit]
    exact first_restrict_eq monotone_id
      (fun o => by simp [keyvalKey, KeyValueObject.byScopePrimary, Prod.Lex.toLex_le_toLex, @eq_comm _ t])
      (nodup_keyvalKey h.rows)
  obtain ⟨hlands, hinv, hkeeps⟩ := keyvalSeek_spec h code scope table _ _
    (fun _ _ ho => by simp_all [KeyValueObject.byScopePrimary]) hfound
  exact ⟨hlands, hinv, hkeeps⟩

theorem dbLowerboundI64_spec (h : DbInv ctx) (code scope table id : Nat) :
    Answers ctx (.dbLowerboundI64 code scope table id) ∧
      DbInv (dbLowerboundI64 ctx code scope table id).1 ∧
      Keeps ctx (dbLowerboundI64 ctx code scope table id).1 := by
  obtain ⟨hlands, hinv, hkeeps⟩ := keyvalSeek_spec h code scope table
    (fun t o => decide (toLex (t, id) ≤ keyvalKey o)) (fun t o => decide (o.tId = t))
    (fun _ _ ho => of_decide_eq_true ho) fun t =>
      first_restrict (f := KeyValueObject.tId) (g := KeyValueObject.primaryKey) (q := fun k => decide (id ≤ k))
        (fun o => by simp [keyvalKey, KeyValueObject.byScopePrimary, Prod.Lex.toLex_le_toLex, @eq_comm _ t])
        (nodup_keyvalKey h.rows)
  exact ⟨hlands, hinv, hkeeps⟩

theorem dbUpperboundI64_spec (h : DbInv ctx) (code scope table id : Nat) :
    Answers ctx (.dbUpperboundI64 code scope table id) ∧
      DbInv (dbUpperboundI64 ctx code scope table id).1 ∧
      Keeps ctx (dbUpperboundI64 ctx code scope table id).1 := by
  obtain ⟨hlands, hinv, hkeeps⟩ := keyvalSeek_spec h code scope table
    (fun t o => decide (toLex (t, id) < keyvalKey o)) (fun t o => decide (o.tId = t))
    (fun _ _ ho => of_decide_eq_true ho) fun t =>
      first_restrict (f := KeyValueObject.tId) (g := KeyValueObject.primaryKey) (q := fun k => decide (id < k))
        (fun o => by simp [keyvalKey, KeyValueObject.byScopePrimary, Prod.Lex.toLex_lt_toLex, @eq_comm _ t])
        (nodup_keyvalKey h.rows)
  exact ⟨hlands, hinv, hkeeps⟩

theorem dbEndI64_spec (h : DbInv ctx) (code scope table : Nat) :
    Answers ctx (.dbEndI64 code scope table) ∧
      DbInv (dbEndI64 ctx code scope table).1 ∧ Keeps ctx (dbEndI64 ctx code scope table).1 := by
  cases htab : findTable ctx.db code scope table with
  | none =>
    have hres : seekEnd ctx.db ctx.keyvalCache code scope table = (ctx.keyvalCache, -1) :=
      seekEnd_of_none htab
    simp only [Answers, Lands, dbEndI64, htab, hres]
    exact ⟨trivial, h, keeps_keyvalCache (Extends.refl _)⟩
  | some tab =>
    obtain ⟨hden, hc, hext⟩ := seekEnd_of_some h.keyval htab
    refine ⟨?_, dbInv_keyvalCache h hc, keeps_keyvalCache hext⟩
    simp only [Answers, Lands, htab]
    exact hden

theorem findSecondary_spec (h : DbInv ctx) (i : ι) (code scope table : Nat) (secondary : σ i) :
    Answers ctx (.findSecondary i code scope table secondary) ∧
      DbInv (findSecondary ctx i code scope table secondary).1 ∧
      Keeps ctx (findSecondary ctx i code scope table secondary).1 := by
  obtain ⟨hlands, hinv, hkeeps⟩ := indexSeek_spec h i IndexObject.bySecondary code scope table
    (fun t o => decide (toLex (t, secondary) ≤ toLex (o.tId, o.secondaryKey)))
    (fun t o => decide (o.tId = t ∧ o.secondaryKey = secondary))
    (fun _ _ ho => (of_decide_eq_true ho).1) fun t =>
      first_restrict_eq (f := IndexObject.tId) (g := secondaryOrder) (h := fun k => (ofLex k).1)
        Prod.Lex.monotone_fst_ofLex
        (fun o => by simp [secondaryOrder, Prod.Lex.toLex_le_toLex, @eq_comm _ t])
        (nodup_bySecondary (h.index i))
  exact ⟨hlands, hinv, hkeeps⟩

theorem lowerboundSecondary_spec (h : DbInv ctx) (i : ι) (code scope table : Nat) (secondary : σ i) :
    Answers ctx (.lowerboundSecondary i code scope table secondary) ∧
      DbInv (lowerboundSecondary ctx i code scope table secondary).1 ∧
      Keeps ctx (lowerboundSecondary ctx i code scope table secondary).1 := by
  obtain ⟨hlands, hinv, hkeeps⟩ := indexSeek_spec h i IndexObject.bySecondary code scope table
    (fun t o => decide (toLex (t, secondary) ≤ toLex (o.tId, o.secondaryKey)))
    (fun t o => decide (o.tId = t)) (fun _ _ ho => of_decide_eq_true ho) fun t =>
      first_restrict (f := IndexObject.tId) (g := secondaryOrder)
        (q := fun k => decide (secondary ≤ (ofLex k).1))
        (fun o => by
          show _ ↔ _ ∨ _ ∧ decide (secondary ≤ o.secondaryKey) = true
          simp [Prod.Lex.toLex_le_toLex, @eq_comm _ t])
        (nodup_bySecondary (h.index i))
  exact ⟨hlands, hinv, hkeeps⟩

theorem upperboundSecondary_spec (h : DbInv ctx) (i : ι) (code scope table : Nat) (secondary : σ i) :
    Answers ctx (.upperboundSecondary i code scope table secondary) ∧
      DbInv (upperboundSecondary ctx i code scope table secondary).1 ∧
      Keeps ctx (upperboundSecondary ctx i code scope table secondary).1 := by
  obtain ⟨hlands, hinv, hkeeps⟩ := indexSeek_spec h i IndexObject.bySecondary code scope table
    (fun t o => decide (toLex (t, secondary) < toLex (o.tId, o.secondaryKey)))
    (fun t o => decide (o.tId = t)) (fun _ _ ho => of_decide_eq_true ho) fun t =>
      first_restrict (f := IndexObject.tId) (g := secondaryOrder)
        (q := fun k => decide (secondary < (ofLex k).1))
        (fun o => by
          show _ ↔ _ ∨ _ ∧ decide (secondary < o.secondaryKey) = true
          simp [Prod.Lex.toLex_lt_toLex, @eq_comm _ t])
        (nodup_bySecondary (h.index i))
  exact ⟨hlands, hinv, hkeeps⟩

theorem endSecondary_spec (h : DbInv ctx) (i : ι) (code scope table : Nat) :
    Answers ctx (.endSecondary i code scope table) ∧
      DbInv (endSecondary ctx i code scope table).1 ∧ Keeps ctx (endSecondary ctx i code scope table).1 := by
  cases htab : findTable ctx.db code scope table with
  | none =>
    have hres : seekEnd ctx.db (ctx.itrCache i) code scope table = (ctx.itrCache i, -1) :=
      seekEnd_of_none htab
    have hctx : { ctx with itrCache := Function.update ctx.itrCache i (ctx.itrCache i) } = ctx := by
      simp
    simp only [Answers, Lands, endSecondary, htab, hres, hctx]
    exact ⟨trivial, h, ⟨fun _ _ hx _ => hx, fun _ _ _ hx _ => hx⟩⟩
  | some tab =>
    obtain ⟨hden, hc, hext⟩ := seekEnd_of_some (h.itr i) htab
    refine ⟨?_, dbInv_itrCache h i hc, keeps_itrCache i hext⟩
    simp only [Answers, Lands, endSecondary, htab, Function.update_self]
    exact hden

theorem findPrimary_spec (h : DbInv ctx) (i : ι) (code scope table primary : Nat) :
    Answers ctx (.findPrimary i code scope table primary) ∧
      DbInv (findPrimary ctx i code scope table primary).1 ∧
      Keeps ctx (findPrimary ctx i code scope table primary).1 := by
  have hfound : ∀ t, (first IndexObject.primaryOrder (fun o => decide (toLex (t, primary) ≤ o.primaryOrder))
      (ctx.index i)).filter (fun o => decide (o.byPrimary = (t, primary))) =
        first (·.primaryKey) (fun o => decide (o.primaryKey = primary)) (rowsOf (·.tId) (ctx.index i) t) := by
    intro t
    have hhit : (fun o : IndexObject (σ i) => decide (o.byPrimary = (t, primary))) =
        fun o => decide (o.tId = t ∧ (fun k => k) o.primaryKey = primary) := by
      funext o
      simp [IndexObject.byPrimary]
    rw [hhit]
    exact first_restrict_eq monotone_id
      (fun o => by simp [IndexObject.primaryOrder, IndexObject.byPrimary, Prod.Lex.toLex_le_toLex,
        @eq_comm _ t])
      (nodup_primaryOrder (h.index i))
  obtain ⟨hlands, hinv, hkeeps⟩ := indexSeek_spec h i _ code scope table _ _
    (fun _ _ ho => by simp_all [IndexObject.byPrimary]) hfound
  exact ⟨hlands, hinv, hkeeps⟩

theorem lowerboundPrimary_spec (h : DbInv ctx) (i : ι) (code scope table primary : Nat) :
    Answers ctx (.lowerboundPrimary i code scope table primary) ∧
      DbInv (lowerboundPrimary ctx i code scope table primary).1 ∧
      Keeps ctx (lowerboundPrimary ctx i code scope table primary).1 := by
  obtain ⟨hlands, hinv, hkeeps⟩ := indexSeek_spec h i IndexObject.primaryOrder code scope table
    (fun t o => decide (toLex (t, primary) ≤ o.primaryOrder))
    (fun t o => decide (o.tId = t)) (fun _ _ ho => of_decide_eq_true ho) fun t =>
      first_restrict (f := IndexObject.tId) (g := IndexObject.primaryKey) (q := fun k => decide (primary ≤ k))
        (fun o => by simp [IndexObject.primaryOrder, IndexObject.byPrimary, Prod.Lex.toLex_le_toLex,
          @eq_comm _ t])
        (nodup_primaryOrder (h.index i))
  exact ⟨hlands, hinv, hkeeps⟩

/-- **`upperbound_primary` is the shared search**: its second `cache_table` finds the table it
has just cached -/
theorem upperboundPrimary_eq_seek (ctx : Context ι σ) (i : ι) (code scope table primary : Nat) :
    upperboundPrimary ctx i code scope table primary =
      let (c, itr, _) := seek IndexObject.byPrimary IndexObject.primaryOrder ctx.db (ctx.index i)
        (ctx.itrCache i) code scope table
        (fun t o => decide (toLex (t, primary) < o.primaryOrder)) (fun t o => decide (o.tId = t))
      ({ ctx with itrCache := Function.update ctx.itrCache i c }, itr) := by
  unfold upperboundPrimary seek
  cases findTable ctx.db code scope table with
  | none => simp
  | some tab =>
    dsimp only
    split
    · next hnone => simp only [hnone]
    · next itr hsome => simp only [hsome, cacheTable_cacheTable]

theorem upperboundPrimary_spec (h : DbInv ctx) (i : ι) (code scope table primary : Nat) :
    Answers ctx (.upperboundPrimary i code scope table primary) ∧
      DbInv (upperboundPrimary ctx i code scope table primary).1 ∧
      Keeps ctx (upperboundPrimary ctx i code scope table primary).1 := by
  obtain ⟨hlands, hinv, hkeeps⟩ := indexSeek_spec h i IndexObject.primaryOrder code scope table
    (fun t o => decide (toLex (t, primary) < o.primaryOrder))
    (fun t o => decide (o.tId = t)) (fun _ _ ho => of_decide_eq_true ho) fun t =>
      first_restrict (f := IndexObject.tId) (g := IndexObject.primaryKey) (q := fun k => decide (primary < k))
        (fun o => by simp [IndexObject.primaryOrder, IndexObject.byPrimary, Prod.Lex.toLex_lt_toLex,
          @eq_comm _ t])
        (nodup_primaryOrder (h.index i))
  simp only [Answers, upperboundPrimary_eq_seek]
  exact ⟨hlands, hinv, hkeeps⟩

/-! `++itr` and `--itr` in an index whose key starts with the table id: the step in the order of
the table's own map. -/

section InTable
variable {ρ τ : Type} [LinearOrder τ] {ident : ρ → Nat × Nat} (tId : ρ → Nat) {g : ρ → τ}
  (key : ρ → Lex (Nat × τ)) {rows : List ρ} {iterator : Int}
  (htId : ∀ r, (ident r).1 = tId r) (hkey : ∀ r, key r = toLex (tId r, g r))

include htId hkey in
theorem seekNext_in_table (hc : CacheOver c (rows.map ident)) (hnd : (rows.map ident).Nodup)
    (hinj : (rows.map key).Nodup) {r : Nat × Nat} (hden : c.denote iterator = some (.row r)) :
    ∃ obj ∈ rows, ident obj = r ∧ ∃ c' itr,
      seekNext ident key rows c iterator =
        .ok (c', itr, first g (fun o => decide (g obj < g o)) (rowsOf tId rows r.1)) ∧
      c'.denote itr = some (landing ident r.1 (first g (fun o => decide (g obj < g o)) (rowsOf tId rows r.1))) ∧
      CacheOver c' (rows.map ident) ∧ Extends c c' := by
  obtain ⟨obj, hobj, rfl, c', itr, hres, hden', hc', hext⟩ := seekNext_of_row key hc hnd hden
  have hfound : (first key (fun r' => decide (key obj < key r')) rows).filter
      (fun r' => decide ((ident r').1 = (ident obj).1)) =
        first g (fun o => decide (g obj < g o)) (rowsOf tId rows (ident obj).1) := by
    obtain rfl : key = fun r => toLex (tId r, g r) := funext hkey
    simp only [htId]
    exact first_restrict (q := fun k => decide (g obj < k))
      (fun o => by simp [Prod.Lex.toLex_lt_toLex, @eq_comm _ (tId obj)]) hinj
  rw [hfound] at hres hden'
  exact ⟨obj, hobj, rfl, c', itr, hres, hden', hc', hext⟩

include htId hkey in
theorem seekPrevious_in_table (hc : CacheOver c (rows.map ident)) (hnd : (rows.map ident).Nodup)
    (hinj : (rows.map key).Nodup) {r : Nat × Nat} (hden : c.denote iterator = some (.row r)) :
    ∃ obj ∈ rows, ident obj = r ∧ ∃ c' itr,
      seekPrevious ident key rows c iterator =
        .ok (c', itr, last g (fun o => decide (g o < g obj)) (rowsOf tId rows r.1)) ∧
      c'.denote itr = (last g (fun o => decide (g o < g obj)) (rowsOf tId rows r.1)).map
        (fun o => .row (ident o)) ∧
      (last g (fun o => decide (g o < g obj)) (rowsOf tId rows r.1) = none → itr = -1) ∧
      CacheOver c' (rows.map ident) ∧ Extends c c' := by
  obtain ⟨obj, hobj, rfl, c', itr, hres, hden', hnone, hc', hext⟩ := seekPrevious_of_row key hc hnd hden
  have hfound : (last key (fun r' => decide (key r' < key obj)) rows).filter
      (fun r' => decide ((ident r').1 = (ident obj).1)) =
        last g (fun o => decide (g o < g obj)) (rowsOf tId rows (ident obj).1) := by
    obtain rfl : key = fun r => toLex (tId r, g r) := funext hkey
    simp only [htId]
    exact last_restrict (q := fun k => decide (k < g obj)) (fun o => by simp [Prod.Lex.toLex_lt_toLex]) hinj
  rw [hfound] at hres hden' hnone
  exact ⟨obj, hobj, rfl, c', itr, hres, hden', hnone, hc', hext⟩

include htId hkey in
theorem seekPrevious_end_in_table (hc : CacheOver c (rows.map ident)) (hinj : (rows.map key).Nodup)
    {t : Nat} (hden : c.denote iterator = some (.endOf t)) :
    ∃ c' itr,
      seekPrevious ident key rows c iterator = .ok (c', itr, last g (fun _ => true) (rowsOf tId rows t)) ∧
      c'.denote itr = (last g (fun _ => true) (rowsOf tId rows t)).map (fun o => .row (ident o)) ∧
      (last g (fun _ => true) (rowsOf tId rows t) = none → itr = -1) ∧
      CacheOver c' (rows.map ident) ∧ Extends c c' := by
  obtain ⟨c', itr, hres, hden', hnone, hc', hext⟩ := seekPrevious_of_end key hc hden
  have hfound : (last key (fun r' => decide ((ident r').1 ≤ t)) rows).filter
      (fun r' => decide ((ident r').1 = t)) = last g (fun _ => true) (rowsOf tId rows t) := by
    obtain rfl : key = fun r => toLex (tId r, g r) := funext hkey
    simp only [htId]
    exact last_restrict (q := fun _ => true) (fun o => by simp [le_iff_lt_or_eq]) hinj
  rw [hfound] at hres hden' hnone
  exact ⟨c', itr, hres, hden', hnone, hc', hext⟩

end InTable

theorem dbNextI64_spec (h : DbInv ctx) (iterator : Int) : Answers ctx (.dbNextI64 iterator) := by
  simp only [Answers]
  split_ifs with hlt
  · rw [dbNextI64, seekNext_of_lt keyvalKey hlt]
    rfl
  split
  · next r hden =>
    obtain ⟨obj, hobj, rfl, c', itr, hres, hden', -, -⟩ := seekNext_in_table KeyValueObject.tId keyvalKey
      (g := KeyValueObject.primaryKey) (fun _ => rfl) (fun _ => rfl)
      h.keyval h.rows (nodup_keyvalKey h.rows) hden
    refine ⟨obj, hobj, rfl, { ctx with keyvalCache := c' }, itr, ?_, hden'⟩
    rw [dbNextI64, hres]
    rfl
  · next hrow =>
    obtain ⟨e, he⟩ := seekNext_of_not_row keyvalKey KeyValueObject.byScopePrimary
      (ctx.db.rows) hlt hrow
    exact ⟨e, by rw [dbNextI64, he]; rfl⟩

theorem dbPreviousI64_spec (h : DbInv ctx) (iterator : Int) : Answers ctx (.dbPreviousI64 iterator) := by
  simp only [Answers]
  split
  · next t hden =>
    obtain ⟨c', itr, hres, hden', hnone, -, -⟩ := seekPrevious_end_in_table KeyValueObject.tId keyvalKey
      (g := KeyValueObject.primaryKey) (fun _ => rfl) (fun _ => rfl)
      h.keyval (nodup_keyvalKey h.rows) hden
    exact ⟨{ ctx with keyvalCache := c' }, itr, by rw [dbPreviousI64, hres]; rfl, hnone, hden'⟩
  · next r hden =>
    obtain ⟨obj, hobj, rfl, c', itr, hres, hden', hnone, -, -⟩ := seekPrevious_in_table KeyValueObject.tId keyvalKey
      (g := KeyValueObject.primaryKey) (fun _ => rfl) (fun _ => rfl)
      h.keyval h.rows (nodup_keyvalKey h.rows) hden
    exact ⟨obj, hobj, rfl, { ctx with keyvalCache := c' }, itr, by rw [dbPreviousI64, hres]; rfl, hnone,
      hden'⟩
  · next hden =>
    obtain ⟨e, he⟩ := seekPrevious_of_none keyvalKey KeyValueObject.byScopePrimary
      (ctx.db.rows) hden
    exact ⟨e, by rw [dbPreviousI64, he]; rfl⟩

theorem indexNext_spec (h : DbInv ctx) (i : ι) {τ : Type} [LinearOrder τ] {g : IndexObject (σ i) → τ}
    {key : IndexObject (σ i) → Lex (Nat × τ)} (hkey : ∀ r, key r = toLex (r.tId, g r))
    (hinj : ((ctx.index i).map key).Nodup) (iterator : Int) :
    let res : Except String (Context ι σ × Int × Option Nat) := do
      let (c, itr, obj) ← seekNext IndexObject.byPrimary key (ctx.index i) (ctx.itrCache i) iterator
      pure ({ ctx with itrCache := Function.update ctx.itrCache i c }, itr, obj.map (·.primaryKey))
    if iterator < -1 then res = .ok (ctx, -1, none)
    else match (ctx.itrCache i).denote iterator with
      | some (.row r) => ∃ o ∈ ctx.index i, o.byPrimary = r ∧
        StepsTo res (·.itrCache i) IndexObject.byPrimary (·.primaryKey) r.1
          (first g (fun o' => decide (g o < g o')) (rowsOf (·.tId) (ctx.index i) r.1))
      | _ => ∃ e, res = .error e := by
  intro res
  split_ifs with hlt
  · have hctx : { ctx with itrCache := Function.update ctx.itrCache i (ctx.itrCache i) } = ctx := by
      simp
    simp only [res, seekNext_of_lt key hlt, ok_bind, hctx]
    rfl
  split
  · next r hden =>
    obtain ⟨obj, hobj, rfl, c', itr, hres, hden', -, -⟩ := seekNext_in_table IndexObject.tId key
      (g := g) (fun _ => rfl) hkey (h.itr i) (h.index i) hinj hden
    refine ⟨obj, hobj, rfl, { ctx with itrCache := Function.update ctx.itrCache i c' }, itr, ?_, ?_⟩
    · simp only [res, hres]
      rfl
    · simpa using hden'
  · next hrow =>
    obtain ⟨e, he⟩ := seekNext_of_not_row key IndexObject.byPrimary
      (ctx.index i) hlt hrow
    exact ⟨e, by simp only [res, he]; rfl⟩

theorem nextSecondary_spec (h : DbInv ctx) (i : ι) (iterator : Int) :
    Answers ctx (.nextSecondary i iterator) :=
  indexNext_spec h i (g := secondaryOrder) (fun _ => rfl) (nodup_bySecondary (h.index i)) iterator

theorem nextPrimary_spec (h : DbInv ctx) (i : ι) (iterator : Int) :
    Answers ctx (.nextPrimary i iterator) :=
  indexNext_spec h i (g := IndexObject.primaryKey) (fun _ => rfl) (nodup_primaryOrder (h.index i)) iterator

theorem indexPrevious_spec (h : DbInv ctx) (i : ι) {τ : Type} [LinearOrder τ] {g : IndexObject (σ i) → τ}
    {key : IndexObject (σ i) → Lex (Nat × τ)} (hkey : ∀ r, key r = toLex (r.tId, g r))
    (hinj : ((ctx.index i).map key).Nodup) (iterator : Int) :
    let res : Except String (Context ι σ × Int × Option Nat) := do
      let (c, itr, obj) ← seekPrevious IndexObject.byPrimary key (ctx.index i) (ctx.itrCache i) iterator
      pure ({ ctx with itrCache := Function.update ctx.itrCache i c }, itr, obj.map (·.primaryKey))
    match (ctx.itrCache i).denote iterator with
    | some (.endOf t) =>
      StepsBackTo res (·.itrCache i) IndexObject.byPrimary (·.primaryKey)
        (last g (fun _ => true) (rowsOf (·.tId) (ctx.index i) t))
    | some (.row r) => ∃ o ∈ ctx.index i, o.byPrimary = r ∧
      StepsBackTo res (·.itrCache i) IndexObject.byPrimary (·.primaryKey)
        (last g (fun o' => decide (g o' < g o)) (rowsOf (·.tId) (ctx.index i) r.1))
    | none => ∃ e, res = .error e := by
  intro res
  split
  · next t hden =>
    obtain ⟨c', itr, hres, hden', hnone, -, -⟩ := seekPrevious_end_in_table IndexObject.tId key
      (g := g) (fun _ => rfl) hkey (h.itr i) hinj hden
    refine ⟨{ ctx with itrCache := Function.update ctx.itrCache i c' }, itr, ?_, hnone, by simpa using hden'⟩
    simp only [res, hres]
    rfl
  · next r hden =>
    obtain ⟨obj, hobj, rfl, c', itr, hres, hden', hnone, -, -⟩ := seekPrevious_in_table IndexObject.tId key
      (g := g) (fun _ => rfl) hkey (h.itr i) (h.index i) hinj hden
    refine ⟨obj, hobj, rfl, { ctx with itrCache := Function.update ctx.itrCache i c' }, itr, ?_, hnone,
      by simpa using hden'⟩
    simp only [res, hres]
    rfl
  · next hden =>
    obtain ⟨e, he⟩ := seekPrevious_of_none key IndexObject.byPrimary
      (ctx.index i) hden
    exact ⟨e, by simp only [res, he]; rfl⟩

theorem previousSecondary_spec (h : DbInv ctx) (i : ι) (iterator : Int) :
    Answers ctx (.previousSecondary i iterator) :=
  indexPrevious_spec h i (g := secondaryOrder) (fun _ => rfl) (nodup_bySecondary (h.index i)) iterator

theorem previousPrimary_spec (h : DbInv ctx) (i : ι) (iterator : Int) :
    Answers ctx (.previousPrimary i iterator) :=
  indexPrevious_spec h i (g := IndexObject.primaryKey) (fun _ => rfl) (nodup_primaryOrder (h.index i))
    iterator

end Searches

/-! ## The writes -/

section RamRows
variable {env : ApplyEnv} {st st' : RamState}

/-! What the paths of `Ram` leave of the rows of the primary index. -/

theorem rows_of_updateDbUsage {payer : Nat} {delta : Int} (h : updateDbUsage env st payer delta = .ok st') :
    st'.rows = st.rows := by
  obtain ⟨limits, rfl, -⟩ := addRamUsage_eq_ok (updateDbUsage_eq_ok h)
  rfl

theorem rows_of_findOrCreateTable {code scope table payer : Nat} {t : TableIdObject}
    (h : findOrCreateTable env st code scope table payer = .ok (st', t)) : st'.rows = st.rows := by
  unfold findOrCreateTable at h
  split at h
  · cases h
    rfl
  · obtain ⟨st1, h1, h⟩ := bind_eq_ok.mp h
    cases h
    exact (rows_of_updateDbUsage h1 :)

theorem rows_of_removeTable {i : Nat} {t : TableIdObject} (h : removeTable env st i t = .ok st') :
    st'.rows = st.rows := by
  unfold removeTable at h
  obtain ⟨st1, h1, h⟩ := bind_eq_ok.mp h
  cases h
  exact (rows_of_updateDbUsage h1 :)

theorem rows_of_dbStoreI64 {scope table payer id : Nat} {buffer : Bytes}
    (h : Ram.dbStoreI64 env st scope table payer id buffer = .ok st') :
    ∃ st1 tab, findOrCreateTable env st env.receiver scope table payer = .ok (st1, tab) ∧
      st'.rows = st.rows ++ [⟨tab.id, id, buffer, payer⟩] ∧
      ∀ r ∈ st.rows, r.byScopePrimary ≠ (tab.id, id) := by
  unfold Ram.dbStoreI64 at h
  obtain ⟨⟨st1, tab⟩, h1, h⟩ := bind_eq_ok.mp h
  obtain ⟨-, h⟩ := assert_bind_eq_ok.mp h
  obtain ⟨hnew, h⟩ := assert_bind_eq_ok.mp h
  obtain ⟨_, -, h⟩ := bind_eq_ok.mp h
  have hrows1 := rows_of_findOrCreateTable h1
  refine ⟨st1, tab, h1, ?_, fun r hr => ?_⟩
  · rw [rows_of_updateDbUsage h, ← hrows1]
  · have hnone := findKey_eq_none (Option.isNone_iff_eq_none.mp hnew) r (hrows1 ▸ hr)
    simpa [KeyValueObject.byScopePrimary] using hnone

theorem rows_of_dbUpdateI64 {iterator : Nat × Nat} {payer : Nat} {buffer : Bytes}
    (h : Ram.dbUpdateI64 env st iterator payer buffer = .ok st') :
    st'.rows.map KeyValueObject.byScopePrimary = st.rows.map KeyValueObject.byScopePrimary := by
  unfold Ram.dbUpdateI64 at h
  obtain ⟨⟨i, obj⟩, hrow, h⟩ := bind_eq_ok.mp h
  obtain ⟨_, -, h⟩ := bind_eq_ok.mp h
  obtain ⟨-, h⟩ := assert_bind_eq_ok.mp h
  dsimp only at h
  generalize (if payer = 0 then obj.payer else payer) = payer' at h
  have hi := (getKey_eq_ok hrow).1
  have hset : ∀ st1 : RamState, st1.rows = st.rows →
      (st1.rows.set i { obj with value := buffer, payer := payer' }).map KeyValueObject.byScopePrimary =
        st.rows.map KeyValueObject.byScopePrimary := by
    intro st1 hrows1
    obtain ⟨hlt, hget⟩ := List.getElem?_eq_some_iff.mp hi
    rw [hrows1]
    exact map_set_of_key hlt (by rw [hget]; rfl)
  split at h
  · obtain ⟨st1, h1, h⟩ := bind_eq_ok.mp h
    obtain ⟨st2, h2, h⟩ := bind_eq_ok.mp h
    cases h
    exact hset st2 ((rows_of_updateDbUsage h2).trans (rows_of_updateDbUsage h1))
  · split at h
    · obtain ⟨st1, h1, h⟩ := bind_eq_ok.mp h
      cases h
      exact hset st1 (rows_of_updateDbUsage h1)
    · cases h
      exact hset st rfl

theorem rows_of_dbRemoveI64 {iterator : Nat × Nat} (h : Ram.dbRemoveI64 env st iterator = .ok st') :
    ∃ i obj, st.rows[i]? = some obj ∧ obj.byScopePrimary = iterator ∧ st'.rows = st.rows.eraseIdx i := by
  unfold Ram.dbRemoveI64 at h
  obtain ⟨⟨i, obj⟩, hrow, h⟩ := bind_eq_ok.mp h
  obtain ⟨_, -, h⟩ := bind_eq_ok.mp h
  obtain ⟨-, h⟩ := assert_bind_eq_ok.mp h
  obtain ⟨st1, h1, h⟩ := bind_eq_ok.mp h
  refine ⟨i, obj, (getKey_eq_ok hrow).1, (getKey_eq_ok hrow).2, ?_⟩
  dsimp only at h
  split at h
  · rw [rows_of_removeTable h, rows_of_updateDbUsage h1]
  · cases h
    rw [rows_of_updateDbUsage h1]

end RamRows

section Writes
variable {ι : Type} [DecidableEq ι] {σ : ι → Type} [∀ i, LinearOrder (σ i)] {ctx : Context ι σ}
  {env : ApplyEnv}

theorem cacheOver_remove {ρ : Type} {ident : ρ → Nat × Nat} {rows : List ρ} {c c' : IteratorCache (Nat × Nat)}
    {it : Int} {k : Nat} {obj : ρ} (hc : CacheOver c (rows.map ident)) (hnd : (rows.map ident).Nodup)
    (hget : c.get it = .ok (ident obj)) (hk : rows[k]? = some obj) (hrm : c.remove it = .ok c') :
    CacheOver c' ((rows.eraseIdx k).map ident) ∧
      ∀ it' x, c.denote it' = some x → (∀ r, x = .row r → r ∈ (rows.eraseIdx k).map ident) →
        c'.denote it' = some x := by
  have hids := mem_map_eraseIdx hnd hk
  refine ⟨⟨cacheInv_remove hc.inv hrm, fun r hr => ?_⟩, fun it' x hx hlive => ?_⟩
  · obtain ⟨hr, hne⟩ := mem_remove hc.inv hrm hget hr
    exact (hids r).mpr ⟨hc.live r hr, hne⟩
  · by_cases hit : it' = it
    · -- the iterator removed stood for the row erased, which is gone
      subst hit
      have hx' : x = .row (ident obj) := by
        rw [get_eq_ok.mp hget] at hx
        exact (Option.some.inj hx).symm
      exact absurd rfl ((hids _).mp (hlive _ hx')).2
    · rw [denote_remove hrm hit]
      exact hx

theorem dbInv_index (h : DbInv ctx) {db : RamState} (hdb : db.rows = ctx.db.rows) (i : ι)
    {objs : List (IndexObject (σ i))} {c : IteratorCache (Nat × Nat)}
    (hnd : (objs.map IndexObject.byPrimary).Nodup) (hc : CacheOver c (objs.map IndexObject.byPrimary)) :
    DbInv { ctx with db, index := Function.update ctx.index i objs,
                     itrCache := Function.update ctx.itrCache i c } := by
  refine ⟨by simpa [hdb] using h.rows, fun j => ?_, by simpa [hdb] using h.keyval, fun j => ?_⟩
  · by_cases hj : j = i
    · subst hj
      simpa using hnd
    · simpa [Function.update_of_ne hj] using h.index j
  · by_cases hj : j = i
    · subst hj
      simpa using hc
    · simpa [Function.update_of_ne hj] using h.itr j

theorem keeps_index {db : RamState} (i : ι)
    {objs : List (IndexObject (σ i))} {c : IteratorCache (Nat × Nat)}
    (hkeep : ∀ it x, (ctx.itrCache i).denote it = some x →
      (∀ r, x = .row r → r ∈ objs.map IndexObject.byPrimary) → c.denote it = some x) :
    Keeps ctx { ctx with db, index := Function.update ctx.index i objs,
                         itrCache := Function.update ctx.itrCache i c } := by
  refine ⟨fun _ _ hx _ => hx, fun j it x hx hlive => ?_⟩
  by_cases hj : j = i
  · subst hj
    simp only [Function.update_self] at hlive ⊢
    exact hkeep it x hx hlive
  · simpa [Function.update_of_ne hj] using hx

theorem dbStoreI64_inv (h : DbInv ctx) {scope table payer id : Nat} {buffer : Bytes}
    {res : Context ι σ × Int} (hres : dbStoreI64 env ctx scope table payer id buffer = .ok res) :
    DbInv res.1 ∧ Keeps ctx res.1 := by
  obtain ⟨db, hdb, hres⟩ := bind_eq_ok.mp hres
  obtain ⟨⟨_, tab⟩, htab, hres⟩ := bind_eq_ok.mp hres
  cases hres
  obtain ⟨_, tab', htab', hrows, hnew⟩ := rows_of_dbStoreI64 hdb
  obtain rfl : tab' = tab := by
    rw [htab] at htab'
    cases htab'
    rfl
  have hsub : ∀ r ∈ ctx.db.rows.map KeyValueObject.byScopePrimary,
      r ∈ db.rows.map KeyValueObject.byScopePrimary := fun r hr => by
    rw [hrows, List.map_append]
    exact List.mem_append_left _ hr
  have hmem : (tab'.id, id) ∈ db.rows.map KeyValueObject.byScopePrimary := by
    simp [hrows, KeyValueObject.byScopePrimary]
  obtain ⟨hc, hext, -⟩ := cacheOver_land (h.keyval.mono hsub) hmem rfl
  refine ⟨⟨?_, h.index, hc, h.itr⟩, fun it x hx _ => hext it x hx, fun _ _ _ hx _ => hx⟩
  rw [hrows]
  exact nodup_map_append h.rows hnew

theorem dbUpdateI64_inv (h : DbInv ctx) {iterator : Int} {payer : Nat} {buffer : Bytes}
    {ctx' : Context ι σ} (hres : dbUpdateI64 env ctx iterator payer buffer = .ok ctx') :
    DbInv ctx' ∧ Keeps ctx ctx' := by
  obtain ⟨_, -, hres⟩ := bind_eq_ok.mp hres
  obtain ⟨_, -, hres⟩ := bind_eq_ok.mp hres
  obtain ⟨db, hdb, hres⟩ := bind_eq_ok.mp hres
  cases hres
  have hids := rows_of_dbUpdateI64 hdb
  refine ⟨⟨?_, h.index, ?_, h.itr⟩, fun _ _ hx _ => hx, fun _ _ _ hx _ => hx⟩
  · simpa [hids] using h.rows
  · simpa [hids] using h.keyval

theorem dbRemoveI64_inv (h : DbInv ctx) {iterator : Int} {ctx' : Context ι σ}
    (hres : dbRemoveI64 env ctx iterator = .ok ctx') : DbInv ctx' ∧ Keeps ctx ctx' := by
  obtain ⟨objId, hget, hres⟩ := bind_eq_ok.mp hres
  obtain ⟨_, -, hres⟩ := bind_eq_ok.mp hres
  obtain ⟨db, hdb, hres⟩ := bind_eq_ok.mp hres
  obtain ⟨c, hrm, hres⟩ := bind_eq_ok.mp hres
  cases hres
  obtain ⟨k, obj, hk, rfl, hrows⟩ := rows_of_dbRemoveI64 hdb
  obtain ⟨hc, hkeep⟩ := cacheOver_remove h.keyval h.rows hget hk hrm
  refine ⟨⟨?_, h.index, ?_, h.itr⟩, fun it x hx hlive => ?_, fun _ _ _ hx _ => hx⟩
  · rw [hrows]
    exact h.rows.sublist ((List.eraseIdx_sublist _ _).map _)
  · simpa [hrows] using hc
  · exact hkeep it x hx (by simpa [hrows] using hlive)

theorem store_inv (h : DbInv ctx) {billable : Nat} {i : ι} {scope table payer id : Nat} {value : σ i}
    {res : Context ι σ × Int} (hres : store env billable ctx i scope table payer id value = .ok res) :
    DbInv res.1 ∧ Keeps ctx res.1 := by
  obtain ⟨-, hres⟩ := assert_bind_eq_ok.mp hres
  obtain ⟨⟨db1, tab⟩, htab, hres⟩ := bind_eq_ok.mp hres
  obtain ⟨hnew, hres⟩ := assert_bind_eq_ok.mp hres
  obtain ⟨_, -, hres⟩ := bind_eq_ok.mp hres
  obtain ⟨db, hdb, hres⟩ := bind_eq_ok.mp hres
  cases hres
  have hrows : db.rows = ctx.db.rows :=
    (rows_of_updateDbUsage hdb).trans (rows_of_findOrCreateTable htab :)
  have hfresh : ∀ o ∈ ctx.index i,
      o.byPrimary ≠ (⟨tab.id, id, payer, value⟩ : IndexObject (σ i)).byPrimary :=
    findKey_eq_none (Option.isNone_iff_eq_none.mp hnew)
  have hsub : ∀ r ∈ (ctx.index i).map IndexObject.byPrimary,
      r ∈ (ctx.index i ++ [(⟨tab.id, id, payer, value⟩ : IndexObject (σ i))]).map IndexObject.byPrimary :=
    fun r hr => by
    rw [List.map_append]
    exact List.mem_append_left _ hr
  obtain ⟨hc, hext, -⟩ := cacheOver_land ((h.itr i).mono hsub) (r := (tab.id, id)) (by simp [IndexObject.byPrimary]) rfl
  exact ⟨dbInv_index h hrows i (nodup_map_append (h.index i) hfresh) hc,
    keeps_index i fun it x hx _ => hext it x hx⟩

theorem remove_inv (h : DbInv ctx) {billable : Nat} {i : ι} {iterator : Int} {ctx' : Context ι σ}
    (hres : remove env billable ctx i iterator = .ok ctx') : DbInv ctx' ∧ Keeps ctx ctx' := by
  obtain ⟨objId, hget, hres⟩ := bind_eq_ok.mp hres
  obtain ⟨⟨k, obj⟩, hkey, hres⟩ := bind_eq_ok.mp hres
  obtain ⟨db1, hdb1, hres⟩ := bind_eq_ok.mp hres
  obtain ⟨_, -, hres⟩ := bind_eq_ok.mp hres
  obtain ⟨_, -, hres⟩ := bind_eq_ok.mp hres
  obtain ⟨-, hres⟩ := assert_bind_eq_ok.mp hres
  dsimp only at hres
  obtain ⟨db, hrows, hres⟩ : ∃ db : RamState, db.rows = db1.rows ∧
      (do
        let c ← (ctx.itrCache i).remove iterator
        pure { ctx with db, index := Function.update ctx.index i ((ctx.index i).eraseIdx k),
                        itrCache := Function.update ctx.itrCache i c } :
        Except String (Context ι σ)) = .ok ctx' := by
    split at hres
    · obtain ⟨db, hdb, hres⟩ := bind_eq_ok.mp hres
      exact ⟨db, (rows_of_removeTable hdb :), hres⟩
    · exact ⟨_, by rfl, hres⟩
  obtain ⟨c, hrm, hres⟩ := bind_eq_ok.mp hres
  cases hres
  have hrows : db.rows = ctx.db.rows := hrows.trans (rows_of_updateDbUsage hdb1)
  obtain ⟨hk, rfl⟩ := getKey_eq_ok hkey
  obtain ⟨hc, hkeep⟩ := cacheOver_remove (h.itr i) (h.index i) hget hk hrm
  exact ⟨dbInv_index h hrows i ((h.index i).sublist ((List.eraseIdx_sublist _ _).map _)) hc,
    keeps_index i hkeep⟩

theorem update_inv (h : DbInv ctx) {billable : Nat} {i : ι} {iterator : Int} {payer : Nat}
    {secondary : σ i} {ctx' : Context ι σ}
    (hres : update env billable ctx i iterator payer secondary = .ok ctx') : DbInv ctx' ∧ Keeps ctx ctx' := by
  obtain ⟨objId, -, hres⟩ := bind_eq_ok.mp hres
  obtain ⟨⟨k, obj⟩, hkey, hres⟩ := bind_eq_ok.mp hres
  obtain ⟨_, -, hres⟩ := bind_eq_ok.mp hres
  obtain ⟨_, -, hres⟩ := bind_eq_ok.mp hres
  obtain ⟨-, hres⟩ := assert_bind_eq_ok.mp hres
  dsimp only at hres
  generalize (if payer = 0 then obj.payer else payer) = payer' at hres
  obtain ⟨db, hrows, hres⟩ : ∃ db : RamState, db.rows = ctx.db.rows ∧
      (.ok { ctx with
              db,
              index := Function.update ctx.index i
                ((ctx.index i).set k { obj with secondaryKey := secondary, payer := payer' }) } :
        Except String (Context ι σ)) = .ok ctx' := by
    split at hres
    · obtain ⟨db1, hdb1, hres⟩ := bind_eq_ok.mp hres
      obtain ⟨db, hdb, hres⟩ := bind_eq_ok.mp hres
      exact ⟨db, (rows_of_updateDbUsage hdb).trans (rows_of_updateDbUsage hdb1), hres⟩
    · exact ⟨_, by rfl, hres⟩
  cases hres
  obtain ⟨hlt, hget⟩ := List.getElem?_eq_some_iff.mp (getKey_eq_ok hkey).1
  have hids : ((ctx.index i).set k { obj with secondaryKey := secondary, payer := payer' }).map
      IndexObject.byPrimary = (ctx.index i).map IndexObject.byPrimary :=
    map_set_of_key hlt (by rw [hget]; rfl)
  generalize (ctx.index i).set k { obj with secondaryKey := secondary, payer := payer' } = objs at hids ⊢
  have hinv := dbInv_index h hrows i (hids ▸ h.index i) (hids ▸ h.itr i)
  have hkeeps : Keeps ctx { ctx with
      db, index := Function.update ctx.index i objs,
      itrCache := Function.update ctx.itrCache i (ctx.itrCache i) } :=
    keeps_index i fun _ _ hx _ => hx
  rw [Function.update_eq_self] at hinv hkeeps
  exact ⟨hinv, hkeeps⟩

end Writes


/-! ## Runs of calls -/

section Runs
variable {ι : Type} [DecidableEq ι] {σ : ι → Type} [∀ i, LinearOrder (σ i)] {ctx ctx' : Context ι σ}
  {iterator : Int}

theorem dbNextI64_inv (h : DbInv ctx) {res : Context ι σ × Int × Option Nat}
    (hres : dbNextI64 ctx iterator = .ok res) : DbInv res.1 ∧ Keeps ctx res.1 := by
  obtain ⟨⟨c, _, _⟩, hs, hres⟩ := bind_eq_ok.mp hres
  cases hres
  obtain ⟨hc, hext⟩ := seekNext_cacheOver _ h.keyval h.rows hs
  exact ⟨dbInv_keyvalCache h hc, keeps_keyvalCache hext⟩

theorem dbPreviousI64_inv (h : DbInv ctx) {res : Context ι σ × Int × Option Nat}
    (hres : dbPreviousI64 ctx iterator = .ok res) : DbInv res.1 ∧ Keeps ctx res.1 := by
  obtain ⟨⟨c, _, _⟩, hs, hres⟩ := bind_eq_ok.mp hres
  cases hres
  obtain ⟨hc, hext⟩ := seekPrevious_cacheOver _ h.keyval h.rows hs
  exact ⟨dbInv_keyvalCache h hc, keeps_keyvalCache hext⟩

theorem indexNext_inv (h : DbInv ctx) (i : ι) {κ : Type} [LinearOrder κ] {key : IndexObject (σ i) → κ}
    {res : IteratorCache (Nat × Nat) × Int × Option (IndexObject (σ i))}
    (hres : seekNext IndexObject.byPrimary key (ctx.index i) (ctx.itrCache i) iterator = .ok res) :
    DbInv { ctx with itrCache := Function.update ctx.itrCache i res.1 } ∧
      Keeps ctx { ctx with itrCache := Function.update ctx.itrCache i res.1 } := by
  obtain ⟨hc, hext⟩ := seekNext_cacheOver key (h.itr i) (h.index i) hres
  exact ⟨dbInv_itrCache h i hc, keeps_itrCache i hext⟩

theorem indexPrevious_inv (h : DbInv ctx) (i : ι) {κ : Type} [LinearOrder κ]
    {key : IndexObject (σ i) → κ} {res : IteratorCache (Nat × Nat) × Int × Option (IndexObject (σ i))}
    (hres : seekPrevious IndexObject.byPrimary key (ctx.index i) (ctx.itrCache i) iterator = .ok res) :
    DbInv { ctx with itrCache := Function.update ctx.itrCache i res.1 } ∧
      Keeps ctx { ctx with itrCache := Function.update ctx.itrCache i res.1 } := by
  obtain ⟨hc, hext⟩ := seekPrevious_cacheOver key (h.itr i) (h.index i) hres
  exact ⟨dbInv_itrCache h i hc, keeps_itrCache i hext⟩

/-- **Every call keeps the state well formed, and every iterator handed out before it.** -/
theorem step_inv (env : ApplyEnv) (billable : ι → Nat) (h : DbInv ctx) {call : DbCall ι σ}
    (hstep : step env billable ctx call = .ok ctx') : DbInv ctx' ∧ Keeps ctx ctx' := by
  cases call with
  | dbStoreI64 =>
    obtain ⟨res, hres, rfl⟩ := map_eq_ok.mp hstep
    exact dbStoreI64_inv h hres
  | dbUpdateI64 => exact dbUpdateI64_inv h hstep
  | dbRemoveI64 => exact dbRemoveI64_inv h hstep
  | dbNextI64 =>
    obtain ⟨res, hres, rfl⟩ := map_eq_ok.mp hstep
    exact dbNextI64_inv h hres
  | dbPreviousI64 =>
    obtain ⟨res, hres, rfl⟩ := map_eq_ok.mp hstep
    exact dbPreviousI64_inv h hres
  | dbFindI64 code scope table id =>
    cases hstep
    exact (dbFindI64_spec h code scope table id).2
  | dbLowerboundI64 code scope table id =>
    cases hstep
    exact (dbLowerboundI64_spec h code scope table id).2
  | dbUpperboundI64 code scope table id =>
    cases hstep
    exact (dbUpperboundI64_spec h code scope table id).2
  | dbEndI64 code scope table =>
    cases hstep
    exact (dbEndI64_spec h code scope table).2
  | store =>
    obtain ⟨res, hres, rfl⟩ := map_eq_ok.mp hstep
    exact store_inv h hres
  | update => exact update_inv h hstep
  | remove => exact remove_inv h hstep
  | findSecondary i code scope table secondary =>
    cases hstep
    exact (findSecondary_spec h i code scope table secondary).2
  | lowerboundSecondary i code scope table secondary =>
    cases hstep
    exact (lowerboundSecondary_spec h i code scope table secondary).2
  | upperboundSecondary i code scope table secondary =>
    cases hstep
    exact (upperboundSecondary_spec h i code scope table secondary).2
  | endSecondary i code scope table =>
    cases hstep
    exact (endSecondary_spec h i code scope table).2
  | nextSecondary i =>
    obtain ⟨res, hres, rfl⟩ := map_eq_ok.mp hstep
    obtain ⟨⟨c, _, _⟩, hs, hres⟩ := bind_eq_ok.mp hres
    cases hres
    exact indexNext_inv h i hs
  | previousSecondary i =>
    obtain ⟨res, hres, rfl⟩ := map_eq_ok.mp hstep
    obtain ⟨⟨c, _, _⟩, hs, hres⟩ := bind_eq_ok.mp hres
    cases hres
    exact indexPrevious_inv h i hs
  | findPrimary i code scope table primary =>
    cases hstep
    exact (findPrimary_spec h i code scope table primary).2
  | lowerboundPrimary i code scope table primary =>
    cases hstep
    exact (lowerboundPrimary_spec h i code scope table primary).2
  | upperboundPrimary i code scope table primary =>
    cases hstep
    exact (upperboundPrimary_spec h i code scope table primary).2
  | nextPrimary i =>
    obtain ⟨res, hres, rfl⟩ := map_eq_ok.mp hstep
    obtain ⟨⟨c, _, _⟩, hs, hres⟩ := bind_eq_ok.mp hres
    cases hres
    exact indexNext_inv h i hs
  | previousPrimary i =>
    obtain ⟨res, hres, rfl⟩ := map_eq_ok.mp hstep
    obtain ⟨⟨c, _, _⟩, hs, hres⟩ := bind_eq_ok.mp hres
    cases hres
    exact indexPrevious_inv h i hs

/-- **Every search answers as the ordered map of its table.** -/
theorem answers_of_dbInv (h : DbInv ctx) : ∀ call : DbCall ι σ, Answers ctx call
  | .dbStoreI64 .. | .dbUpdateI64 .. | .dbRemoveI64 .. | .store .. | .update .. | .remove .. => trivial
  | .dbNextI64 iterator => dbNextI64_spec h iterator
  | .dbPreviousI64 iterator => dbPreviousI64_spec h iterator
  | .dbFindI64 code scope table id => (dbFindI64_spec h code scope table id).1
  | .dbLowerboundI64 code scope table id => (dbLowerboundI64_spec h code scope table id).1
  | .dbUpperboundI64 code scope table id => (dbUpperboundI64_spec h code scope table id).1
  | .dbEndI64 code scope table => (dbEndI64_spec h code scope table).1
  | .findSecondary i code scope table secondary => (findSecondary_spec h i code scope table secondary).1
  | .lowerboundSecondary i code scope table secondary =>
    (lowerboundSecondary_spec h i code scope table secondary).1
  | .upperboundSecondary i code scope table secondary =>
    (upperboundSecondary_spec h i code scope table secondary).1
  | .endSecondary i code scope table => (endSecondary_spec h i code scope table).1
  | .nextSecondary i iterator => nextSecondary_spec h i iterator
  | .previousSecondary i iterator => previousSecondary_spec h i iterator
  | .findPrimary i code scope table primary => (findPrimary_spec h i code scope table primary).1
  | .lowerboundPrimary i code scope table primary => (lowerboundPrimary_spec h i code scope table primary).1
  | .upperboundPrimary i code scope table primary => (upperboundPrimary_spec h i code scope table primary).1
  | .nextPrimary i iterator => nextPrimary_spec h i iterator
  | .previousPrimary i iterator => previousPrimary_spec h i iterator

theorem dbInv_init {db : RamState} {index : (i : ι) → List (IndexObject (σ i))}
    (hrows : (db.rows.map KeyValueObject.byScopePrimary).Nodup)
    (hindex : ∀ i, ((index i).map IndexObject.byPrimary).Nodup) : DbInv ({ db, index } : Context ι σ) :=
  ⟨hrows, hindex, cacheOver_empty, fun _ => cacheOver_empty⟩

theorem dbInv_of_reachable (env : ApplyEnv) (billable : ι → Nat) {db : RamState}
    {index : (i : ι) → List (IndexObject (σ i))} (hrows : (db.rows.map KeyValueObject.byScopePrimary).Nodup)
    (hindex : ∀ i, ((index i).map IndexObject.byPrimary).Nodup)
    (hrun : Reachable (step env billable) { db, index } ctx) : DbInv ctx :=
  Reachable.inv DbInv (dbInv_init hrows hindex) (fun _ _ _ hs hst => (step_inv env billable hs hst).1) hrun

/-- **The database calls of an action refine an ordered map per table.**  From rows whose keys
are unique and empty caches, after any calls: every search answers as the ordered map of the
table it names (`Answers`), every call keeps what the iterators handed out before it stand for
(`Keeps`), and each cache gives one integer to each row and table end, table ends at
`-(index + 2)`.  A search of a table that has no `table_id_object` answers `-1`. -/
theorem db_api_refines_ordered_map (env : ApplyEnv) (billable : ι → Nat) (db : RamState)
    (index : (i : ι) → List (IndexObject (σ i)))
    (hrows : (db.rows.map KeyValueObject.byScopePrimary).Nodup)
    (hindex : ∀ i, ((index i).map IndexObject.byPrimary).Nodup)
    (hrun : Reachable (step env billable) { db, index } ctx) :
    (∀ call, Answers ctx call) ∧
      (∀ call ctx', step env billable ctx call = .ok ctx' → Keeps ctx ctx') ∧
      WellNumbered ctx.keyvalCache ∧ ∀ i, WellNumbered (ctx.itrCache i) := by
  have h := dbInv_of_reachable env billable hrows hindex hrun
  exact ⟨answers_of_dbInv h, fun _ _ hstep => (step_inv env billable h hstep).2,
    h.keyval.inv.wellNumbered, fun i => (h.itr i).inv.wellNumbered⟩

/-- contract `1` stores the rows `7` and `9` of its table `1`, the first with the secondary key
`4`, then finds `7`, looks for the first row from `8`, and steps between the two rows in the
primary table and in the secondary index -/
def sampleDbCalls : List (DbCall Unit (fun _ => Nat)) :=
  [.dbStoreI64 0 1 1 7 [1, 2], .dbStoreI64 0 1 1 9 [3], .store () 0 1 1 7 4,
   .dbFindI64 1 0 1 7, .dbLowerboundI64 1 0 1 8, .dbNextI64 0, .dbPreviousI64 1,
   .lowerboundSecondary () 1 0 1 3, .nextSecondary () 0, .previousSecondary () 0]

theorem db_api_refines_ordered_map_at_sample :
    let ctx : Context Unit (fun _ => Nat) := exec (step sampleEnv (fun _ => 0))
      { db := { limits := sampleLimits }, index := fun _ => [] } sampleDbCalls
    ctx.db.rows.length = 2 ∧ (dbLowerboundI64 ctx 1 0 1 8).2 = 1 ∧
      (∀ call, Answers ctx call) ∧
      (∀ call ctx', step sampleEnv (fun _ => 0) ctx call = .ok ctx' → Keeps ctx ctx') ∧
      WellNumbered ctx.keyvalCache ∧ ∀ i, WellNumbered (ctx.itrCache i) :=
  ⟨by rfl, by rfl, db_api_refines_ordered_map sampleEnv (fun _ => 0) { limits := sampleLimits }
    (fun _ => []) List.nodup_nil (fun _ => List.nodup_nil) (reachable_exec sampleDbCalls)⟩

/-- `db_lowerbound_i64` of a table no row was ever stored in: `-1`, which is no table's end
iterator -/
theorem dbLowerboundI64_of_missing_table :
    let ctx : Context Unit (fun _ => Nat) := { db := { limits := sampleLimits }, index := fun _ => [] }
    (dbLowerboundI64 ctx 1 1 1 0).2 = -1 ∧
      (dbLowerboundI64 ctx 1 1 1 0).1.keyvalCache.denote (dbLowerboundI64 ctx 1 1 1 0).2 = none :=
  ⟨rfl, rfl⟩

end Runs

end Eos.ApplyContext
