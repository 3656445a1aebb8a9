import Eoscochain.Chain.Database

/-!
# Laws of the database calls

libraries/chain apply_context.cpp and apply_context.hpp: what the calls of the database API do
one after another, within one action.

* `seekNext_seekPrevious`, `seekPrevious_seekNext`   in an index whose key starts with the table
                         id, `--itr` after `++itr` comes back to the iterator started from, and
                         so does `++itr` after a `--itr` that found a row;
* `dbNextI64_dbPreviousI64`   the same for `db_next_i64` and `db_previous_i64`;
* `index_next_previous_inverse`   and for the `next` and `previous` of a secondary index, by
                         secondary key and by primary key;
* `dbStoreI64_dbFindI64`   `db_find_i64` finds the row `db_store_i64` stored, at the iterator it
                         returned, and `db_get_i64` there reads the buffer stored;
* `dbRemoveI64_frees_iterator`   `db_remove_i64` removes the row of its iterator and frees the
                         iterator, which no call can read after, and leaves every other one.
-/

set_option linter.unusedSectionVars false

namespace Eos.ApplyContext

open Machine Table Codec Resource Ram OrderedIndex IteratorCache

/-! ## Stepping forward and back -/

section Neighbours
variable {ρ τ : Type} [LinearOrder τ] {ident : ρ → Nat × Nat} (tId : ρ → Nat) {g : ρ → τ}
  (key : ρ → Lex (Nat × τ)) {rows : List ρ} {c : IteratorCache (Nat × Nat)} {it : Int}
  (htId : ∀ r, (ident r).1 = tId r) (hkey : ∀ r, key r = toLex (tId r, g r))

include htId hkey in
theorem table_of_row (hinj : (rows.map key).Nodup) {obj : ρ} (hobj : obj ∈ rows) :
    ((rowsOf tId rows (ident obj).1).map g).Nodup ∧ obj ∈ rowsOf tId rows (ident obj).1 := by
  obtain rfl : key = fun r => toLex (tId r, g r) := funext hkey
  exact ⟨nodup_restrict hinj, List.mem_filter.mpr ⟨hobj, by simp [htId]⟩⟩

include htId hkey in
/-- **`--itr` after `++itr` gives the iterator started from**, whether `++itr` found a row or the
end of the table -/
theorem seekNext_seekPrevious (hc : CacheOver c (rows.map ident)) (hnd : (rows.map ident).Nodup)
    (hinj : (rows.map key).Nodup) {obj : ρ} (hobj : obj ∈ rows)
    (hden : c.denote it = some (.row (ident obj))) :
    ∃ c1 itr1 next c2, seekNext ident key rows c it = .ok (c1, itr1, next) ∧
      seekPrevious ident key rows c1 itr1 = .ok (c2, it, some obj) := by
  obtain ⟨o, ho, hident, c1, itr1, hnext, hden1, hc1, hext1⟩ :=
    seekNext_in_table tId key htId hkey hc hnd hinj hden
  obtain rfl : o = obj := List.inj_on_of_nodup_map hnd ho hobj hident
  obtain ⟨hnd', hmem⟩ := table_of_row tId key htId hkey hinj ho
  have hback : ∀ {c2 : IteratorCache (Nat × Nat)} {itr2 : Int}, CacheOver c2 (rows.map ident) →
      Extends c1 c2 → c2.denote itr2 = some (.row (ident o)) → itr2 = it :=
    fun hc2 hext2 hden2 => denote_inj hc2.inv hden2 (hext2 _ _ (hext1 _ _ hden))
  cases hfound : first g (fun o' => decide (g o < g o')) (rowsOf tId rows (ident o).1) with
  | none =>
    rw [hfound] at hnext hden1
    obtain ⟨c2, itr2, hprev, hden2, -, hc2, hext2⟩ :=
      seekPrevious_end_in_table tId key htId hkey hc1 hinj hden1
    rw [last_of_first_gt_eq_none hnd' hmem hfound] at hprev hden2
    obtain rfl := hback hc2 hext2 hden2
    exact ⟨c1, itr1, none, c2, hnext, hprev⟩
  | some b =>
    rw [hfound] at hnext hden1
    obtain ⟨hb, -⟩ := mem_of_first hfound
    obtain ⟨hbrows, hbt⟩ := List.mem_filter.mp hb
    obtain ⟨o', ho', hident', c2, itr2, hprev, hden2, -, hc2, hext2⟩ :=
      seekPrevious_in_table tId key htId hkey hc1 hnd hinj hden1
    obtain rfl : o' = b := List.inj_on_of_nodup_map hnd ho' hbrows hident'
    have htab : (ident o').1 = (ident o).1 := by
      rw [htId]
      exact of_decide_eq_true hbt
    rw [htab, last_of_first_gt hnd' hmem hfound] at hprev hden2
    obtain rfl := hback hc2 hext2 hden2
    exact ⟨c1, itr1, some o', c2, hnext, hprev⟩

include htId hkey in
/-- **`++itr` after a `--itr` that found a row gives the iterator started from** -/
theorem seekPrevious_seekNext (hc : CacheOver c (rows.map ident)) (hnd : (rows.map ident).Nodup)
    (hinj : (rows.map key).Nodup) {obj : ρ} (hobj : obj ∈ rows)
    (hden : c.denote it = some (.row (ident obj))) {c1 : IteratorCache (Nat × Nat)} {itr1 : Int}
    {prev : ρ} (hprev : seekPrevious ident key rows c it = .ok (c1, itr1, some prev)) :
    ∃ c2, seekNext ident key rows c1 itr1 = .ok (c2, it, some obj) := by
  obtain ⟨o, ho, hident, c1', itr1', hprev', hden1, -, hc1, hext1⟩ :=
    seekPrevious_in_table tId key htId hkey hc hnd hinj hden
  obtain rfl : o = obj := List.inj_on_of_nodup_map hnd ho hobj hident
  obtain ⟨hnd', hmem⟩ := table_of_row tId key htId hkey hinj ho
  rw [hprev'] at hprev
  obtain ⟨rfl, rfl, hlast⟩ : c1' = c1 ∧ itr1' = itr1 ∧ _ := by
    simpa only [Except.ok.injEq, Prod.mk.injEq] using hprev
  rw [hlast] at hden1
  obtain ⟨hp, -⟩ := mem_of_last hlast
  obtain ⟨hprows, hpt⟩ := List.mem_filter.mp hp
  obtain ⟨o', ho', hident', c2, itr2, hnext, hden2, hc2, hext2⟩ :=
    seekNext_in_table tId key htId hkey hc1 hnd hinj hden1
  obtain rfl : o' = prev := List.inj_on_of_nodup_map hnd ho' hprows hident'
  have htab : (ident o').1 = (ident o).1 := by
    rw [htId]
    exact of_decide_eq_true hpt
  rw [htab, first_of_last_lt hnd' hmem hlast] at hnext hden2
  obtain rfl : itr2 = it := denote_inj hc2.inv hden2 (hext2 _ _ (hext1 _ _ hden))
  exact ⟨c2, hnext⟩

end Neighbours

/-! ## The table a store leaves -/

section Tables
variable {env : ApplyEnv} {st st' : RamState}

theorem tables_of_updateDbUsage {payer : Nat} {delta : Int} (h : updateDbUsage env st payer delta = .ok st') :
    st'.tables = st.tables := by
  obtain ⟨limits, rfl, -⟩ := addRamUsage_eq_ok (updateDbUsage_eq_ok h)
  rfl

theorem findKey_of_findOrCreateTable {code scope table payer : Nat} {t : TableIdObject}
    (h : findOrCreateTable env st code scope table payer = .ok (st', t)) :
    ∃ j, findKey TableIdObject.byCodeScopeTable (code, scope, table) st'.tables = some (j, t) := by
  unfold findOrCreateTable at h
  split at h
  · next j t' hfind =>
    cases h
    exact ⟨j, hfind⟩
  · next hnone =>
    obtain ⟨st1, h1, h⟩ := bind_eq_ok.mp h
    cases h
    have hnone1 : findKey TableIdObject.byCodeScopeTable (code, scope, table) st1.tables = none := by
      rw [tables_of_updateDbUsage h1]
      exact hnone
    exact ⟨_, findKey_append_of_none (by rfl) hnone1⟩

theorem findTable_of_dbStoreI64 {scope table payer id : Nat} {buffer : Bytes} {st1 : RamState}
    {tab : TableIdObject} (h : Ram.dbStoreI64 env st scope table payer id buffer = .ok st')
    (htab : findOrCreateTable env st env.receiver scope table payer = .ok (st1, tab)) :
    ∃ tab', findTable st' env.receiver scope table = some tab' ∧ tab'.id = tab.id := by
  unfold Ram.dbStoreI64 at h
  obtain ⟨⟨st2, tab2⟩, h2, h⟩ := bind_eq_ok.mp h
  rw [htab] at h2
  obtain ⟨rfl, rfl⟩ : st1 = st2 ∧ tab = tab2 := by
    simpa only [Except.ok.injEq, Prod.mk.injEq] using h2
  obtain ⟨-, h⟩ := assert_bind_eq_ok.mp h
  obtain ⟨-, h⟩ := assert_bind_eq_ok.mp h
  obtain ⟨⟨i, t⟩, hget, h⟩ := bind_eq_ok.mp h
  obtain ⟨hi, hid⟩ := getKey_eq_ok hget
  obtain ⟨hlt, hti⟩ := List.getElem?_eq_some_iff.mp hi
  obtain ⟨j, hj⟩ := findKey_of_findOrCreateTable htab
  have hkey : TableIdObject.byCodeScopeTable { t with count := t.count + 1 } =
      TableIdObject.byCodeScopeTable st1.tables[i] := by
    rw [hti]
    rfl
  unfold findTable
  rw [tables_of_updateDbUsage h]
  dsimp only
  rw [findKey_set_of_key hlt hkey, hj]
  by_cases hji : j = i
  · exact ⟨{ t with count := t.count + 1 }, by simp [hji], hid⟩
  · exact ⟨tab, by simp [hji], rfl⟩

end Tables

section Calls
variable {ι : Type} [DecidableEq ι] {σ : ι → Type} [∀ i, LinearOrder (σ i)] {ctx : Context ι σ}
  {it : Int}

/-- **`db_previous_i64` and `db_next_i64` undo each other**: from a row, stepping forward then
back returns the iterator started from and the row's primary key, and so does stepping back to a
row then forward -/
theorem dbNextI64_dbPreviousI64 (h : DbInv ctx) {r : Nat × Nat}
    (hden : ctx.keyvalCache.denote it = some (.row r)) :
    (∃ ctx1 itr1 pk1 ctx2, dbNextI64 ctx it = .ok (ctx1, itr1, pk1) ∧
        dbPreviousI64 ctx1 itr1 = .ok (ctx2, it, some r.2)) ∧
      ∀ ctx1 itr1 pk1, dbPreviousI64 ctx it = .ok (ctx1, itr1, some pk1) →
        ∃ ctx2, dbNextI64 ctx1 itr1 = .ok (ctx2, it, some r.2) := by
  obtain ⟨obj, hobj, rfl, -⟩ := deref_of_live h.keyval h.rows hden
  refine ⟨?_, fun ctx1 itr1 pk1 hprev => ?_⟩
  · obtain ⟨c1, itr1, next, c2, hnext, hprev⟩ := seekNext_seekPrevious KeyValueObject.tId keyvalKey
      (g := KeyValueObject.primaryKey) (fun _ => rfl) (fun _ => rfl) h.keyval h.rows
      (nodup_keyvalKey h.rows) hobj hden
    refine ⟨{ ctx with keyvalCache := c1 }, itr1, next.map (·.primaryKey),
      { ctx with keyvalCache := c2 }, ?_, ?_⟩
    · rw [dbNextI64, hnext]
      rfl
    · dsimp only [dbPreviousI64]
      rw [hprev]
      rfl
  · obtain ⟨⟨c1, itr1', o⟩, hs, hres⟩ := bind_eq_ok.mp hprev
    obtain ⟨rfl, rfl, hpk⟩ : { ctx with keyvalCache := c1 } = ctx1 ∧ itr1' = itr1 ∧
        o.map (·.primaryKey) = some pk1 := by
      simpa only [pure, Except.pure, Except.ok.injEq, Prod.mk.injEq] using hres
    obtain ⟨prev, rfl, -⟩ := Option.map_eq_some_iff.mp hpk
    obtain ⟨c2, hnext⟩ := seekPrevious_seekNext KeyValueObject.tId keyvalKey
      (g := KeyValueObject.primaryKey) (fun _ => rfl) (fun _ => rfl) h.keyval h.rows
      (nodup_keyvalKey h.rows) hobj hden hs
    refine ⟨{ ctx with keyvalCache := c2 }, ?_⟩
    dsimp only [dbNextI64]
    rw [hnext]
    rfl

/-- the cache of the rows `5` and `8` of table `0`, at the iterators `0` and `1` -/
def sampleTwoRowCache : IteratorCache (Nat × Nat) :=
  ((((({} : IteratorCache (Nat × Nat)).cacheTable 0).1.add (0, 5)).1.cacheTable 0).1.add (0, 8)).1

theorem cacheOver_sampleTwoRowCache : CacheOver sampleTwoRowCache [(0, 5), (0, 8)] :=
  (cacheOver_land (cacheOver_land (cacheOver_empty : CacheOver {} [(0, 5), (0, 8)])
    (r := (0, 5)) (by simp) rfl).1 (r := (0, 8)) (by simp) rfl).1

/-- from the second of two rows: `--itr` reaches the first, and `++itr` comes back -/
theorem dbNextI64_dbPreviousI64_at_two_rows :
    let ctx : Context Unit (fun _ => Nat) :=
      { db := { limits := sampleLimits, rows := [⟨0, 5, [], 1⟩, ⟨0, 8, [], 1⟩] }, index := fun _ => [],
        keyvalCache := sampleTwoRowCache }
    (∃ ctx1, dbPreviousI64 ctx 1 = .ok (ctx1, 0, some 5)) ∧
    ((∃ ctx1 itr1 pk1 ctx2, dbNextI64 ctx 1 = .ok (ctx1, itr1, pk1) ∧
        dbPreviousI64 ctx1 itr1 = .ok (ctx2, 1, some 8)) ∧
      ∀ ctx1 itr1 pk1, dbPreviousI64 ctx 1 = .ok (ctx1, itr1, some pk1) →
        ∃ ctx2, dbNextI64 ctx1 itr1 = .ok (ctx2, 1, some 8)) := by
  intro ctx
  have h : DbInv ctx := ⟨by decide, fun _ => List.nodup_nil, cacheOver_sampleTwoRowCache,
    fun _ => cacheOver_empty⟩
  exact ⟨⟨_, rfl⟩, dbNextI64_dbPreviousI64 h (r := (0, 8)) (by rfl)⟩

theorem indexNext_indexPrevious (h : DbInv ctx) (i : ι) {τ : Type} [LinearOrder τ]
    {g : IndexObject (σ i) → τ} {key : IndexObject (σ i) → Lex (Nat × τ)}
    (hkey : ∀ r, key r = toLex (r.tId, g r)) (hinj : ((ctx.index i).map key).Nodup)
    {next prev : Context ι σ → Int → Except String (Context ι σ × Int × Option Nat)}
    (hnext : ∀ ctx it, next ctx it = do
      let (c, itr, obj) ← seekNext IndexObject.byPrimary key (ctx.index i) (ctx.itrCache i) it
      pure ({ ctx with itrCache := Function.update ctx.itrCache i c }, itr, obj.map (·.primaryKey)))
    (hprev : ∀ ctx it, prev ctx it = do
      let (c, itr, obj) ← seekPrevious IndexObject.byPrimary key (ctx.index i) (ctx.itrCache i) it
      pure ({ ctx with itrCache := Function.update ctx.itrCache i c }, itr, obj.map (·.primaryKey)))
    {r : Nat × Nat} (hden : (ctx.itrCache i).denote it = some (.row r)) :
    (∃ ctx1 itr1 pk1 ctx2, next ctx it = .ok (ctx1, itr1, pk1) ∧ prev ctx1 itr1 = .ok (ctx2, it, some r.2)) ∧
      ∀ ctx1 itr1 pk1, prev ctx it = .ok (ctx1, itr1, some pk1) →
        ∃ ctx2, next ctx1 itr1 = .ok (ctx2, it, some r.2) := by
  obtain ⟨obj, hobj, rfl, -⟩ := deref_of_live (h.itr i) (h.index i) hden
  have hupd : ∀ c : IteratorCache (Nat × Nat),
      ({ ctx with itrCache := Function.update ctx.itrCache i c } : Context ι σ).itrCache i = c :=
    fun c => Function.update_self i c ctx.itrCache
  refine ⟨?_, fun ctx1 itr1 pk1 hp => ?_⟩
  · obtain ⟨c1, itr1, found, c2, hn, hp⟩ := seekNext_seekPrevious IndexObject.tId key (g := g)
      (fun _ => rfl) hkey (h.itr i) (h.index i) hinj hobj hden
    refine ⟨{ ctx with itrCache := Function.update ctx.itrCache i c1 }, itr1, found.map (·.primaryKey),
      { ctx with itrCache := Function.update (Function.update ctx.itrCache i c1) i c2 }, ?_, ?_⟩
    · rw [hnext, hn]
      rfl
    · rw [hprev, hupd]
      dsimp only
      rw [hp]
      rfl
  · rw [hprev] at hp
    obtain ⟨⟨c1, itr1', o⟩, hs, hres⟩ := bind_eq_ok.mp hp
    obtain ⟨rfl, rfl, hpk⟩ : { ctx with itrCache := Function.update ctx.itrCache i c1 } = ctx1 ∧
        itr1' = itr1 ∧ o.map (·.primaryKey) = some pk1 := by
      simpa only [pure, Except.pure, Except.ok.injEq, Prod.mk.injEq] using hres
    obtain ⟨found, rfl, -⟩ := Option.map_eq_some_iff.mp hpk
    obtain ⟨c2, hn⟩ := seekPrevious_seekNext IndexObject.tId key (g := g) (fun _ => rfl) hkey
      (h.itr i) (h.index i) hinj hobj hden hs
    refine ⟨{ ctx with itrCache := Function.update (Function.update ctx.itrCache i c1) i c2 }, ?_⟩
    rw [hnext, hupd]
    dsimp only
    rw [hn]
    rfl

/-- **In a secondary index, `next_secondary` and `previous_secondary` undo each other, and so do
`next_primary` and `previous_primary`**: from an object, stepping forward then back in either
order returns the iterator started from and the object's primary key, and so does stepping back
to an object then forward -/
theorem index_next_previous_inverse (h : DbInv ctx) (i : ι) {r : Nat × Nat}
    (hden : (ctx.itrCache i).denote it = some (.row r)) :
    ((∃ ctx1 itr1 pk1 ctx2, nextSecondary ctx i it = .ok (ctx1, itr1, pk1) ∧
        previousSecondary ctx1 i itr1 = .ok (ctx2, it, some r.2)) ∧
      ∀ ctx1 itr1 pk1, previousSecondary ctx i it = .ok (ctx1, itr1, some pk1) →
        ∃ ctx2, nextSecondary ctx1 i itr1 = .ok (ctx2, it, some r.2)) ∧
    ((∃ ctx1 itr1 pk1 ctx2, nextPrimary ctx i it = .ok (ctx1, itr1, pk1) ∧
        previousPrimary ctx1 i itr1 = .ok (ctx2, it, some r.2)) ∧
      ∀ ctx1 itr1 pk1, previousPrimary ctx i it = .ok (ctx1, itr1, some pk1) →
        ∃ ctx2, nextPrimary ctx1 i itr1 = .ok (ctx2, it, some r.2)) :=
  ⟨indexNext_indexPrevious h i (g := secondaryOrder) (fun _ => rfl) (nodup_bySecondary (h.index i))
      (fun _ _ => rfl) (fun _ _ => rfl) hden,
    indexNext_indexPrevious h i (g := IndexObject.primaryKey) (fun _ => rfl)
      (nodup_primaryOrder (h.index i)) (fun _ _ => rfl) (fun _ _ => rfl) hden⟩

/-- from the object `8` of two, whose secondary key `3` comes before the `7` of `5`: in the
secondary order `++itr` reaches `5` and `--itr` comes back, in the primary order `--itr` reaches
`5` and `++itr` comes back -/
theorem index_next_previous_inverse_at_two_objects :
    let ctx : Context Unit (fun _ => Nat) :=
      { db := { limits := sampleLimits }, index := fun _ => [⟨0, 5, 1, 7⟩, ⟨0, 8, 1, 3⟩],
        itrCache := fun _ => sampleTwoRowCache }
    (∃ ctx1, nextSecondary ctx () 1 = .ok (ctx1, 0, some 5)) ∧
    (∃ ctx1, previousPrimary ctx () 1 = .ok (ctx1, 0, some 5)) ∧
    ((∃ ctx1 itr1 pk1 ctx2, nextSecondary ctx () 1 = .ok (ctx1, itr1, pk1) ∧
        previousSecondary ctx1 () itr1 = .ok (ctx2, 1, some 8)) ∧
      ∀ ctx1 itr1 pk1, previousSecondary ctx () 1 = .ok (ctx1, itr1, some pk1) →
        ∃ ctx2, nextSecondary ctx1 () itr1 = .ok (ctx2, 1, some 8)) ∧
    ((∃ ctx1 itr1 pk1 ctx2, nextPrimary ctx () 1 = .ok (ctx1, itr1, pk1) ∧
        previousPrimary ctx1 () itr1 = .ok (ctx2, 1, some 8)) ∧
      ∀ ctx1 itr1 pk1, previousPrimary ctx () 1 = .ok (ctx1, itr1, some pk1) →
        ∃ ctx2, nextPrimary ctx1 () itr1 = .ok (ctx2, 1, some 8)) := by
  intro ctx
  have h : DbInv ctx := ⟨List.nodup_nil, fun () => by decide, cacheOver_empty,
    fun _ => cacheOver_sampleTwoRowCache⟩
  exact ⟨⟨_, rfl⟩, ⟨_, rfl⟩, index_next_previous_inverse h () (r := (0, 8)) (by rfl)⟩

theorem dbStoreI64_eq_ok {env : ApplyEnv} {scope table payer id : Nat} {buffer : Bytes}
    {ctx' : Context ι σ} {itr : Int} (hres : dbStoreI64 env ctx scope table payer id buffer = .ok (ctx', itr)) :
    ∃ db st1 tab, Ram.dbStoreI64 env ctx.db scope table payer id buffer = .ok db ∧
      findOrCreateTable env ctx.db env.receiver scope table payer = .ok (st1, tab) ∧
      ctx' = { ctx with db, keyvalCache := ((ctx.keyvalCache.cacheTable tab.id).1.add (tab.id, id)).1 } ∧
      itr = ((ctx.keyvalCache.cacheTable tab.id).1.add (tab.id, id)).2 := by
  obtain ⟨db, hdb, hres⟩ := bind_eq_ok.mp hres
  obtain ⟨⟨st1, tab⟩, htab, hres⟩ := bind_eq_ok.mp hres
  have hpair := Except.ok.inj hres
  exact ⟨db, st1, tab, hdb, htab, (congrArg Prod.fst hpair).symm, (congrArg Prod.snd hpair).symm⟩

/-- **What `db_store_i64` stores, `db_find_i64` finds and `db_get_i64` reads back**: in the
receiver's table of the scope and table named, `find` of the key stored gives the iterator the store
returned, and a read of the row's size gives the bytes stored -/
theorem dbStoreI64_dbFindI64 (h : DbInv ctx) {env : ApplyEnv} {scope table payer id : Nat}
    {buffer : Bytes} {ctx' : Context ι σ} {itr : Int}
    (hres : dbStoreI64 env ctx scope table payer id buffer = .ok (ctx', itr)) :
    (dbFindI64 ctx' env.receiver scope table id).2 = itr ∧
      dbGetI64 ctx' itr buffer.length = .ok (buffer.length, buffer) := by
  obtain ⟨h', -⟩ := dbStoreI64_inv h hres
  obtain ⟨db, st1, tab, hdb, htab, rfl, rfl⟩ := dbStoreI64_eq_ok hres
  have hmem : (⟨tab.id, id, buffer, payer⟩ : KeyValueObject) ∈ db.rows := by
    obtain ⟨_, tab', htab', hrows, -⟩ := rows_of_dbStoreI64 hdb
    rw [htab] at htab'
    cases htab'
    simp [hrows]
  have hden : ((ctx.keyvalCache.cacheTable tab.id).1.add (tab.id, id)).1.denote
      ((ctx.keyvalCache.cacheTable tab.id).1.add (tab.id, id)).2 = some (.row (tab.id, id)) :=
    denote_add_self _ (cacheInv_cacheTable _ h.keyval.inv)
  refine ⟨?_, ?_⟩
  · obtain ⟨hans, hinv, hkeeps⟩ := dbFindI64_spec h' env.receiver scope table id
    obtain ⟨tab', hfind, hid⟩ := findTable_of_dbStoreI64 hdb htab
    have hfirst : ∃ b, first (·.primaryKey) (fun o => decide (o.primaryKey = id))
        (rowsOf (·.tId) db.rows tab'.id) = some b ∧ b.byScopePrimary = (tab.id, id) := by
      cases hb : first (·.primaryKey) (fun o => decide (o.primaryKey = id)) (rowsOf (·.tId) db.rows tab'.id) with
      | none =>
        have hno := first_eq_none.mp hb ⟨tab.id, id, buffer, payer⟩
          (List.mem_filter.mpr ⟨hmem, by simp [hid]⟩)
        simp at hno
      | some b =>
        obtain ⟨hbr, hbid⟩ := mem_of_first hb
        obtain ⟨-, hbt⟩ := List.mem_filter.mp hbr
        refine ⟨b, rfl, ?_⟩
        simp only [decide_eq_true_eq] at hbid hbt
        simp [KeyValueObject.byScopePrimary, hbt, hbid, hid]
    obtain ⟨b, hb, hbkey⟩ := hfirst
    simp only [Answers, Lands, hfind, hb, landing, hbkey] at hans
    have hkept := hkeeps.1 _ _ hden fun r hr => by
      cases hr
      exact List.mem_map_of_mem hmem
    exact denote_inj hinv.keyval.inv hans hkept
  · generalize (ctx.keyvalCache.cacheTable tab.id).1.add (tab.id, id) = p at hden ⊢
    have hget : p.1.get p.2 = .ok (tab.id, id) := get_eq_ok.mpr hden
    have hderef : deref KeyValueObject.byScopePrimary db.rows (tab.id, id) = .ok ⟨tab.id, id, buffer, payer⟩ :=
      deref_of_mem h'.rows hmem
    simp only [dbGetI64, hget, hderef, ok_bind]
    split_ifs with hlen
    · rw [List.length_eq_zero_iff.mp hlen]
      rfl
    · rw [min_self, List.take_length]
      rfl

theorem dbStoreI64_dbFindI64_at_start :
    let ctx : Context Unit (fun _ => Nat) := { db := { limits := sampleLimits }, index := fun _ => [] }
    ∃ ctx' itr, dbStoreI64 sampleEnv ctx 0 1 1 7 [1, 2] = .ok (ctx', itr) ∧
      (dbFindI64 ctx' sampleEnv.receiver 0 1 7).2 = itr ∧ dbGetI64 ctx' itr 2 = .ok (2, [1, 2]) := by
  intro ctx
  have h : DbInv ctx := dbInv_init List.nodup_nil fun _ => List.nodup_nil
  obtain ⟨⟨ctx', itr⟩, hres⟩ : ∃ p, dbStoreI64 sampleEnv ctx 0 1 1 7 [1, 2] = .ok p := ⟨_, rfl⟩
  exact ⟨ctx', itr, hres, dbStoreI64_dbFindI64 h hres⟩

/-- **`db_remove_i64` removes the row of its iterator and frees exactly that iterator**: the
iterator stood for a row, no row of that key is left, the iterator stands for nothing and reads of
it fail, and every other iterator stands for what it stood for before -/
theorem dbRemoveI64_frees_iterator (h : DbInv ctx) {env : ApplyEnv} {ctx' : Context ι σ}
    (hres : dbRemoveI64 env ctx it = .ok ctx') :
    ∃ r, ctx.keyvalCache.denote it = some (.row r) ∧
      r ∉ ctx'.db.rows.map KeyValueObject.byScopePrimary ∧ ctx'.keyvalCache.denote it = none ∧
      (∀ bufferSize, ∃ e, dbGetI64 ctx' it bufferSize = .error e) ∧
      ∀ it', it' ≠ it → ctx'.keyvalCache.denote it' = ctx.keyvalCache.denote it' := by
  obtain ⟨objId, hget, hres⟩ := bind_eq_ok.mp hres
  obtain ⟨_, -, hres⟩ := bind_eq_ok.mp hres
  obtain ⟨db, hdb, hres⟩ := bind_eq_ok.mp hres
  obtain ⟨c, hrm, hres⟩ := bind_eq_ok.mp hres
  cases hres
  obtain ⟨k, obj, hk, rfl, hrows⟩ := rows_of_dbRemoveI64 hdb
  have hnone : c.denote it = none := denote_remove_self hrm
  refine ⟨obj.byScopePrimary, get_eq_ok.mp hget, ?_, hnone, fun n => ?_, fun it' hne => denote_remove hrm hne⟩
  · -- the keys are unique, so the erased row was the only one of its key
    rw [hrows, mem_map_eraseIdx h.rows hk]
    exact fun hmem => hmem.2 rfl
  · -- a freed iterator dereferences to nothing
    cases hg : c.get it with
    | error e => exact ⟨e, by simp only [dbGetI64, hg]; rfl⟩
    | ok r =>
      have hden := get_eq_ok.mp hg
      rw [hnone] at hden
      exact absurd hden (Option.some_ne_none _).symm

-- the store and the remove are evaluated on the state of the sample chain
set_option maxRecDepth 4000 in
theorem dbRemoveI64_frees_iterator_after_store :
    let ctx : Context Unit (fun _ => Nat) := { db := { limits := sampleLimits }, index := fun _ => [] }
    ∃ ctx1 itr ctx2, dbStoreI64 sampleEnv ctx 0 1 1 7 [1, 2] = .ok (ctx1, itr) ∧
      dbRemoveI64 sampleEnv ctx1 itr = .ok ctx2 ∧
      ∃ r, ctx1.keyvalCache.denote itr = some (.row r) ∧
        r ∉ ctx2.db.rows.map KeyValueObject.byScopePrimary ∧ ctx2.keyvalCache.denote itr = none ∧
        (∀ bufferSize, ∃ e, dbGetI64 ctx2 itr bufferSize = .error e) ∧
        ∀ it', it' ≠ itr → ctx2.keyvalCache.denote it' = ctx1.keyvalCache.denote it' := by
  intro ctx
  have h : DbInv ctx := dbInv_init List.nodup_nil fun _ => List.nodup_nil
  obtain ⟨ctx1, itr, ctx2, hs, hr⟩ : ∃ ctx1 itr ctx2, dbStoreI64 sampleEnv ctx 0 1 1 7 [1, 2] = .ok (ctx1, itr) ∧
      dbRemoveI64 sampleEnv ctx1 itr = .ok ctx2 := ⟨_, _, _, rfl, rfl⟩
  exact ⟨ctx1, itr, ctx2, hs, hr, dbRemoveI64_frees_iterator (dbStoreI64_inv h hs).1 hr⟩

end Calls

end Eos.ApplyContext
