import Eoscochain.Chain.Irreversible

/-!
# The fork database and the controller's fork switch

libraries/chain fork_database.cpp, and controller.cpp `push_block` and `maybe_switch_forks`.

* `BlockState`       `block_state`: a header state with the flags `validated` and
                     `in_current_chain`;
* `ForkDb`           `fork_database_impl`: the rows of `fork_multi_index_type` in the order of
                     `by_block_num`, each with the number of rows inserted before it, which
                     orders the rows of one key in `by_prev` and `by_lib_block_num`; the head;
* `numBegin`, `libBegin`, `children`   `begin()` of `by_block_num` and `by_lib_block_num`, and the
                     rows of one key of `by_prev`;
* `link`, `modifyRow`   insertion into `by_block_num` and `modify` of a row, which relinks it
                     only when it no longer sorts between its neighbours (`inPlace`);
* `add`, `prune`, `remove`, `markInCurrentChain`, `fetchBranchFrom`, `set`   the functions of
                     the fork database of the same names;
* `pushBlock`, `maybeSwitchForks`, `popBlock`   the controller.

What `prune` passes to the signal `irreversible`, and each row `remove` erases, is recorded in
`events` with the head of the fork database at that moment.

Left out: `apply_block` and the undo of `pop_block`, which change the chain's database and not
the fork database (here every block applies); confirmations and the BFT irreversible block they
set; the handler of `irreversible`, which writes the block log.  `remove`, `prune` and
`fetch_branch_from` loop along `previous` links; their fuel is the number of rows.  A failed
call leaves the fork database as it was.
-/

set_option linter.unusedSectionVars false

namespace Eos.ForkDatabase

open Machine BlockHeaderState

/-- `block_state` -/
structure BlockState extends BlockHeaderState where
  validated : Bool := false
  inCurrentChain : Bool := false
  deriving DecidableEq, Repr

/-- what the fork database gives out: a block passed to `irreversible`, or a row erased by
`remove`, each with the head then -/
inductive Event
  | irreversible (block : BlockState) (head : Option BlockState)
  | removed (block : BlockState) (head : Option BlockState)
  deriving DecidableEq, Repr

/-- a row of `fork_multi_index_type` and the number of rows inserted before it -/
structure Row where
  state : BlockState
  seq : Nat
  deriving DecidableEq, Repr

/-- `fork_database_impl` -/
structure ForkDb where
  /-- the rows in the order of `by_block_num` -/
  index : List Row := []
  inserted : Nat := 0
  head : Option BlockState := none
  events : List Event := []
  deriving DecidableEq, Repr

/-! ## The indices -/

/-- `by_block_num`: `block_num` ascending, then `in_current_chain` descending -/
def numBefore (a b : BlockState) : Bool :=
  a.blockNum < b.blockNum || a.blockNum == b.blockNum && (a.inCurrentChain && !b.inCurrentChain)

/-- `by_lib_block_num`: `dpos_irreversible_blocknum`, `bft_irreversible_blocknum` and `block_num`,
all descending -/
def libBefore (a b : BlockState) : Bool :=
  a.dposIrreversibleBlocknum > b.dposIrreversibleBlocknum ||
    a.dposIrreversibleBlocknum == b.dposIrreversibleBlocknum &&
      (a.bftIrreversibleBlocknum > b.bftIrreversibleBlocknum ||
        a.bftIrreversibleBlocknum == b.bftIrreversibleBlocknum && a.blockNum > b.blockNum)

/-- `begin()` of `by_block_num` -/
def numBegin (db : ForkDb) : Option BlockState := db.index.head?.map (·.state)

/-- `begin()` of `by_lib_block_num`: of the rows of the first key, the one inserted first -/
def libBegin (index : List Row) : Option BlockState :=
  (index.foldl (fun best r => match best with
    | none => some r
    | some b =>
      if libBefore r.state b.state || !libBefore b.state r.state && r.seq < b.seq then some r
      else some b) none).map (·.state)

/-- the rows of `by_prev` under `id`, in the order they were inserted -/
def children (index : List Row) (id : Nat) : List Row :=
  (index.filter (·.state.header.previous == id)).insertionSort (fun a b => a.seq ≤ b.seq)

/-- `find` on `by_block_id` -/
def getBlock (db : ForkDb) (id : Nat) : Option BlockState :=
  (db.index.find? (·.state.id == id)).map (·.state)

/-- the `link_point` of a non-unique ordered index: after every row the new one does not sort
before -/
def link (x : Row) : List Row → List Row
  | [] => [x]
  | r :: rs => if numBefore x.state r.state then x :: r :: rs else r :: link x rs

/-- `in_place`: the row at `i`, changed to `x`, still sorts between its neighbours -/
def inPlace (index : List Row) (i : Nat) (x : BlockState) : Bool :=
  (match i with
    | 0 => true
    | j + 1 => match index[j]? with
      | some p => !numBefore x p.state
      | none => true) &&
  match index[i + 1]? with
  | some n => !numBefore n.state x
  | none => true

/-- `modify` of the row at `i`: kept in place if it still sorts there, relinked otherwise -/
def modifyRow (index : List Row) (i : Nat) (f : BlockState → BlockState) : List Row :=
  match index[i]? with
  | some r =>
    let r' := { r with state := f r.state }
    if inPlace index i r'.state then index.set i r' else link r' (index.eraseIdx i)
  | none => index

/-- the position of the row of `id` -/
def findRow (index : List Row) (id : Nat) : Option Nat := index.findIdx? (·.state.id == id)

/-! ## `remove` and `prune` -/

/-- the loop of `fork_database::remove` over `remove_queue`: erase the row of the first id, then
queue the rows built on it -/
def removeLoop : Nat → ForkDb → List Nat → ForkDb
  | 0, db, _ => db
  | _, db, [] => db
  | fuel + 1, db, bid :: queue =>
    let db := match findRow db.index bid with
      | some i => match db.index[i]? with
        | some r => { db with index := db.index.eraseIdx i, events := db.events ++ [Event.removed r.state db.head] }
        | none => db
      | none => db
    removeLoop fuel db (queue ++ (children db.index bid).map (·.state.id))

/-- `fork_database::remove`: the block and every block built on it, then the head anew -/
def remove (db : ForkDb) (id : Nat) : ForkDb :=
  let db := removeLoop (db.index.length + 1) db [id]
  { db with head := libBegin db.index }

/-- what `prune` does once no older block is left: the block becomes irreversible and every
other block of its number is removed -/
def pruneSelf (db : ForkDb) (h : BlockState) : ForkDb :=
  let db := match findRow db.index h.id with
    | some i => match db.index[i]? with
      | some r => { db with index := db.index.eraseIdx i, events := db.events ++ [Event.irreversible r.state db.head] }
      | none => db
    | none => db
  -- `remove` of each row of `lower_bound( num )` while its number is `num`
  ((db.index.filter fun r => r.state.blockNum == h.blockNum).map (·.state.id)).foldl remove db

/-- `fork_database::prune`.  The loop `while begin()->block_num < num: prune( begin() )` is the
recursion `prune( begin() )`, then `prune( h )` again; every call erases a row -/
def prune : Nat → ForkDb → BlockState → ForkDb
  | 0, db, _ => db
  | fuel + 1, db, h =>
    match numBegin db with
    | some b => if b.blockNum < h.blockNum then prune fuel (prune fuel db b) h else pruneSelf db h
    | none => pruneSelf db h

/-! ## Adding blocks -/

/-- `fork_database::set` -/
def set (c : Crypto) (db : ForkDb) (s : BlockState) : Except String ForkDb := do
  assert (s.id == s.header.id c) "block state id is different from block state header id"
  assert (findRow db.index s.id).isNone "unable to insert block state, duplicate state detected"
  let index := link ⟨s, db.inserted⟩ db.index
  let head := match db.head with
    | some hd => if hd.blockNum < s.blockNum then some s else some hd
    | none => some s
  pure { db with index, inserted := db.inserted + 1, head }

/-- `fork_database::add( block_state_ptr )`: the head is the first block by irreversible block and
number, and the oldest block goes if it is below the head's irreversible block -/
def addState (db : ForkDb) (n : BlockState) : Except String ForkDb := do
  assert (findRow db.index n.id).isNone "duplicate block added?"
  let index := link ⟨n, db.inserted⟩ db.index
  let db := { db with index, inserted := db.inserted + 1, head := libBegin index }
  match db.head, numBegin db with
  | some hd, some oldest =>
    if oldest.blockNum < hd.dposIrreversibleBlocknum then pure (prune (db.index.length + 1) db oldest)
    else pure db
  | _, _ => pure db

/-- `fork_database::add( signed_block_ptr, trust )`: the block state of the block on its prior -/
def add (c : Crypto) (db : ForkDb) (b : SignedBlockHeader) (trust : Bool) :
    Except String (ForkDb × BlockState) := do
  assert db.head.isSome "no head block set"
  assert (getBlock db (b.id c)).isNone "we already know about this block"
  let prior ← (match getBlock db b.previous with
    | some p => pure p
    | none => throw "unlinkable block")
  let result ← next c prior.toBlockHeaderState b trust
  let n : BlockState := { toBlockHeaderState := result }
  let db ← addState db n
  pure (db, n)

/-- `fork_database::mark_in_current_chain` -/
def markInCurrentChain (db : ForkDb) (h : BlockState) (inCurrentChain : Bool) : Except String ForkDb :=
  match findRow db.index h.id with
  | some i =>
    match db.index[i]? with
    | some r =>
      if r.state.inCurrentChain == inCurrentChain then pure db
      else pure { db with index := modifyRow db.index i fun s => { s with inCurrentChain } }
    | none => pure db
  | none =>
    if h.inCurrentChain == inCurrentChain then pure db
    else throw "could not find block in fork database"

/-- `set_validity( h, true )`: `h->validated = true`, a field no index reads -/
def setValidated (db : ForkDb) (id : Nat) : ForkDb :=
  match findRow db.index id with
  | some i => { db with index := db.index.modify i fun r => { r with state := { r.state with validated := true } } }
  | none => db

/-- the block `previous` points to, or the error of `fetch_branch_from` -/
def getPrevious (db : ForkDb) (b : BlockState) : Except String BlockState :=
  match getBlock db b.header.previous with
  | some p => pure p
  | none => throw "block does not exist"

/-- a loop of `fetch_branch_from`: walk the branch of `b` down to the number `num` -/
def walkDown (db : ForkDb) : Nat → BlockState → Nat → List BlockState →
    Except String (BlockState × List BlockState)
  | 0, b, _, acc => pure (b, acc)
  | fuel + 1, b, num, acc =>
    if b.blockNum > num then do
      let p ← getPrevious db b
      walkDown db fuel p num (acc ++ [b])
    else pure (b, acc)

/-- the last loop of `fetch_branch_from`: walk both branches down to their common prior block -/
def walkBoth (db : ForkDb) : Nat → BlockState → BlockState → List BlockState × List BlockState →
    Except String (List BlockState × List BlockState)
  | 0, _, _, acc => pure acc
  | fuel + 1, f, s, (fs, ss) =>
    if f.header.previous != s.header.previous then do
      let f' ← getPrevious db f
      let s' ← getPrevious db s
      walkBoth db fuel f' s' (fs ++ [f], ss ++ [s])
    else pure (fs ++ [f], ss ++ [s])

/-- `fork_database::fetch_branch_from`: the two branches from `first` and `second`, newest first,
down to the blocks whose `previous` is the common ancestor -/
def fetchBranchFrom (db : ForkDb) (first second : Nat) :
    Except String (List BlockState × List BlockState) := do
  let fuel := db.index.length + 1
  let (f, s) ← (match getBlock db first, getBlock db second with
    | some f, some s => pure (f, s)
    | _, _ => throw "block does not exist")
  let (f, fs) ← walkDown db fuel f s.blockNum []
  let (s, ss) ← walkDown db fuel s f.blockNum []
  walkBoth db fuel f s (fs, ss)

/-! ## The controller -/

/-- the part of `controller_impl` these functions touch -/
structure Controller where
  forkDb : ForkDb
  head : BlockState
  deriving Repr

/-- `controller_impl::initialize_fork_db` -/
def initializeForkDb (c : Crypto) (initialKey initialTimestamp chainId : Nat) : Except String Controller := do
  let head : BlockState := { toBlockHeaderState := genesisState c initialKey initialTimestamp chainId }
  let forkDb ← set c {} head
  pure { forkDb, head }

/-- `controller_impl::pop_block` -/
def popBlock (ctl : Controller) : Except String Controller :=
  match getBlock ctl.forkDb ctl.head.header.previous with
  | some prev => pure { ctl with head := prev }
  | none => throw "attempt to pop beyond last irreversible block"

/-- a block of the new branch applied: it is the head, in the current chain and validated -/
def applyBranchBlock (ctl : Controller) (b : BlockState) : Except String Controller := do
  let db ← markInCurrentChain ctl.forkDb b true
  pure { forkDb := setValidated db b.id, head := b }

/-- a block of the old branch taken off: out of the current chain, then popped -/
def popBranchBlock (ctl : Controller) (b : BlockState) : Except String Controller := do
  let db ← markInCurrentChain ctl.forkDb b false
  popBlock { ctl with forkDb := db }

/-- `controller_impl::maybe_switch_forks`, every block applying; a branch without blocks has no
`back()`, and here fails the check after the pops -/
def maybeSwitchForks (ctl : Controller) : Except String Controller := do
  let newHead ← (match ctl.forkDb.head with
    | some h => pure h
    | none => throw "no head block set")
  if newHead.header.previous == ctl.head.id then
    let db ← markInCurrentChain ctl.forkDb newHead true
    pure { forkDb := setValidated db newHead.id, head := newHead }
  else if newHead.id != ctl.head.id then do
    let (first, second) ← fetchBranchFrom ctl.forkDb newHead.id ctl.head.id
    let ctl ← second.foldlM popBranchBlock ctl
    assert (second.getLast?.map (·.header.previous) == some ctl.head.id)
      "loss of sync between fork_db and chainbase during fork switch"
    first.reverse.foldlM applyBranchBlock ctl
  else pure ctl

/-- `controller_impl::push_block` of a block with its `trust`, which is
`!conf.force_all_checks && (s == irreversible || s == validated)` -/
def pushBlock (c : Crypto) (ctl : Controller) (b : SignedBlockHeader) (trust : Bool) :
    Except String Controller := do
  let (forkDb, _) ← add c ctl.forkDb b trust
  maybeSwitchForks { ctl with forkDb }

def step (c : Crypto) (ctl : Controller) (b : SignedBlockHeader × Bool) : Except String Controller :=
  pushBlock c ctl b.1 b.2

/-! ## `by_block_num` stays sorted -/

/-- the place of a row's key in `by_block_num`: its number, the current chain first -/
def numRank (b : BlockState) : Nat := 2 * b.blockNum + if b.inCurrentChain then 0 else 1

theorem numBefore_iff {a b : BlockState} : numBefore a b = true ↔ numRank a < numRank b := by
  unfold numBefore numRank
  cases a.inCurrentChain <;> cases b.inCurrentChain <;> simp <;> omega

/-- the rows are in the order of their keys -/
def NumSorted (index : List Row) : Prop :=
  index.Pairwise fun a b => numRank a.state ≤ numRank b.state

section Sorted
variable {l : List Row}

theorem link_perm (x : Row) : ∀ l : List Row, List.Perm (link x l) (x :: l)
  | [] => .refl _
  | r :: rs => by
    unfold link
    split
    · exact .refl _
    · exact ((link_perm x rs).cons r).trans (.swap x r rs)

theorem numSorted_link (x : Row) (h : NumSorted l) : NumSorted (link x l) := by
  induction l with
  | nil => exact List.pairwise_singleton _ _
  | cons r rs ih =>
    obtain ⟨hr, hrs⟩ := List.pairwise_cons.mp h
    unfold link
    split
    · next hx =>
      have hx := numBefore_iff.mp hx
      refine List.pairwise_cons.mpr ⟨fun y hy => ?_, h⟩
      rcases List.mem_cons.mp hy with rfl | hy
      · exact hx.le
      · exact hx.le.trans (hr y hy)
    · next hx =>
      have hx : numRank r.state ≤ numRank x.state := by
        simpa [numBefore_iff] using hx
      refine List.pairwise_cons.mpr ⟨fun y hy => ?_, ih hrs⟩
      rcases List.mem_cons.mp ((link_perm x rs).mem_iff.mp hy) with rfl | hy
      · exact hx
      · exact hr y hy

theorem numSorted_eraseIdx (i : Nat) (h : NumSorted l) : NumSorted (l.eraseIdx i) :=
  h.sublist (List.eraseIdx_sublist l i)

theorem NumSorted.rank_le (h : NumSorted l) {a b : Nat} (ha : a < l.length) (hb : b < l.length)
    (hab : a ≤ b) : numRank l[a].state ≤ numRank l[b].state := by
  rcases Nat.lt_or_eq_of_le hab with hab | rfl
  · exact List.pairwise_iff_getElem.mp h a b ha hb hab
  · exact le_refl _

theorem numSorted_set (h : NumSorted l) {i : Nat} {x : Row}
    (hprev : ∀ j (hj : j < l.length), j + 1 = i → numRank l[j].state ≤ numRank x.state)
    (hnext : ∀ hn : i + 1 < l.length, numRank x.state ≤ numRank l[i + 1].state) :
    NumSorted (l.set i x) := by
  rw [NumSorted, List.pairwise_iff_getElem]
  intro a b ha hb hab
  simp only [List.length_set] at ha hb
  rw [List.getElem_set, List.getElem_set]
  split_ifs with hia hib hib
  · omega
  · -- the changed row and a later one
    subst hia
    exact (hnext (by omega)).trans (h.rank_le (by omega) hb (by omega))
  · -- an earlier row and the changed one
    subst hib
    exact (h.rank_le ha (by omega) (by omega)).trans (hprev (i - 1) (by omega) (by omega))
  · exact List.pairwise_iff_getElem.mp h a b ha hb hab

theorem inPlace_spec {i : Nat} {y : BlockState} (hin : inPlace l i y = true) :
    (∀ j (hj : j < l.length), j + 1 = i → numRank l[j].state ≤ numRank y) ∧
      ∀ hn : i + 1 < l.length, numRank y ≤ numRank l[i + 1].state := by
  unfold inPlace at hin
  obtain ⟨hp, hn⟩ := Bool.and_eq_true_iff.mp hin
  constructor
  · intro j hj hji
    subst hji
    simp only [List.getElem?_eq_getElem hj, Bool.not_eq_true'] at hp
    rw [← Bool.not_eq_true, numBefore_iff] at hp
    omega
  · intro hlt
    simp only [List.getElem?_eq_getElem hlt, Bool.not_eq_true'] at hn
    rw [← Bool.not_eq_true, numBefore_iff] at hn
    omega

theorem numSorted_modifyRow (i : Nat) (f : BlockState → BlockState) (h : NumSorted l) :
    NumSorted (modifyRow l i f) := by
  unfold modifyRow
  split
  · next r hr =>
    dsimp only
    split
    · next hin =>
      obtain ⟨hprev, hnext⟩ := inPlace_spec hin
      exact numSorted_set h hprev hnext
    · exact numSorted_link _ (numSorted_eraseIdx i h)
  · exact h

theorem numSorted_modify (i : Nat) {f : Row → Row} (hf : ∀ r, numRank (f r).state = numRank r.state)
    (h : NumSorted l) : NumSorted (l.modify i f) := by
  rw [NumSorted, List.pairwise_iff_getElem]
  intro a b ha hb hab
  simp only [List.length_modify] at ha hb
  have hab' := List.pairwise_iff_getElem.mp h a b ha hb hab
  rw [List.getElem_modify, List.getElem_modify]
  split_ifs <;> simpa only [hf] using hab'

end Sorted

section Operations
variable {c : Crypto} {db db' : ForkDb}

theorem numSorted_removeLoop :
    ∀ (fuel : Nat) (db : ForkDb) (q : List Nat), NumSorted db.index → NumSorted (removeLoop fuel db q).index
  | 0, _, _, h => h
  | _ + 1, _, [], h => h
  | fuel + 1, db, bid :: q, h => by
    unfold removeLoop
    apply numSorted_removeLoop fuel
    split
    · split
      · exact numSorted_eraseIdx _ h
      · exact h
    · exact h

theorem numSorted_remove (id : Nat) (h : NumSorted db.index) : NumSorted (remove db id).index :=
  numSorted_removeLoop _ db [id] h

theorem numSorted_foldl_remove :
    ∀ (ids : List Nat) (db : ForkDb), NumSorted db.index → NumSorted (ids.foldl remove db).index
  | [], _, h => h
  | bid :: ids, db, h => numSorted_foldl_remove ids (remove db bid) (numSorted_remove bid h)

theorem numSorted_pruneSelf (h : BlockState) (hs : NumSorted db.index) : NumSorted (pruneSelf db h).index := by
  unfold pruneSelf
  apply numSorted_foldl_remove
  split
  · split
    · exact numSorted_eraseIdx _ hs
    · exact hs
  · exact hs

theorem numSorted_prune : ∀ (fuel : Nat) (db : ForkDb) (h : BlockState),
    NumSorted db.index → NumSorted (prune fuel db h).index
  | 0, _, _, hs => hs
  | fuel + 1, db, h, hs => by
    unfold prune
    split
    · split
      · exact numSorted_prune fuel _ h (numSorted_prune fuel db _ hs)
      · exact numSorted_pruneSelf h hs
    · exact numSorted_pruneSelf h hs

theorem numSorted_addState {n : BlockState} (h : addState db n = .ok db') (hs : NumSorted db.index) :
    NumSorted db'.index := by
  unfold addState at h
  obtain ⟨-, h⟩ := assert_bind_eq_ok.mp h
  have hl := numSorted_link ⟨n, db.inserted⟩ hs
  dsimp only at h
  split at h
  · split at h
    · cases h
      exact numSorted_prune _ _ _ hl
    · cases h
      exact hl
  · cases h
    exact hl

theorem numSorted_add {b : SignedBlockHeader} {trust : Bool} {n : BlockState}
    (h : add c db b trust = .ok (db', n)) (hs : NumSorted db.index) : NumSorted db'.index := by
  unfold add at h
  obtain ⟨-, h⟩ := assert_bind_eq_ok.mp h
  obtain ⟨-, h⟩ := assert_bind_eq_ok.mp h
  obtain ⟨prior, -, h⟩ := bind_eq_ok.mp h
  obtain ⟨result, -, h⟩ := bind_eq_ok.mp h
  obtain ⟨db2, h2, h⟩ := bind_eq_ok.mp h
  cases h
  exact numSorted_addState h2 hs

theorem numSorted_markInCurrentChain {b : BlockState} {flag : Bool}
    (h : markInCurrentChain db b flag = .ok db') (hs : NumSorted db.index) : NumSorted db'.index := by
  unfold markInCurrentChain at h
  split at h
  · split at h
    · split at h
      · cases h
        exact hs
      · cases h
        dsimp only
        exact numSorted_modifyRow _ _ hs
    · cases h
      exact hs
  · split at h
    · cases h
      exact hs
    · cases h

theorem numSorted_setValidated (id : Nat) (hs : NumSorted db.index) : NumSorted (setValidated db id).index := by
  unfold setValidated
  split
  · exact numSorted_modify _ (fun _ => rfl) hs
  · exact hs

/-- `by_block_num` of the controller's fork database is sorted -/
def ControllerSorted (ctl : Controller) : Prop := NumSorted ctl.forkDb.index

theorem controllerSorted_applyBranchBlock {ctl ctl' : Controller} {b : BlockState}
    (h : applyBranchBlock ctl b = .ok ctl') (hs : ControllerSorted ctl) : ControllerSorted ctl' := by
  unfold applyBranchBlock at h
  obtain ⟨db, hdb, h⟩ := bind_eq_ok.mp h
  cases h
  exact numSorted_setValidated _ (numSorted_markInCurrentChain hdb hs)

theorem controllerSorted_popBranchBlock {ctl ctl' : Controller} {b : BlockState}
    (h : popBranchBlock ctl b = .ok ctl') (hs : ControllerSorted ctl) : ControllerSorted ctl' := by
  unfold popBranchBlock at h
  obtain ⟨db, hdb, h⟩ := bind_eq_ok.mp h
  unfold popBlock at h
  split at h
  · cases h
    exact numSorted_markInCurrentChain hdb hs
  · cases h

theorem controllerSorted_maybeSwitchForks {ctl ctl' : Controller} (h : maybeSwitchForks ctl = .ok ctl')
    (hs : ControllerSorted ctl) : ControllerSorted ctl' := by
  unfold maybeSwitchForks at h
  obtain ⟨newHead, -, h⟩ := bind_eq_ok.mp h
  split at h
  · obtain ⟨db, hdb, h⟩ := bind_eq_ok.mp h
    cases h
    exact numSorted_setValidated _ (numSorted_markInCurrentChain hdb hs)
  · split at h
    · obtain ⟨⟨first, second⟩, -, h⟩ := bind_eq_ok.mp h
      obtain ⟨ctl1, h1, h⟩ := bind_eq_ok.mp h
      obtain ⟨-, h⟩ := assert_bind_eq_ok.mp h
      have hs1 := foldlM_inv ControllerSorted (fun _ _ _ hs h => controllerSorted_popBranchBlock h hs)
        second ctl ctl1 hs h1
      exact foldlM_inv ControllerSorted (fun _ _ _ hs h => controllerSorted_applyBranchBlock h hs)
        first.reverse ctl1 ctl' hs1 h
    · cases h
      exact hs

/-- **Step lemma.** -/
theorem controllerSorted_step {ctl ctl' : Controller} {e : SignedBlockHeader × Bool}
    (h : step c ctl e = .ok ctl') (hs : ControllerSorted ctl) : ControllerSorted ctl' := by
  unfold step pushBlock at h
  obtain ⟨⟨forkDb, n⟩, hadd, h⟩ := bind_eq_ok.mp h
  exact controllerSorted_maybeSwitchForks h (numSorted_add hadd hs)

theorem controllerSorted_init {initialKey initialTimestamp chainId : Nat} {ctl : Controller}
    (h : initializeForkDb c initialKey initialTimestamp chainId = .ok ctl) : ControllerSorted ctl := by
  unfold initializeForkDb at h
  obtain ⟨db, hdb, h⟩ := bind_eq_ok.mp h
  cases h
  unfold set at hdb
  obtain ⟨-, hdb⟩ := assert_bind_eq_ok.mp hdb
  obtain ⟨-, hdb⟩ := assert_bind_eq_ok.mp hdb
  cases hdb
  exact numSorted_link _ List.Pairwise.nil

end Operations

/-! ## Irreversible blocks and the head's branch -/

/-- `b` is `h` or a block `h` is built on, following `previous` through `blocks` -/
def onBranch (blocks : List BlockHeaderState) : Nat → BlockHeaderState → BlockHeaderState → Bool
  | 0, h, b => h.id == b.id
  | fuel + 1, h, b =>
    h.id == b.id || match blocks.find? (·.id == h.header.previous) with
      | some p => onBranch blocks fuel p b
      | none => false

/-- every block passed to `irreversible` is on the branch of the head of that moment, and no row
`remove` erases is -/
def eventsOnHeadBranch (blocks : List BlockHeaderState) (events : List Event) : Bool :=
  events.all fun e => match e with
    | .irreversible b (some h) => onBranch blocks blocks.length h.toBlockHeaderState b.toBlockHeaderState
    | .removed b (some h) => !onBranch blocks blocks.length h.toBlockHeaderState b.toBlockHeaderState
    | _ => true

/-- an event as whether it is `irreversible`, the id of its block and the id of the head -/
def Event.ids : Event → Bool × Nat × Option Nat
  | .irreversible b h => (true, b.id, h.map (·.id))
  | .removed b h => (false, b.id, h.map (·.id))

/-- digests that tell headers apart by their timestamp, and a recovery that returns the
signature -/
def forkCrypto : Crypto where
  headerDigest h := h.timestamp * 2 ^ 32
  scheduleDigest _ := 0
  pairDigest _ _ := 0
  recover sig _ := sig

/-- the header state the system account's header at slot `when` makes on `s` -/
def honestState (s : BlockHeaderState) (when : Nat) : BlockHeaderState :=
  match next forkCrypto s (honestHeader s when 0 none) false with
  | .ok r => r
  | .error _ => s

def sampleGenesis : BlockHeaderState := genesisState forkCrypto 10 0 0
def sampleA2 : BlockHeaderState := honestState sampleGenesis 1
def sampleB2 : BlockHeaderState := honestState sampleGenesis 2
def sampleA3 : BlockHeaderState := honestState sampleA2 3
def sampleB3 : BlockHeaderState := honestState sampleB2 4
def sampleB4 : BlockHeaderState := honestState sampleB3 5

def sampleBlocks : List BlockHeaderState :=
  [sampleGenesis, sampleA2, sampleB2, sampleA3, sampleB3, sampleB4]

/-- the system account, the only producer, signs two branches on genesis: A2, A3 at slots 1, 3
and B2, B3, B4 at slots 2, 4, 5; the node receives A2, B2, A3, B3, B4 -/
def sampleForkRun : List (SignedBlockHeader × Bool) :=
  [(honestHeader sampleGenesis 1 0 none, false), (honestHeader sampleGenesis 2 0 none, false),
   (honestHeader sampleA2 3 0 none, false), (honestHeader sampleB2 4 0 none, false),
   (honestHeader sampleB3 5 0 none, false)]

def sampleFork : Except String Controller := do
  let ctl ← initializeForkDb forkCrypto 10 0 0
  sampleForkRun.foldlM (step forkCrypto) ctl

/-- Every push succeeds.  B4 has irreversible block 3 and becomes the head of the fork database
in `add`, while A2, A3 are still marked in the current chain; `prune` of the oldest block by
`by_block_num` takes A2 over B2, passes A2 to `irreversible` with B4 the head, and `remove` of B2
erases B2, B3 and the head B4.  Only A3 is left. -/
theorem prune_commits_off_head_branch :
    (sampleFork.toOption.map fun ctl => eventsOnHeadBranch sampleBlocks ctl.forkDb.events) = some false ∧
      (sampleFork.toOption.map fun ctl => ctl.forkDb.events.map Event.ids) =
        some [(true, sampleGenesis.id, some sampleA3.id), (true, sampleA2.id, some sampleB4.id),
          (false, sampleB2.id, some sampleB4.id), (false, sampleB3.id, some sampleB4.id),
          (false, sampleB4.id, some sampleB4.id)] ∧
      (sampleFork.toOption.map fun ctl => ctl.forkDb.index.map (·.state.id)) = some [sampleA3.id] :=
  ⟨by decide, by decide, by decide⟩

end Eos.ForkDatabase
