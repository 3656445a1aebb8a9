import Eoscochain.Lib.Table
import Eoscochain.Chain.BlockHeaderState

/-!
# fork_store: the ICP light client's store of peer headers

contracts/icp fork.hpp and fork.cpp.  The store holds

* `blockStates`  table `blockstate` (`stored_block_header_state`): the headers the client
                 validated, with their merkle of block ids;
* `blocks`       table `block` (`stored_block_header`): those headers and the ids that only
                 appeared on a merkle path, with their action merkle roots;
* the singletons `activesched`, `pendingsched` and `storemeter` (`none` when absent).

Rows are kept in primary-key order; `to_key256` is injective, so an index on it is an index on
the id.  The recursion of `prune` and the queue of `remove` run on `fuel`, the iterations the
transaction's CPU deadline allows: past it the transaction aborts with `"deadline exceeded"`.
`*index.begin()` of an empty index reads the all-zero row (undefined behaviour in the source);
the block counters are `Nat` (a `uint32_t` wrap needs `2^32` rows).  The contract's
`get_scheduled_producer`, `calc_dpos_last_irreversible` and `sig_digest` (types.cpp) are the
chain's code and are the chain's definitions here.
-/

set_option linter.unusedSectionVars false

namespace Eos.Icp

open Machine Table BlockHeaderState

/-- `stored_block_header`, a row of table `block`; `action_mroot` is zero when absent -/
structure StoredBlockHeader where
  pk : Nat
  id : Nat
  blockNum : Nat
  previous : Nat
  actionMroot : Nat := 0
  deriving DecidableEq, Repr

/-- `stored_block_header::has_action_mroot` -/
def StoredBlockHeader.hasActionMroot (b : StoredBlockHeader) : Bool := b.actionMroot != 0

/-- `stored_block_header_state`, a row of table `blockstate` -/
structure StoredBlockHeaderState where
  pk : Nat
  id : Nat
  blockNum : Nat
  previous : Nat
  dposIrreversibleBlocknum : Nat
  bftIrreversibleBlocknum : Nat
  blockrootMerkle : BlockMerkle
  deriving DecidableEq, Repr

namespace StoredBlockHeaderState

/-- `stored_block_header_state::last_irreversible_blocknum` -/
def lastIrreversibleBlocknum (b : StoredBlockHeaderState) : Nat :=
  max b.dposIrreversibleBlocknum b.bftIrreversibleBlocknum

/-- `stored_block_header_state::by_lib_block_num`: the largest irreversibility first -/
def byLibBlockNum (b : StoredBlockHeaderState) : Nat :=
  2 ^ 128 - 1 - (b.dposIrreversibleBlocknum * 2 ^ 64 + b.bftIrreversibleBlocknum * 2 ^ 32
    + b.blockNum)

/-- the all-zero row -/
def zero : StoredBlockHeaderState := ⟨0, 0, 0, 0, 0, 0, IncrementalMerkle.empty⟩

end StoredBlockHeaderState

/-- `pending_schedule` -/
structure PendingSchedule where
  pendingScheduleLibNum : Nat
  pendingScheduleHash : Nat
  pendingSchedule : ProducerSchedule
  deriving DecidableEq, Repr

/-- a meter singleton, `store_meter {max_blocks, current_blocks}` of the store and
`icp_meter {max_packets, current_packets}` of the contract: the rows counted and their limit -/
structure Meter where
  max : Nat
  current : Nat
  deriving DecidableEq, Repr

/-- `store_meter` -/
abbrev StoreMeter := Meter

/-- the tables and singletons of `fork_store` -/
structure ForkStore where
  blockStates : List StoredBlockHeaderState := []
  blocks : List StoredBlockHeader := []
  activeSchedule : Option ProducerSchedule := none
  pendingSchedule : Option PendingSchedule := none
  storeMeter : Option StoreMeter := none
  deriving DecidableEq, Repr

/-- `singleton::get` -/
def getSingleton {β : Type} (o : Option β) : Except String β :=
  match o with
  | some b => pure b
  | none => throw "singleton does not exist"

/-- the body of `meter_add_blocks` and `meter_add_packets`: count `num` more rows, within the
limit -/
def meterAdd (meter : Option Meter) (num : Nat) (msg : String) : Except String (Option Meter) :=
  if num = 0 then pure meter
  else do
    let m ← getSingleton meter
    let m := { m with current := m.current + num }
    assert (decide (m.current ≤ m.max)) msg
    pure (some m)

/-- the body of `meter_remove_blocks` and `meter_remove_packets`: `num` fewer rows, not below
zero -/
def meterRemove (meter : Option Meter) (num : Nat) : Except String (Option Meter) :=
  if num = 0 then pure meter
  else do
    let m ← getSingleton meter
    pure (some { m with current := if m.current ≥ num then m.current - num else 0 })

namespace ForkStore

/-- `*_block_states.get_index<N(libblocknum)>().begin()`: the head by irreversibility -/
def head (st : ForkStore) : StoredBlockHeaderState :=
  (firstBy StoredBlockHeaderState.byLibBlockNum st.blockStates).getD StoredBlockHeaderState.zero

/-- `fork_store::set_max_blocks` -/
def setMaxBlocks (st : ForkStore) (max : Nat) : ForkStore :=
  { st with storeMeter := some ⟨max, 0⟩ }

/-- `fork_store::fork_store`: the meter is created with the default limit on first use -/
def create (st : ForkStore) : ForkStore :=
  if st.storeMeter.isSome then st else setMaxBlocks st (2 * 60 * 60 + 120)

/-- `fork_store::meter_add_blocks` -/
def meterAddBlocks (st : ForkStore) (num : Nat) : Except String ForkStore := do
  let meter ← meterAdd st.storeMeter num "exceed max blocks"
  pure { st with storeMeter := meter }

/-- `fork_store::meter_remove_blocks` -/
def meterRemoveBlocks (st : ForkStore) (num : Nat) : Except String ForkStore := do
  let meter ← meterRemove st.storeMeter num
  pure { st with storeMeter := meter }

/-- `fork_store::is_producer` -/
def isProducer (st : ForkStore) (name key : Nat) : Except String Bool := do
  let schedule ← getSingleton st.activeSchedule
  pure (schedule.producers.any fun p => p.producerName == name && p.blockSigningKey == key)

/-- `fork_store::update_active_schedule` -/
def updateActiveSchedule (st : ForkStore) (schedule : ProducerSchedule)
    (clearPending : Bool := true) : Except String ForkStore :=
  let st := { st with activeSchedule := some schedule }
  if clearPending then do
    let s ← getSingleton st.pendingSchedule
    let cleared : ProducerSchedule := { s.pendingSchedule with producers := [] }
    pure { st with pendingSchedule := some { s with pendingSchedule := cleared } }
  else pure st

/-- `fork_store::set_pending_schedule` -/
def setPendingSchedule (st : ForkStore) (libNum hash : Nat) (schedule : ProducerSchedule) :
    ForkStore :=
  { st with pendingSchedule := some ⟨libNum, hash, schedule⟩ }

/-- `block_header_state::validate`: the signature over `sig_digest` and the id -/
def validateHeader (c : Crypto) (h : BlockHeaderState) : Except String Unit := do
  assert (c.recover h.producerSignature (BlockHeaderState.sigDigest c h) == h.blockSigningKey)
    "Error expected key different than recovered key"
  assert (h.header.id c == h.id) "invalid block id"

/-- `fork_store::validate_block_state` -/
def validateBlockState (c : Crypto) (st : ForkStore) (h : BlockHeaderState) :
    Except String ForkStore := do
  validateHeader c h
  assert (!(st.blockStates.any (·.id == h.id))) "already existing block"
  let isProd ← isProducer st h.header.producer h.blockSigningKey
  assert isProd "invalid producer"
  assert ((numFromId h.header.previous + 1) % 2 ^ 32 == h.blockNum) "unlinkable block"
  let prokey ← h.getScheduledProducer h.header.timestamp
  assert (prokey.producerName == h.header.producer) "invalid producer"
  assert (prokey.blockSigningKey == h.blockSigningKey) "invalid producer"
  assert (h.activeSchedule.producers.any (·.producerName == h.header.producer)) "invalid producer"
  assert (h.calcDposLastIrreversible == h.dposIrreversibleBlocknum)
    "invalid dpos irreversible block num"
  match h.header.newProducers with
  | some np => do
    assert (np.version == h.activeSchedule.version + 1) "wrong producer schedule version specified"
    assert (h.pendingScheduleHash == c.scheduleDigest np) "invalid new producers"
    assert (h.pendingScheduleHash == c.scheduleDigest h.pendingSchedule) "invalid new producers"
    assert (h.pendingScheduleLibNum == h.blockNum) "invalid pending schedule lib num"
    pure (setPendingSchedule st h.pendingScheduleLibNum h.pendingScheduleHash h.pendingSchedule)
  | none => pure st

/-- `fork_store::get_producer_schedule` -/
def getProducerSchedule (st : ForkStore) : Except String ProducerSchedule :=
  getSingleton st.activeSchedule

/-- `fork_store::get_block_mroot`: the stored merkle of a validated header -/
def getBlockMroot (st : ForkStore) (blockId : Nat) : Except String BlockMerkle :=
  match st.blockStates.find? (·.id == blockId) with
  | some b => pure b.blockrootMerkle
  | none => throw "unable to find secondary key"

/-- `fork_store::add_block_id`: an id met on a merkle path, without its action merkle root -/
def addBlockId (st : ForkStore) (blockId previous : Nat) : Except String ForkStore := do
  assert (!(st.blocks.any (·.id == blockId))) "already existing block"
  pure { st with blocks := st.blocks ++
    [{ pk := nextPk (·.pk) st.blocks, id := blockId, blockNum := numFromId blockId,
       previous := previous }] }

/-- the queue loop of `fork_store::remove`: `queue[i]` is erased from both tables and the
children of it in both tables join the queue; `num` counts the erased `block` rows -/
def removeLoop : Nat → List Nat → Nat → ForkStore → Nat → Except String (ForkStore × Nat)
  | 0, _, _, _, _ => throw "deadline exceeded"
  | fuel + 1, queue, i, st, num =>
    match queue[i]? with
    | none => pure (st, num)
    | some q =>
      let states := st.blockStates.eraseP (·.id == q)
      let erased := st.blocks.any (·.id == q)
      let blocks := st.blocks.eraseP (·.id == q)
      let children := (states.filter (·.previous == q)).map (·.id)
        ++ (blocks.filter (·.previous == q)).map (·.id)
      removeLoop fuel (queue ++ children) (i + 1)
        { st with blockStates := states, blocks := blocks } (if erased then num + 1 else num)

/-- `fork_store::remove`: a block and all its successive blocks -/
def remove (fuel : Nat) (st : ForkStore) (blockId : Nat) : Except String ForkStore := do
  let (st, num) ← removeLoop fuel [blockId] 0 st 0
  meterRemoveBlocks st num

/-- the second loop of `fork_store::prune`: `remove` of every header at one block number, in
index order -/
def removeAll (fuel : Nat) : ForkStore → List Nat → Except String ForkStore
  | st, [] => pure st
  | st, blockId :: ids => do
    let st ← remove fuel st blockId
    removeAll fuel st ids

/-- `fork_store::prune` at block number `num`: first every lower block number, smallest first,
then the headers at `num` -/
def prune : Nat → ForkStore → Nat → Except String ForkStore
  | 0, _, _ => throw "deadline exceeded"
  | fuel + 1, st, num =>
    match firstBy (·.blockNum) st.blockStates with
    | some b =>
      if b.blockNum < num then do
        let st ← prune fuel st b.blockNum
        prune fuel st num
      else removeAll fuel st ((st.blockStates.filter (·.blockNum == num)).map (·.id))
    | none => removeAll fuel st ((st.blockStates.filter (·.blockNum == num)).map (·.id))

/-- `fork_store::add_block_state` -/
def addBlockState (fuel : Nat) (st : ForkStore) (h : BlockHeaderState) :
    Except String ForkStore := do
  assert (!(st.blockStates.any (·.id == h.id))) "already existing block"
  let st ← meterAddBlocks st 1
  let st := { st with
    blockStates := st.blockStates ++
      [{ pk := nextPk (·.pk) st.blockStates, id := h.id, blockNum := h.blockNum,
         previous := h.header.previous, dposIrreversibleBlocknum := h.dposIrreversibleBlocknum,
         bftIrreversibleBlocknum := h.bftIrreversibleBlocknum,
         blockrootMerkle := h.blockrootMerkle }]
    blocks := st.blocks ++
      [{ pk := nextPk (·.pk) st.blocks, id := h.id, blockNum := h.blockNum,
         previous := h.header.previous, actionMroot := h.header.actionMroot }] }
  let lib := st.head.dposIrreversibleBlocknum
  let oldest := (firstBy (·.blockNum) st.blockStates).getD StoredBlockHeaderState.zero
  if oldest.blockNum < lib then prune fuel st oldest.blockNum else pure st

/-- the merkle-path loop of `add_block_header_with_merkle_path`: each id after the first is
appended to the merkle and recorded with the id before it as its previous -/
def pathLoop (c : Crypto) : ForkStore → BlockMerkle → Nat → List Nat →
    Except String (ForkStore × BlockMerkle)
  | st, m, _, [] => pure (st, m)
  | st, m, pit, it :: rest => do
    let m := c.mappend m it
    let st ← addBlockId st it pit
    pathLoop c st m it rest

/-- the merkle of a header as the contract rebuilds it, with the store after the path loop:
the stored merkle of the first path block (or of `previous`), the rest of the path, then the
header's own id -/
def linkMerkle (c : Crypto) (st : ForkStore) (h : BlockHeaderState) (merklePath : List Nat) :
    Except String (ForkStore × BlockMerkle) := do
  let prevId := match merklePath with
    | [] => h.header.previous
    | p :: _ => p
  let m ← getBlockMroot st prevId
  let (st, m) ← match merklePath with
    | [] => pure (st, m)
    | p :: rest => do
      let (st, m) ← pathLoop c st m p rest
      let st ← meterAddBlocks st rest.length
      pure (st, m)
  pure (st, c.mappend m h.id)

/-- the producer schedule change checks of `add_block_header_with_merkle_path` -/
def checkScheduleChange (c : Crypto) (st : ForkStore) (h : BlockHeaderState) :
    Except String ForkStore := do
  let current ← getProducerSchedule st
  if c.scheduleDigest h.activeSchedule != c.scheduleDigest current then do
    let p ← getSingleton st.pendingSchedule
    assert (c.scheduleDigest h.activeSchedule == c.scheduleDigest p.pendingSchedule)
      "mismatched schedule"
    assert (h.pendingScheduleHash == c.scheduleDigest h.activeSchedule) "invalid new producers"
    assert (h.activeSchedule.version + 1 == h.pendingSchedule.version)
      "invalid producer schedule version"
    assert (decide (h.dposIrreversibleBlocknum ≥ h.pendingScheduleLibNum))
      "changed producer schedule before irreversible"
    assert (decide (h.dposIrreversibleBlocknum ≤ h.pendingScheduleLibNum + 12))
      "changed producer schedule too late"
    updateActiveSchedule st h.activeSchedule
  else pure st

/-- `fork_store::add_block_header_with_merkle_path` -/
def addBlockHeaderWithMerklePath (c : Crypto) (fuel : Nat) (st : ForkStore)
    (h : BlockHeaderState) (merklePath : List Nat) : Except String ForkStore := do
  let st ← validateBlockState c st h
  let st ← checkScheduleChange c st h
  let (st, m) ← linkMerkle c st h merklePath
  assert (mroot h.blockrootMerkle == mroot m) "unlinkable block"
  addBlockState fuel st h

/-- `fork_store::init_seed_block` -/
def initSeedBlock (c : Crypto) (fuel : Nat) (st : ForkStore) (blockState : BlockHeaderState) :
    Except String ForkStore := do
  assert st.blockStates.isEmpty "already seeded"
  let st ← updateActiveSchedule st blockState.activeSchedule false
  let st ← validateBlockState c st blockState
  addBlockState fuel st blockState

/-- `fork_store::reset` -/
def reset (st : ForkStore) : Except String ForkStore :=
  meterRemoveBlocks
    { st with blockStates := [], blocks := [], activeSchedule := none, pendingSchedule := none }
    (2 ^ 32 - 1)

/-- `fork_store::add_block_header`: the action merkle root of a stored block -/
def addBlockHeader (c : Crypto) (st : ForkStore) (h : BlockHeader) : Except String ForkStore :=
  match st.blocks.find? (·.id == h.id c) with
  | none => throw "missing block"
  | some b => do
    assert (!b.hasActionMroot) "already complete block"
    let i := st.blocks.findIdx (·.id == h.id c)
    pure { st with blocks := st.blocks.modify i (fun o => { o with actionMroot := h.actionMroot }) }

/-- `fork_store::cutdown`: the headers up to an irreversible block number are dropped, the
irreversible head itself kept -/
def cutdown (st : ForkStore) (blockNum : Nat) : Except String ForkStore := do
  let lib := st.head.lastIrreversibleBlocknum
  assert (decide (blockNum ≤ lib)) "block number not irreversible"
  let blockNum := if blockNum = lib then (lib + 2 ^ 32 - 1) % 2 ^ 32 else blockNum
  let states := eraseWhileFirst (·.blockNum) (fun b => decide (b.blockNum ≤ blockNum))
    st.blockStates.length st.blockStates
  let blocks := eraseWhileFirst (·.blockNum) (fun b => decide (b.blockNum ≤ blockNum))
    st.blocks.length st.blocks
  meterRemoveBlocks { st with blockStates := states.1, blocks := blocks.1 } blocks.2

/-- `fork_store::get_action_mroot` -/
def getActionMroot (st : ForkStore) (blockId : Nat) : Except String Nat :=
  match st.blocks.find? (·.id == blockId) with
  | none => throw "unable to find secondary key"
  | some b => do
    assert (decide (b.blockNum ≤ st.head.lastIrreversibleBlocknum)) "block number not irreversible"
    pure b.actionMroot

/-! ## What the operations keep -/

theorem validateBlockState_eq_ok {c : Crypto} {st st' : ForkStore} {h : BlockHeaderState}
    (hv : validateBlockState c st h = .ok st') :
    st' = st ∨ st' = st.setPendingSchedule h.pendingScheduleLibNum h.pendingScheduleHash
      h.pendingSchedule := by
  unfold validateBlockState at hv
  obtain ⟨-, -, hv⟩ := bind_eq_ok.mp hv
  obtain ⟨-, hv⟩ := assert_bind_eq_ok.mp hv
  obtain ⟨isProd, -, hv⟩ := bind_eq_ok.mp hv
  obtain ⟨-, hv⟩ := assert_bind_eq_ok.mp hv
  obtain ⟨-, hv⟩ := assert_bind_eq_ok.mp hv
  obtain ⟨prokey, -, hv⟩ := bind_eq_ok.mp hv
  obtain ⟨-, hv⟩ := assert_bind_eq_ok.mp hv
  obtain ⟨-, hv⟩ := assert_bind_eq_ok.mp hv
  obtain ⟨-, hv⟩ := assert_bind_eq_ok.mp hv
  obtain ⟨-, hv⟩ := assert_bind_eq_ok.mp hv
  split at hv
  · obtain ⟨-, hv⟩ := assert_bind_eq_ok.mp hv
    obtain ⟨-, hv⟩ := assert_bind_eq_ok.mp hv
    obtain ⟨-, hv⟩ := assert_bind_eq_ok.mp hv
    obtain ⟨-, hv⟩ := assert_bind_eq_ok.mp hv
    cases hv
    exact .inr rfl
  · cases hv
    exact .inl rfl

theorem validateBlockState_activeSchedule {c : Crypto} {st st' : ForkStore}
    {h : BlockHeaderState} (hv : validateBlockState c st h = .ok st') :
    st'.activeSchedule = st.activeSchedule := by
  rcases validateBlockState_eq_ok hv with rfl | rfl
  · rfl
  · rfl

theorem updateActiveSchedule_eq_ok {st st' : ForkStore} {s : ProducerSchedule} {clear : Bool}
    (h : updateActiveSchedule st s clear = .ok st') :
    ∃ p, st' = { st with activeSchedule := some s, pendingSchedule := p } := by
  unfold updateActiveSchedule at h
  split at h
  · obtain ⟨p, -, h⟩ := bind_eq_ok.mp h
    cases h
    exact ⟨_, rfl⟩
  · cases h
    exact ⟨_, rfl⟩

theorem checkScheduleChange_eq_ok {c : Crypto} {st st' : ForkStore} {h : BlockHeaderState}
    (hc : checkScheduleChange c st h = .ok st') :
    ∃ a p, st' = { st with activeSchedule := a, pendingSchedule := p } := by
  unfold checkScheduleChange at hc
  obtain ⟨cur, -, hc⟩ := bind_eq_ok.mp hc
  split at hc
  · obtain ⟨p, -, hc⟩ := bind_eq_ok.mp hc
    obtain ⟨-, hc⟩ := assert_bind_eq_ok.mp hc
    obtain ⟨-, hc⟩ := assert_bind_eq_ok.mp hc
    obtain ⟨-, hc⟩ := assert_bind_eq_ok.mp hc
    obtain ⟨-, hc⟩ := assert_bind_eq_ok.mp hc
    obtain ⟨-, hc⟩ := assert_bind_eq_ok.mp hc
    obtain ⟨p', rfl⟩ := updateActiveSchedule_eq_ok hc
    exact ⟨_, _, rfl⟩
  · cases hc
    exact ⟨st.activeSchedule, st.pendingSchedule, rfl⟩

end ForkStore

end Eos.Icp
