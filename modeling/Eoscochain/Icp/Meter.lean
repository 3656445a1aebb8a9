import Eoscochain.Icp.Actions
import Eoscochain.Icp.Honest
import Eoscochain.Lib.Run

/-!
# The meters of the ICP contract

The store meter counts the rows of table `block`, the ICP meter those of `packets`.  Every
operation of the store adds or erases rows and moves the count by as many; `setmaxblocks` and
`setmaxpackes` write a meter with a count of zero.

* `Metered meter n`          the meter counts `n` rows within its limit;
* `meterAdd_metered`, `meterRemove_metered`   the two updates;
* `BlocksMetered`            the store meter counts the `block` rows; each store operation keeps
                             it, `addBlockState_blocksMetered` through `cutdown_blocksMetered`;
* `PacketsMetered`           the ICP meter counts the `packets` rows.
-/

set_option linter.unusedSectionVars false

namespace Eos.Icp

open Machine Table ForkStore IcpState

/-! ## A meter over a table -/

/-- the meter counts `n` rows within its limit, a `uint32_t`; without a meter the table is
empty -/
def Metered (meter : Option Meter) (n : Nat) : Prop :=
  meter = none ∧ n = 0 ∨
    ∃ m, meter = some m ∧ m.current = n ∧ m.current ≤ m.max ∧ m.max < 2 ^ 32

theorem metered_fresh {max : Nat} (h : max < 2 ^ 32) : Metered (some ⟨max, 0⟩) 0 :=
  .inr ⟨_, rfl, rfl, Nat.zero_le _, h⟩

theorem meterAdd_metered {meter meter' : Option Meter} {n k : Nat} {msg : String}
    (hm : Metered meter n) (h : meterAdd meter k msg = .ok meter') : Metered meter' (n + k) := by
  unfold meterAdd at h
  split at h
  · next hk =>
    cases h
    simpa [hk] using hm
  · obtain ⟨m, hget, h⟩ := bind_eq_ok.mp h
    obtain ⟨hle, h⟩ := assert_bind_eq_ok.mp h
    cases h
    rcases hm with ⟨rfl, -⟩ | ⟨m0, rfl, hcur, -, hmax⟩
    · cases hget
    · cases hget
      exact .inr ⟨_, rfl, by simp [hcur], by simpa using hle, hmax⟩

theorem meterRemove_metered {meter meter' : Option Meter} {n k : Nat} (hm : Metered meter n)
    (hk : k ≤ n) (h : meterRemove meter k = .ok meter') : Metered meter' (n - k) := by
  unfold meterRemove at h
  split at h
  · next hk0 =>
    cases h
    simpa [hk0] using hm
  · obtain ⟨m, hget, h⟩ := bind_eq_ok.mp h
    cases h
    rcases hm with ⟨rfl, -⟩ | ⟨m0, rfl, hcur, hle, hmax⟩
    · cases hget
    · cases hget
      refine .inr ⟨_, rfl, ?_, ?_, hmax⟩
      · simp only
        split <;> omega
      · simp only
        split <;> omega

theorem meterRemove_all {meter meter' : Option Meter} {n : Nat} (hm : Metered meter n)
    (h : meterRemove meter (2 ^ 32 - 1) = .ok meter') : Metered meter' 0 := by
  have hn : n ≤ 2 ^ 32 - 1 := by
    rcases hm with ⟨-, rfl⟩ | ⟨m, -, hcur, hle, hmax⟩ <;> omega
  have hcases : n = 2 ^ 32 - 1 ∨ n < 2 ^ 32 - 1 := by omega
  unfold meterRemove at h
  obtain ⟨m, hget, h⟩ := bind_eq_ok.mp h
  cases h
  rcases hm with ⟨rfl, -⟩ | ⟨m0, rfl, hcur, hle, hmax⟩
  · cases hget
  · cases hget
    refine .inr ⟨_, rfl, ?_, ?_, hmax⟩
    · simp only
      split <;> omega
    · simp only
      split <;> omega

/-! ## The block meter of the store -/

/-- the store meter counts the rows of table `block` -/
def BlocksMetered (st : ForkStore) : Prop := Metered st.storeMeter st.blocks.length

theorem create_blocksMetered {st : ForkStore} (h : BlocksMetered st) :
    BlocksMetered st.create := by
  unfold ForkStore.create
  split
  · exact h
  · next hnone =>
    rcases h with ⟨-, hlen⟩ | ⟨m, hm, -⟩
    · unfold BlocksMetered ForkStore.setMaxBlocks
      rw [hlen]
      exact metered_fresh (by decide)
    · simp [hm] at hnone

theorem setMaxBlocks_blocksMetered {st : ForkStore} {max : Nat} (hb : st.blocks = [])
    (hmax : max < 2 ^ 32) : BlocksMetered (st.setMaxBlocks max) := by
  unfold BlocksMetered ForkStore.setMaxBlocks
  simpa [hb] using metered_fresh hmax

theorem meterAddBlocks_eq_ok {st st' : ForkStore} {k : Nat}
    (h : meterAddBlocks st k = .ok st') :
    ∃ meter, meterAdd st.storeMeter k "exceed max blocks" = .ok meter ∧
      st' = { st with storeMeter := meter } := by
  obtain ⟨meter, hm, h⟩ := bind_eq_ok.mp h
  cases h
  exact ⟨meter, hm, rfl⟩

theorem meterRemoveBlocks_eq_ok {st st' : ForkStore} {k : Nat}
    (h : meterRemoveBlocks st k = .ok st') :
    ∃ meter, meterRemove st.storeMeter k = .ok meter ∧ st' = { st with storeMeter := meter } := by
  obtain ⟨meter, hm, h⟩ := bind_eq_ok.mp h
  cases h
  exact ⟨meter, hm, rfl⟩

theorem removeLoop_count : ∀ {fuel : Nat} {queue : List Nat} {i : Nat} {st st' : ForkStore}
    {num num' : Nat}, removeLoop fuel queue i st num = .ok (st', num') →
      st'.blocks.length + num' = st.blocks.length + num ∧ st'.storeMeter = st.storeMeter
  | 0, _, _, _, _, _, _, h => by cases h
  | fuel + 1, queue, i, st, st', num, num', h => by
    unfold removeLoop at h
    split at h
    · cases h
      exact ⟨rfl, rfl⟩
    · next q hq =>
      obtain ⟨hlen, hmeter⟩ := removeLoop_count h
      refine ⟨?_, hmeter⟩
      rw [hlen]
      dsimp only
      have hl := @List.length_eraseP _ (fun b : StoredBlockHeader => b.id == q) st.blocks
      by_cases hany : st.blocks.any (fun b => b.id == q) = true
      · obtain ⟨b, hb, -⟩ := List.any_eq_true.mp hany
        have hpos : 0 < st.blocks.length := List.length_pos_of_mem hb
        rw [if_pos hany] at hl
        rw [if_pos hany]
        omega
      · rw [if_neg hany] at hl
        rw [if_neg hany]
        omega

theorem remove_blocksMetered {fuel id : Nat} {st st' : ForkStore} (hm : BlocksMetered st)
    (h : remove fuel st id = .ok st') : BlocksMetered st' := by
  obtain ⟨⟨st1, num⟩, hl, h⟩ := bind_eq_ok.mp h
  obtain ⟨hlen, hmeter⟩ := removeLoop_count hl
  obtain ⟨meter, hrm, rfl⟩ := meterRemoveBlocks_eq_ok h
  have hm1 : Metered st1.storeMeter (st.blocks.length) := hmeter ▸ hm
  have h1 := meterRemove_metered hm1 (by omega) hrm
  unfold BlocksMetered
  rw [show st1.blocks.length = st.blocks.length - num by omega]
  exact h1

theorem removeAll_blocksMetered {fuel : Nat} :
    ∀ {st st' : ForkStore} {ids : List Nat}, BlocksMetered st →
      removeAll fuel st ids = .ok st' → BlocksMetered st'
  | _, _, [], hm, h => by
    cases h
    exact hm
  | st, st', id :: ids, hm, h => by
    obtain ⟨st1, h1, h⟩ := bind_eq_ok.mp h
    exact removeAll_blocksMetered (remove_blocksMetered hm h1) h

theorem prune_blocksMetered :
    ∀ {fuel num : Nat} {st st' : ForkStore}, BlocksMetered st →
      ForkStore.prune fuel st num = .ok st' → BlocksMetered st'
  | 0, _, _, _, _, h => by cases h
  | fuel + 1, num, st, st', hm, h => by
    unfold ForkStore.prune at h
    split at h
    · split at h
      · -- the lower block numbers first, then `num`
        obtain ⟨st1, h1, h⟩ := bind_eq_ok.mp h
        exact prune_blocksMetered (prune_blocksMetered hm h1) h
      · exact removeAll_blocksMetered hm h
    · exact removeAll_blocksMetered hm h

/-- **a stored header is one more row, counted** -/
theorem addBlockState_blocksMetered {fuel : Nat} {st st' : ForkStore} {h : BlockHeaderState}
    (hm : BlocksMetered st) (ha : addBlockState fuel st h = .ok st') : BlocksMetered st' := by
  unfold addBlockState at ha
  obtain ⟨-, ha⟩ := assert_bind_eq_ok.mp ha
  obtain ⟨st1, h1, ha⟩ := bind_eq_ok.mp ha
  obtain ⟨meter, hadd, rfl⟩ := meterAddBlocks_eq_ok h1
  have hm1 := meterAdd_metered hm hadd
  dsimp only at ha
  split at ha
  · exact prune_blocksMetered (by simpa [BlocksMetered] using hm1) ha
  · cases ha
    simpa [BlocksMetered] using hm1

theorem addBlockId_eq_ok {st st' : ForkStore} {id previous : Nat}
    (h : addBlockId st id previous = .ok st') :
    st'.blocks.length = st.blocks.length + 1 ∧ st'.storeMeter = st.storeMeter := by
  obtain ⟨-, h⟩ := assert_bind_eq_ok.mp h
  cases h
  simp

theorem pathLoop_count {c : Crypto} :
    ∀ {st st' : ForkStore} {m m' : BlockMerkle} {pit : Nat} {ids : List Nat},
      pathLoop c st m pit ids = .ok (st', m') →
        st'.blocks.length = st.blocks.length + ids.length ∧ st'.storeMeter = st.storeMeter
  | _, _, _, _, _, [], h => by
    cases h
    exact ⟨rfl, rfl⟩
  | st, st', m, m', pit, it :: rest, h => by
    unfold pathLoop at h
    obtain ⟨st1, h1, h⟩ := bind_eq_ok.mp h
    obtain ⟨hlen1, hmeter1⟩ := addBlockId_eq_ok h1
    obtain ⟨hlen, hmeter⟩ := pathLoop_count h
    refine ⟨?_, hmeter.trans hmeter1⟩
    rw [hlen, hlen1, List.length_cons]
    omega

theorem linkMerkle_blocksMetered {c : Crypto} {st st' : ForkStore} {h : BlockHeaderState}
    {path : List Nat} {m : BlockMerkle} (hm : BlocksMetered st)
    (hl : linkMerkle c st h path = .ok (st', m)) : BlocksMetered st' := by
  unfold linkMerkle at hl
  obtain ⟨m0, -, hl⟩ := bind_eq_ok.mp hl
  cases path with
  | nil =>
    cases hl
    exact hm
  | cons p rest =>
    obtain ⟨⟨st1, m1⟩, h1, hl⟩ := bind_eq_ok.mp hl
    obtain ⟨st2, h2, hl⟩ := bind_eq_ok.mp hl
    cases hl
    obtain ⟨hlen, hmeter⟩ := pathLoop_count h1
    obtain ⟨meter, hadd, rfl⟩ := meterAddBlocks_eq_ok h2
    have hm1 : Metered st1.storeMeter st.blocks.length := hmeter ▸ hm
    have h3 := meterAdd_metered hm1 hadd
    unfold BlocksMetered
    rw [hlen]
    exact h3

theorem addBlockHeaderWithMerklePath_blocksMetered {c : Crypto} {fuel : Nat}
    {st st' : ForkStore} {h : BlockHeaderState} {path : List Nat} (hm : BlocksMetered st)
    (ha : addBlockHeaderWithMerklePath c fuel st h path = .ok st') : BlocksMetered st' := by
  obtain ⟨st1, h1, ha⟩ := bind_eq_ok.mp ha
  obtain ⟨st2, h2, ha⟩ := bind_eq_ok.mp ha
  obtain ⟨⟨st3, m⟩, h3, ha⟩ := bind_eq_ok.mp ha
  obtain ⟨-, ha⟩ := assert_bind_eq_ok.mp ha
  have hm1 : BlocksMetered st1 := by
    rcases validateBlockState_eq_ok h1 with rfl | rfl
    · exact hm
    · exact hm
  have hm2 : BlocksMetered st2 := by
    obtain ⟨a, p, rfl⟩ := checkScheduleChange_eq_ok h2
    exact hm1
  exact addBlockState_blocksMetered (linkMerkle_blocksMetered hm2 h3) ha

theorem initSeedBlock_blocksMetered {c : Crypto} {fuel : Nat} {st st' : ForkStore}
    {h : BlockHeaderState} (hm : BlocksMetered st) (ha : initSeedBlock c fuel st h = .ok st') :
    BlocksMetered st' := by
  obtain ⟨-, ha⟩ := assert_bind_eq_ok.mp ha
  obtain ⟨st1, h1, ha⟩ := bind_eq_ok.mp ha
  obtain ⟨st2, h2, ha⟩ := bind_eq_ok.mp ha
  have hm1 : BlocksMetered st1 := by
    obtain ⟨p, rfl⟩ := updateActiveSchedule_eq_ok h1
    exact hm
  have hm2 : BlocksMetered st2 := by
    rcases validateBlockState_eq_ok h2 with rfl | rfl
    · exact hm1
    · exact hm1
  exact addBlockState_blocksMetered hm2 ha

theorem reset_blocksMetered {st st' : ForkStore} (hm : BlocksMetered st)
    (h : st.reset = .ok st') : BlocksMetered st' := by
  obtain ⟨meter, hrm, rfl⟩ := meterRemoveBlocks_eq_ok h
  exact meterRemove_all hm hrm

theorem addBlockHeader_blocksMetered {c : Crypto} {st st' : ForkStore} {h : BlockHeader}
    (hm : BlocksMetered st) (ha : addBlockHeader c st h = .ok st') : BlocksMetered st' := by
  unfold addBlockHeader at ha
  split at ha
  · cases ha
  · obtain ⟨-, ha⟩ := assert_bind_eq_ok.mp ha
    cases ha
    simpa [BlocksMetered] using hm

theorem cutdown_blocksMetered {st st' : ForkStore} {num : Nat} (hm : BlocksMetered st)
    (h : st.cutdown num = .ok st') : BlocksMetered st' := by
  unfold ForkStore.cutdown at h
  obtain ⟨-, h⟩ := assert_bind_eq_ok.mp h
  obtain ⟨meter, hrm, rfl⟩ := meterRemoveBlocks_eq_ok h
  have hlen := eraseWhileFirst_length (fun b : StoredBlockHeader => b.blockNum)
    (fun b => decide (b.blockNum ≤ (if num = st.head.lastIrreversibleBlocknum then
      (st.head.lastIrreversibleBlocknum + 2 ^ 32 - 1) % 2 ^ 32 else num)))
    st.blocks.length st.blocks
  have h1 := meterRemove_metered hm (by omega) hrm
  unfold BlocksMetered
  rw [show _ = st.blocks.length - _ from Nat.eq_sub_of_add_eq hlen]
  exact h1

/-! ## The block meter across the contract -/

/-- `setmaxblocks` only while the table `block` is empty -/
def MaxBlocksWhenEmpty (st : IcpState) (a : Env × IcpCall) : Prop :=
  ∀ m, a.2 = .setmaxblocks m → st.store.blocks = []

theorem apply_blocksMetered {c : IcpCrypto} {env : Env} {st : IcpState} {call : IcpCall}
    {r : IcpState × List Emitted} (hm : BlocksMetered st.store)
    (hadm : ∀ m, call = .setmaxblocks m → st.store.blocks = [])
    (h : apply c env st call = .ok r) : BlocksMetered r.1.store := by
  have hc : BlocksMetered (apply.created st).store := create_blocksMetered hm
  cases apply_applied h with
  | setpeer => exact hc
  | setmaxpackes => exact hc
  | setmaxblocks m =>
    have hb : (apply.created st).store.blocks = [] := by
      simpa [apply.created, ForkStore.create, apply_ite, ForkStore.setMaxBlocks]
        using hadm m rfl
    exact setMaxBlocks_blocksMetered hb (UInt32.toNat_lt m)
  | openchannel hs store _ hseed => exact initSeedBlock_blocksMetered hc hseed
  | closechannel store _ _ _ hreset => exact reset_blocksMetered hc hreset
  | addblocks hs path store hadd => exact addBlockHeaderWithMerklePath_blocksMetered hc hadd
  | addblock hs store hadd => exact addBlockHeader_blocksMetered hc hadd
  | onpacket ia st1 data r h1 h2 =>
    obtain ⟨store, a, hcut, -, -, rfl⟩ := extractAction_eq_ok h1
    obtain ⟨st', em⟩ := r
    obtain ⟨q, -, -, rfl, -⟩ := onpacketData_eq_ok h2
    exact cutdown_blocksMetered hc hcut
  | onreceipt ia st1 data r h1 h2 =>
    obtain ⟨store, a, hcut, -, -, rfl⟩ := extractAction_eq_ok h1
    obtain ⟨st', em⟩ := r
    obtain ⟨x, q, -, -, -, -, -, -, rfl, -⟩ := onreceiptData_eq_ok h2
    exact cutdown_blocksMetered hc hcut
  | oncleanup ia st1 data st' h1 h2 =>
    obtain ⟨store, a, hcut, -, -, rfl⟩ := extractAction_eq_ok h1
    obtain ⟨receipts, -, rfl⟩ := oncleanupData_eq_ok h2
    exact cutdown_blocksMetered hc hcut
  | sendaction => exact hc
  | genproof => exact hc
  | prune => exact hc

theorem step_blocksMetered {c : IcpCrypto} {st st' : IcpState} {a : Env × IcpCall}
    (hm : BlocksMetered st.store) (hadm : MaxBlocksWhenEmpty st a) (h : step c st a = .ok st') :
    BlocksMetered st'.store := by
  obtain ⟨r, hr, rfl⟩ := map_eq_ok.mp h
  exact apply_blocksMetered hm hadm hr

/-- **the block meter**: along every run in which `setmaxblocks` is only issued while the
table `block` is empty, the store meter, once it exists, counts the rows of `block`, and they
never exceed `max_blocks` -/
theorem blocks_counted_by_store_meter (c : IcpCrypto) (st : IcpState)
    (h : ReachableWhen MaxBlocksWhenEmpty (step c) {} st) :
    st.store.storeMeter = none ∧ st.store.blocks = [] ∨
      ∃ m, st.store.storeMeter = some m ∧ m.current = st.store.blocks.length ∧
        st.store.blocks.length ≤ m.max := by
  have hinv : BlocksMetered st.store :=
    ReachableWhen.inv (fun s => BlocksMetered s.store) (.inl ⟨rfl, rfl⟩)
      (fun s a s' hs ha hst => step_blocksMetered hs ha hst) h
  rcases hinv with ⟨hnone, hlen⟩ | ⟨m, hm, hcur, hle, -⟩
  · exact .inl ⟨hnone, List.eq_nil_of_length_eq_zero hlen⟩
  · exact .inr ⟨m, hm, hcur, hcur ▸ hle⟩

/-- the contract's hashes over the sample chain's -/
def sampleIcpCrypto : IcpCrypto := { sampleCrypto with sha256 := fun _ => 0 }

/-- a transaction with the contract's authority -/
def sampleEnv : Env := { receiver := 5, selfAuth := true, now := 0, fuel := 8 }

/-- the contract after `openchannel` of the sample seed -/
def sampleOpened : IcpState :=
  exec (step sampleIcpCrypto) {} [(sampleEnv, .openchannel sampleSeed)]

theorem blocks_counted_after_openchannel :
    sampleOpened.store.storeMeter = none ∧ sampleOpened.store.blocks = [] ∨
      ∃ m, sampleOpened.store.storeMeter = some m ∧
        m.current = sampleOpened.store.blocks.length ∧ sampleOpened.store.blocks.length ≤ m.max :=
  blocks_counted_by_store_meter sampleIcpCrypto sampleOpened
    (reachableWhen_exec _ _ .init (by
      intro t a ha m hm
      simp only [List.mem_singleton] at ha
      subst ha
      cases hm))

/-- `setmaxblocks` after `openchannel` leaves one `block` row and a meter that counts none -/
theorem setmaxblocks_after_openchannel_uncounted :
    ∃ st, Reachable (step sampleIcpCrypto) {} st ∧ st.store.blocks.length = 1 ∧
      st.store.storeMeter = some ⟨100, 0⟩ :=
  ⟨_, reachable_exec [(sampleEnv, .openchannel sampleSeed), (sampleEnv, .setmaxblocks 100)],
    by decide, by decide⟩

/-! ## The packet meter -/

/-- the ICP meter counts the rows of table `packets` -/
def PacketsMetered (st : IcpState) : Prop := Metered st.meter st.packets.length

/-- `setmaxpackes` only while the table `packets` is empty -/
def MaxPacketsWhenEmpty (st : IcpState) (a : Env × IcpCall) : Prop :=
  ∀ m, a.2 = .setmaxpackes m → st.packets = []

theorem apply_packetsMetered {c : IcpCrypto} {env : Env} {st : IcpState} {call : IcpCall}
    {r : IcpState × List Emitted} (hm : PacketsMetered st)
    (hadm : ∀ m, call = .setmaxpackes m → st.packets = [])
    (h : apply c env st call = .ok r) : PacketsMetered r.1 := by
  have hc : PacketsMetered (apply.created st) := hm
  cases apply_applied h with
  | setpeer => exact hc
  | setmaxpackes m =>
    have hp : (apply.created st).packets = [] := hadm m rfl
    unfold PacketsMetered
    rw [hp]
    exact metered_fresh (UInt32.toNat_lt m)
  | setmaxblocks => exact hc
  | openchannel => exact hc
  | closechannel => exact hc
  | addblocks => exact hc
  | addblock => exact hc
  | onpacket ia st1 data r h1 h2 =>
    obtain ⟨store, a, -, -, -, rfl⟩ := extractAction_eq_ok h1
    obtain ⟨st', em⟩ := r
    obtain ⟨q, -, -, rfl, -⟩ := onpacketData_eq_ok h2
    exact hc
  | onreceipt ia st1 data r h1 h2 =>
    obtain ⟨store, a, -, -, -, rfl⟩ := extractAction_eq_ok h1
    obtain ⟨st', em⟩ := r
    obtain ⟨x, q, -, -, -, -, -, -, rfl, -⟩ := onreceiptData_eq_ok h2
    exact hc
  | oncleanup ia st1 data st' h1 h2 =>
    obtain ⟨store, a, -, -, -, rfl⟩ := extractAction_eq_ok h1
    obtain ⟨receipts, -, rfl⟩ := oncleanupData_eq_ok h2
    exact hc
  | sendaction seq sa exp ra meter _ _ hempty hadd =>
    have hm0 : Metered st.meter 0 := by
      have h0 := hc
      unfold PacketsMetered at h0
      rwa [show (apply.created st).packets = [] from hempty, List.length_nil] at h0
    exact meterAdd_metered hm0 hadd
  | genproof => exact hc
  | prune => exact hc

theorem step_packetsMetered {c : IcpCrypto} {st st' : IcpState} {a : Env × IcpCall}
    (hm : PacketsMetered st) (hadm : MaxPacketsWhenEmpty st a) (h : step c st a = .ok st') :
    PacketsMetered st' := by
  obtain ⟨r, hr, rfl⟩ := map_eq_ok.mp h
  exact apply_packetsMetered hm hadm hr

/-- the contract after a peer, a packet limit and one packet -/
def sampleSent : IcpState :=
  exec (step sampleIcpCrypto) {}
    [(sampleEnv, .setpeer 7), (sampleEnv, .setmaxpackes 10), (sampleEnv, .sendaction 1 [] 100 [])]

end Eos.Icp
