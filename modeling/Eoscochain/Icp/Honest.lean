import Mathlib.Data.List.Chain
import Eoscochain.Icp.Fork

/-!
# Honest headers against the light client

The chain's `block_header_state::next` and the contract's `add_block_header_with_merkle_path`
side by side: the block merkle the chain gives a header, the one the contract rebuilds from the
merkle path, and the schedule checks a header that promotes a producer schedule meets.

* `Produces c s r`                the chain extends `s` by `r`;
* `blockrootMerkle_of_chain`      along a chain each id is appended to the next merkle;
* `pathLoop_merkle`, `linkMerkle_eq_ok`   the contract's merkle: the stored merkle of the first
                                  path block, the rest of the path, then the header's own id;
* `linkMerkle_documented_path`    the two merkles for the documented path;
* `checkScheduleChange_promoted`  a promoted header passes the schedule checks only when the
                                  store already has its schedule.
-/

set_option linter.unusedSectionVars false

namespace Eos.Icp

open Machine BlockHeaderState ForkStore IncrementalMerkle

/-- the chain extends `s` by `r`: some signed header takes `s` to `r` under `next` -/
def Produces (c : Crypto) (s r : BlockHeaderState) : Prop :=
  ∃ hd trust, next c s hd trust = .ok r

/-! ## The chain's merkle -/

/-- **the chain's block merkle**: the header at the end of a chain holds the merkle of its first
header with the ids of the first and every later header but itself appended -/
theorem blockrootMerkle_of_chain {c : Crypto} :
    ∀ (s t : BlockHeaderState) (bs : List BlockHeaderState),
      List.IsChain (Produces c) (s :: bs ++ [t]) →
      t.blockrootMerkle = appendAll c.merkleNode 0 s.blockrootMerkle ((s :: bs).map (·.id))
  | s, t, [], h => by
    obtain ⟨hd, trust, hn⟩ := List.isChain_pair.mp h
    rw [(next_eq_ok hn).2.1]
    rfl
  | s, t, b :: bs, h => by
    obtain ⟨⟨hd, trust, hn⟩, hrest⟩ := List.isChain_cons_cons.mp h
    have ih := blockrootMerkle_of_chain b t bs hrest
    rw [ih, (next_eq_ok hn).2.1]
    rfl

theorem previous_of_produces {c : Crypto} {s r : BlockHeaderState} (h : Produces c s r) :
    r.header.previous = s.id := by
  obtain ⟨hd, trust, hn⟩ := h
  exact (next_eq_ok hn).1

theorem id_of_produces {c : Crypto} {s r : BlockHeaderState} (h : Produces c s r) :
    r.id = r.header.id c := by
  obtain ⟨hd, trust, hn⟩ := h
  exact (next_eq_ok hn).2.2.1

/-! ## The contract's merkle -/

theorem pathLoop_merkle {c : Crypto} :
    ∀ {st st' : ForkStore} {m m' : BlockMerkle} {pit : Nat} {ids : List Nat},
      pathLoop c st m pit ids = .ok (st', m') → m' = appendAll c.merkleNode 0 m ids
  | _, _, _, _, _, [], h => by
    cases h
    rfl
  | st, _, m, _, _, it :: rest, h => by
    unfold pathLoop at h
    obtain ⟨st1, -, h⟩ := bind_eq_ok.mp h
    rw [pathLoop_merkle h]
    rfl

theorem linkMerkle_eq_ok {c : Crypto} {st st' : ForkStore} {h : BlockHeaderState}
    {path : List Nat} {m : BlockMerkle} (hl : linkMerkle c st h path = .ok (st', m)) :
    ∃ m0, getBlockMroot st (path.headD h.header.previous) = .ok m0 ∧
      m = appendAll c.merkleNode 0 m0 (path.tail ++ [h.id]) := by
  unfold linkMerkle at hl
  obtain ⟨m0, hm0, hl⟩ := bind_eq_ok.mp hl
  cases path with
  | nil =>
    cases hl
    exact ⟨m0, hm0, rfl⟩
  | cons p rest =>
    obtain ⟨⟨st1, m1⟩, h1, hl⟩ := bind_eq_ok.mp hl
    obtain ⟨st2, -, hl⟩ := bind_eq_ok.mp hl
    cases hl
    refine ⟨m0, hm0, ?_⟩
    rw [pathLoop_merkle h1, appendAll_concat]
    rfl

/-- **the two merkles for the documented path.**  For a chain `s, bs.., t` with `s` stored, the
chain's merkle of `t` appends the ids of `s` and `bs`; the merkle the contract rebuilds from the
path `[s.id, bs.id..]` appends those of `bs` and of `t`: one block later -/
theorem linkMerkle_documented_path {c : Crypto} {st st' : ForkStore}
    {s t : BlockHeaderState} {bs : List BlockHeaderState} {m : BlockMerkle}
    (hchain : List.IsChain (Produces c) (s :: bs ++ [t]))
    (hstored : getBlockMroot st s.id = .ok s.blockrootMerkle)
    (hl : linkMerkle c st t ((s :: bs).map (·.id)) = .ok (st', m)) :
    t.blockrootMerkle = appendAll c.merkleNode 0 s.blockrootMerkle (s.id :: bs.map (·.id)) ∧
      m = appendAll c.merkleNode 0 s.blockrootMerkle (bs.map (·.id) ++ [t.id]) := by
  refine ⟨by simpa using blockrootMerkle_of_chain s t bs hchain, ?_⟩
  obtain ⟨m0, hm0, rfl⟩ := linkMerkle_eq_ok hl
  have hm : m0 = s.blockrootMerkle := by
    simp only [List.map_cons, List.headD_cons] at hm0
    rw [hstored] at hm0
    cases hm0
    rfl
  simp [hm]

theorem linkMerkle_empty_path {c : Crypto} {st st' : ForkStore} {s t : BlockHeaderState}
    {m : BlockMerkle} (hp : Produces c s t)
    (hstored : getBlockMroot st s.id = .ok s.blockrootMerkle)
    (hl : linkMerkle c st t [] = .ok (st', m)) :
    t.blockrootMerkle = c.mappend s.blockrootMerkle s.id ∧ m = c.mappend s.blockrootMerkle t.id := by
  obtain ⟨hd, trust, hn⟩ := hp
  refine ⟨(next_eq_ok hn).2.1, ?_⟩
  obtain ⟨m0, hm0, rfl⟩ := linkMerkle_eq_ok hl
  simp only [List.headD_nil, (next_eq_ok hn).1, hstored] at hm0
  cases hm0
  rfl

theorem successor_of_seed_unlinkable {c : Crypto} {st st' : ForkStore} {s t : BlockHeaderState}
    {m : BlockMerkle} (hp : Produces c s t) (hseed : s.blockrootMerkle = IncrementalMerkle.empty)
    (hstored : getBlockMroot st s.id = .ok s.blockrootMerkle)
    (hl : linkMerkle c st t [] = .ok (st', m)) :
    mroot t.blockrootMerkle = s.id ∧ mroot m = t.id ∧ t.id ≠ s.id := by
  obtain ⟨ht, rfl⟩ := linkMerkle_empty_path hp hstored hl
  refine ⟨?_, ?_, ?_⟩
  · rw [ht, hseed]
    exact getRoot_append_empty _ _ _
  · rw [hseed]
    exact getRoot_append_empty _ _ _
  · rw [id_of_produces hp, ← previous_of_produces hp]
    exact id_ne_previous c t.header

/-! ## The schedule checks -/

theorem checkScheduleChange_promoted {c : Crypto} {st st' : ForkStore} {h : BlockHeaderState}
    (hp : h.pendingSchedule = { version := h.activeSchedule.version, producers := [] })
    (hc : checkScheduleChange c st h = .ok st') :
    ∃ cur, getProducerSchedule st = .ok cur ∧
      c.scheduleDigest h.activeSchedule = c.scheduleDigest cur := by
  unfold checkScheduleChange at hc
  obtain ⟨cur, hcur, hc⟩ := bind_eq_ok.mp hc
  refine ⟨cur, hcur, ?_⟩
  split at hc
  · obtain ⟨p, -, hc⟩ := bind_eq_ok.mp hc
    obtain ⟨-, hc⟩ := assert_bind_eq_ok.mp hc
    obtain ⟨-, hc⟩ := assert_bind_eq_ok.mp hc
    obtain ⟨hv, -⟩ := assert_bind_eq_ok.mp hc
    rw [hp] at hv
    simp at hv
  · next hne => simpa using hne

/-- **a promotion block is rejected**: when a step of the chain changes the active schedule,
`add_block_header_with_merkle_path` rejects the new header on every store whose active schedule
is the one replaced, along every merkle path, the schedule digest being collision free -/
theorem promotion_rejected {c : Crypto} {fuel : Nat} {st st' : ForkStore}
    {s r : BlockHeaderState} {path : List Nat} (hdigest : Function.Injective c.scheduleDigest)
    (hp : Produces c s r) (hchange : r.activeSchedule ≠ s.activeSchedule)
    (hstore : st.activeSchedule = some s.activeSchedule) :
    addBlockHeaderWithMerklePath c fuel st r path = .ok st' → False := by
  intro h
  obtain ⟨st1, hv, h⟩ := bind_eq_ok.mp h
  obtain ⟨st2, hc, -⟩ := bind_eq_ok.mp h
  obtain ⟨hd, trust, hn⟩ := hp
  have hpend : r.pendingSchedule = { version := r.activeSchedule.version, producers := [] } :=
    (next_eq_ok hn).2.2.2.resolve_left hchange
  obtain ⟨cur, hcur, heq⟩ := checkScheduleChange_promoted hpend hc
  have hcur' : cur = s.activeSchedule := by
    rw [getProducerSchedule, validateBlockState_activeSchedule hv, hstore] at hcur
    cases hcur
    rfl
  rw [hcur'] at heq
  exact hchange (hdigest heq)

/-! ## Concrete headers

A toy instance of the hash functions and a seed state with one producer, enough to run both
levels on concrete headers. -/

/-- hash functions on numbers; a header's digest keeps the low 32 bits free for the block
number, as sha256 would not, which does not matter for the id -/
def sampleCrypto : Crypto where
  headerDigest h := (h.timestamp + 7) * 2 ^ 32
  scheduleDigest s := s.version + 100
  pairDigest a b := a + 3 * b + 1
  recover sig _ := sig

def sampleSeedHeader : BlockHeader :=
  { timestamp := 100, producer := 1, previous := endianReverseU32 9 }

/-- block 10, produced by producer 1 with key 11, with an empty block merkle -/
def sampleSeed : BlockHeaderState :=
  { id := sampleSeedHeader.id sampleCrypto, blockNum := 10, header := sampleSeedHeader,
    producerSignature := 11, blockSigningKey := 11,
    activeSchedule := { version := 1, producers := [⟨1, 11⟩] },
    producerToLastProduced := [(1, 10)], producerToLastImpliedIrb := [(1, 9)],
    dposProposedIrreversibleBlocknum := 10, dposIrreversibleBlocknum := 9 }

/-- block 11 on the seed -/
def sampleNext : SignedBlockHeader :=
  { timestamp := 101, producer := 1, previous := sampleSeed.id, scheduleVersion := 1,
    confirmed := 0, producerSignature := 11 }

/-- the seed's successor, fed after `openchannel(seed)` with the empty path, fails the linkage
check -/
theorem successor_of_sample_seed_rejected :
    (do let st ← initSeedBlock sampleCrypto 4 (ForkStore.create {}) sampleSeed
        let b ← next sampleCrypto sampleSeed sampleNext
        addBlockHeaderWithMerklePath sampleCrypto 4 st b []) = .error "unlinkable block" := by
  decide

/-- block 11 again, proposing producer 2 next to producer 1 -/
def sampleProposal : SignedBlockHeader :=
  { sampleNext with newProducers := some { version := 2, producers := [⟨1, 11⟩, ⟨2, 22⟩] } }

/-- block 12, in which the chain promotes the proposed schedule -/
def samplePromotion : SignedBlockHeader :=
  { timestamp := 102, producer := 1, previous := 108 * 2 ^ 32 + endianReverseU32 11,
    scheduleVersion := 1, confirmed := 0, producerSignature := 11 }

/-- the promotion block, fed after `openchannel` of the proposing block, fails the schedule
version check -/
theorem sample_promotion_rejected :
    (do let b1 ← next sampleCrypto sampleSeed sampleProposal
        let st ← initSeedBlock sampleCrypto 4 (ForkStore.create {}) b1
        let b2 ← next sampleCrypto b1 samplePromotion
        addBlockHeaderWithMerklePath sampleCrypto 4 st b2 []) =
      .error "invalid producer schedule version" := by
  decide

/-! ## Pruning -/

/-- block 12, on block 11 -/
def sampleThird : SignedBlockHeader :=
  { sampleNext with timestamp := 102, previous := 108 * 2 ^ 32 + endianReverseU32 11 }

/-- The store holds the seed, block 10, and the chain's block 11 on it; the chain's block 12, on
block 11, has its dpos irreversible block at 11.  Adding it prunes at the oldest block, and
`remove` of block 10 erases every block after it: the store is left with no header at all, the
new block and block 11 included -/
theorem prune_erases_added_block :
    (do
      let st ← initSeedBlock sampleCrypto 4 (ForkStore.create {}) sampleSeed
      let b11 ← next sampleCrypto sampleSeed sampleNext
      let st ← addBlockState 20 st b11
      let b12 ← next sampleCrypto b11 sampleThird
      let st' ← addBlockState 20 st b12
      pure (st.blockStates.map fun (b : StoredBlockHeaderState) => (b.id, b.previous, b.blockNum),
        (b12.id, b12.header.previous, b12.dposIrreversibleBlocknum), st'.blockStates)) =
      .ok ([(sampleSeed.id, sampleSeed.header.previous, 10),
          (108 * 2 ^ 32 + endianReverseU32 11, sampleSeed.id, 11)],
        (109 * 2 ^ 32 + endianReverseU32 12, 108 * 2 ^ 32 + endianReverseU32 11, 11), []) := by
  decide

end Eos.Icp
