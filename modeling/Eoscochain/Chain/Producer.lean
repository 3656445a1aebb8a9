import Eoscochain.Chain.Irreversible

/-!
# Producing a block, and validating it

libraries/chain controller.cpp, block_state.cpp and block_header_state.cpp.  A producer builds
the header state of its block with `start_block` (the template of `block_state( *head, when )`,
`set_confirmed`, `maybe_promote_pending`, and the proposed schedule made pending once it is
irreversible), `finalize_block` (the roots of the block's actions and receipts, then the id) and
`sign_block`; every other node rebuilds it from the signed header with
`block_header_state::next`, in `fork_database::add`.

* `GlobalPropertyObject`   the proposed schedule and the block it was proposed in;
* `startBlock`, `finalizeBlock`, `signBlock`   the header state of the pending block;
* `produceBlock`           the three in the order the producer runs them;
* `next_of_produced`       on a produced header `next` makes the one check the production path does
                           not, against double confirmation, and otherwise rebuilds the producer's
                           state in every field.

The onblock transaction, the expired transactions and the producers' authority of `start_block`,
and the resource limits and block summary of `finalize_block`, leave the header state alone and
are not modelled here.
-/

set_option linter.unusedSectionVars false

namespace Eos

open Machine

/-- the fields of `global_property_object` that `start_block` reads and writes -/
structure GlobalPropertyObject where
  proposedScheduleBlockNum : Option Nat := none
  proposedSchedule : ProducerSchedule := {}
  deriving DecidableEq, Repr

namespace BlockHeaderState

/-- `block_header_state::sign`: the signer's signature over `sig_digest()`, which must recover to
the block's signing key -/
def sign (c : Crypto) (s : BlockHeaderState) (signer : Nat → Nat) : Except String BlockHeaderState := do
  let d := sigDigest c s
  let sig := signer d
  assert (s.blockSigningKey == c.recover sig d) "block is signed with unexpected key"
  pure { s with producerSignature := sig }

/-- the header of the block, `static_cast<signed_block_header&>(*block) = header` -/
def signedHeader (s : BlockHeaderState) : SignedBlockHeader :=
  { s.header with producerSignature := s.producerSignature }

end BlockHeaderState

namespace Producer

open BlockHeaderState

/-- whether `start_block` makes the proposed schedule pending: it was proposed in a block that is
now irreversible, there is room for a pending schedule, and none was promoted in this block -/
def promotesProposed (gpo : GlobalPropertyObject) (p : BlockHeaderState) (wasPendingPromoted : Bool) :
    Bool :=
  match gpo.proposedScheduleBlockNum with
  | some n => decide (n ≤ p.dposIrreversibleBlocknum) && p.pendingSchedule.producers.length == 0 &&
      !wasPendingPromoted
  | none => false

/-- the header state part of `controller_impl::start_block`; `modifiesState` is
`read_mode == SPECULATIVE || block_status != incomplete` -/
def startBlock (c : Crypto) (head : BlockHeaderState) (gpo : GlobalPropertyObject)
    (when confirmBlockCount : Nat) (modifiesState : Bool) :
    Except String (BlockHeaderState × GlobalPropertyObject) := do
  -- `block_state( *head, when )`
  let p ← generateNext c head when
  let p := setConfirmed p confirmBlockCount
  let (p, wasPendingPromoted) := maybePromotePending p
  if modifiesState && promotesProposed gpo p wasPendingPromoted then
    let p ← setNewProducers c p gpo.proposedSchedule
    pure (p, { proposedScheduleBlockNum := none, proposedSchedule := {} })
  else pure (p, gpo)

/-- the header state part of `finalize_block`: the merkle roots of the block's actions and
receipts (`set_action_merkle`, `set_trx_merkle`), then the id -/
def finalizeBlock (c : Crypto) (p : BlockHeaderState) (actionMroot transactionMroot : Nat) :
    BlockHeaderState :=
  let p := { p with header := { p.header with actionMroot, transactionMroot } }
  { p with id := p.header.id c }

/-- `controller_impl::sign_block`: the state signed, and the block's header copied from it -/
def signBlock (c : Crypto) (p : BlockHeaderState) (signer : Nat → Nat) :
    Except String (BlockHeaderState × SignedBlockHeader) := do
  let p ← p.sign c signer
  pure (p, p.signedHeader)

/-- a block produced on `head`: `start_block`, `finalize_block` after the transactions, and
`sign_block` -/
def produceBlock (c : Crypto) (head : BlockHeaderState) (gpo : GlobalPropertyObject)
    (when confirmBlockCount : Nat) (modifiesState : Bool) (actionMroot transactionMroot : Nat)
    (signer : Nat → Nat) : Except String (BlockHeaderState × SignedBlockHeader) := do
  let (p, _) ← startBlock c head gpo when confirmBlockCount modifiesState
  signBlock c (finalizeBlock c p actionMroot transactionMroot) signer

end Producer

/-! ## The steps of both paths -/

namespace BlockHeaderState

theorem nextTimestamp_eq_ok {s : BlockHeaderState} {w w' : Nat} (h : nextTimestamp s w = .ok w') :
    s.header.timestamp < w' ∧ (w ≠ 0 → w' = w) := by
  unfold nextTimestamp at h
  split at h
  · obtain ⟨hlt, h⟩ := assert_bind_eq_ok.mp h
    cases h
    exact ⟨of_decide_eq_true hlt, fun _ => rfl⟩
  · next hw =>
    cases h
    exact ⟨Nat.lt_succ_self _, fun hne => absurd hne hw⟩

theorem nextTimestamp_of_lt {s : BlockHeaderState} {w : Nat} (h : s.header.timestamp < w) :
    nextTimestamp s w = .ok w := by
  rw [nextTimestamp, if_pos (Nat.ne_of_gt (Nat.lt_of_le_of_lt (Nat.zero_le _) h)),
    decide_eq_true h, assert_true]
  rfl

theorem generateNext_at_timestamp {c : Crypto} {s r : BlockHeaderState} {w : Nat}
    (h : generateNext c s w = .ok r) : generateNext c s r.header.timestamp = .ok r := by
  unfold generateNext at h
  obtain ⟨w', hw', h⟩ := bind_eq_ok.mp h
  obtain ⟨pk, hpk, h⟩ := bind_eq_ok.mp h
  cases h
  unfold generateNext
  rw [nextTimestamp_of_lt (nextTimestamp_eq_ok hw').1, ok_bind, hpk, ok_bind]
  rfl

theorem generateNext_header {c : Crypto} {s r : BlockHeaderState} {w : Nat}
    (h : generateNext c s w = .ok r) :
    s.header.timestamp < r.header.timestamp ∧ r.header.previous = s.id ∧
      r.header.newProducers = none ∧ r.header.headerExtensions = [] := by
  unfold generateNext at h
  obtain ⟨w', hw', h⟩ := bind_eq_ok.mp h
  obtain ⟨pk, -, h⟩ := bind_eq_ok.mp h
  cases h
  exact ⟨(nextTimestamp_eq_ok hw').1, rfl, rfl, rfl⟩

@[simp] theorem setConfirmed_header (s : BlockHeaderState) (n : Nat) :
    (setConfirmed s n).header = { s.header with confirmed := n } := rfl

@[simp] theorem setConfirmed_blockNum (s : BlockHeaderState) (n : Nat) :
    (setConfirmed s n).blockNum = s.blockNum := rfl

@[simp] theorem maybePromotePending_blockNum (s : BlockHeaderState) :
    (maybePromotePending s).1.blockNum = s.blockNum := by
  unfold maybePromotePending
  split <;> rfl

theorem setNewProducers_header {c : Crypto} {s r : BlockHeaderState} {np : ProducerSchedule}
    (h : setNewProducers c s np = .ok r) :
    r.header = { s.header with newProducers := some np } ∧ r.blockNum = s.blockNum := by
  unfold setNewProducers at h
  obtain ⟨-, h⟩ := assert_bind_eq_ok.mp h
  obtain ⟨-, h⟩ := assert_bind_eq_ok.mp h
  cases h
  exact ⟨rfl, rfl⟩

theorem applyNewProducers_header {c : Crypto} {s r : BlockHeaderState} {b : Bool}
    {np : Option ProducerSchedule} (h : applyNewProducers c s b np = .ok r) :
    r.header = { s.header with newProducers := r.header.newProducers } ∧ r.blockNum = s.blockNum := by
  cases np with
  | none =>
    cases h
    exact ⟨rfl, rfl⟩
  | some np =>
    obtain ⟨-, h⟩ := assert_bind_eq_ok.mp h
    obtain ⟨hhdr, hnum⟩ := setNewProducers_header h
    rw [hhdr]
    exact ⟨rfl, hnum⟩

theorem checkDoubleConfirm_congr {s r r' : BlockHeaderState} (hd : SignedBlockHeader)
    (h : r.blockNum = r'.blockNum) : checkDoubleConfirm s r hd = checkDoubleConfirm s r' hd := by
  unfold checkDoubleConfirm
  rw [h]

theorem next_of_checks {c : Crypto} {s g a r : BlockHeaderState} {hd : SignedBlockHeader}
    {trust : Bool} (hlater : s.header.timestamp < hd.timestamp) (hext : hd.headerExtensions = [])
    (hprev : hd.previous = s.id) (hg : generateNext c s hd.timestamp = .ok g)
    (hprod : g.header.producer = hd.producer) (hver : g.header.scheduleVersion = hd.scheduleVersion)
    (ha : applyNewProducers c (maybePromotePending (setConfirmed g hd.confirmed)).1
      (maybePromotePending (setConfirmed g hd.confirmed)).2 hd.newProducers = .ok a)
    (hr : r = { a with
        header := { a.header with actionMroot := hd.actionMroot, transactionMroot := hd.transactionMroot }
        producerSignature := hd.producerSignature
        id := BlockHeader.id c { a.header with actionMroot := hd.actionMroot,
                                               transactionMroot := hd.transactionMroot } })
    (hkey : trust = true ∨ r.blockSigningKey = signee c r) :
    next c s hd trust = (do checkDoubleConfirm s g hd; pure r) := by
  have hts : hd.timestamp ≠ 0 := Nat.ne_of_gt (Nat.lt_of_le_of_lt (Nat.zero_le _) hlater)
  have hsig : (trust || r.blockSigningKey == signee c r) = true := by
    rcases hkey with rfl | hkey
    · rfl
    · rw [hkey, beq_self_eq_true, Bool.or_true]
  subst hr
  unfold next
  simp only [decide_eq_true hts, hext, List.length_nil, decide_eq_true hlater, hprev, hprod, hver,
    beq_self_eq_true, assert_true, pure_bind, hg, ok_bind, ha, hsig]

end BlockHeaderState

namespace Producer

open BlockHeaderState

theorem promotesProposed_not_promoted {gpo : GlobalPropertyObject} {p : BlockHeaderState} {b : Bool}
    (h : promotesProposed gpo p b = true) : b = false := by
  unfold promotesProposed at h
  split at h
  · simp only [Bool.and_eq_true, Bool.not_eq_true'] at h
    exact h.2
  · cases h

theorem startBlock_eq_ok {c : Crypto} {head p : BlockHeaderState} {gpo gpo' : GlobalPropertyObject}
    {when n : Nat} {modifiesState : Bool} (h : startBlock c head gpo when n modifiesState = .ok (p, gpo')) :
    ∃ g, generateNext c head when = .ok g ∧
      applyNewProducers c (maybePromotePending (setConfirmed g n)).1
        (maybePromotePending (setConfirmed g n)).2 p.header.newProducers = .ok p := by
  obtain ⟨g, hg, h⟩ := bind_eq_ok.mp h
  refine ⟨g, hg, ?_⟩
  obtain ⟨-, -, hnone, -⟩ := generateNext_header hg
  rcases hq : maybePromotePending (setConfirmed g n) with ⟨q, was⟩
  have hqnone : q.header.newProducers = none := by
    have := maybePromotePending_header (setConfirmed g n)
    rw [hq] at this
    rw [this]
    exact hnone
  dsimp only at h
  rw [hq] at h
  dsimp only at h
  split at h
  · -- the proposed schedule made pending: the same `set_new_producers` as the validator's
    next hcond =>
    obtain ⟨p', hset, h⟩ := bind_eq_ok.mp h
    cases h
    have hwas : was = false := promotesProposed_not_promoted (Bool.and_eq_true_iff.mp hcond).2
    rw [(setNewProducers_header hset).1]
    subst hwas
    exact hset
  · cases h
    rw [hqnone]
    rfl

theorem sign_eq_ok {c : Crypto} {s r : BlockHeaderState} {signer : Nat → Nat}
    (h : s.sign c signer = .ok r) :
    s.blockSigningKey = c.recover (signer (sigDigest c s)) (sigDigest c s) ∧
      r = { s with producerSignature := signer (sigDigest c s) } := by
  obtain ⟨hkey, h⟩ := assert_bind_eq_ok.mp h
  cases h
  exact ⟨beq_iff_eq.mp hkey, rfl⟩

theorem signBlock_eq_ok {c : Crypto} {p r : BlockHeaderState} {b : SignedBlockHeader}
    {signer : Nat → Nat} (h : signBlock c p signer = .ok (r, b)) :
    p.blockSigningKey = c.recover (signer (sigDigest c p)) (sigDigest c p) ∧
      r = { p with producerSignature := signer (sigDigest c p) } ∧ b = r.signedHeader := by
  obtain ⟨r', hr, h⟩ := bind_eq_ok.mp h
  cases h
  obtain ⟨hkey, rfl⟩ := sign_eq_ok hr
  exact ⟨hkey, rfl, rfl⟩

/-- the genesis of a chain whose only producer is the system account, with key `10` -/
def sampleHead : BlockHeaderState := genesisState sampleCrypto 10 0 0

/-- a signer holding the key `10` -/
def sampleSigner : Nat → Nat := fun _ => 10

/-- block 2, produced by the system account at slot 1, confirming nothing -/
def sampleBlock2 : BlockHeaderState × SignedBlockHeader :=
  match produceBlock sampleCrypto sampleHead {} 1 0 true 0 0 sampleSigner with
  | .ok r => r
  | .error _ => ({}, {})

/-- block 3, produced by the same producer at slot 2, confirming one block: its own block 2 -/
def sampleBlock3 : BlockHeaderState × SignedBlockHeader :=
  match produceBlock sampleCrypto sampleBlock2.1 {} 2 1 true 0 0 sampleSigner with
  | .ok r => r
  | .error _ => ({}, {})

end Producer

end Eos
