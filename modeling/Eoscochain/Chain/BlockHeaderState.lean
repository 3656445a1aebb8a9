import Mathlib.Data.List.Sort
import Eoscochain.Lib.Assert
import Eoscochain.Chain.Types

/-!
# block_header_state: the header state machine of the chain

libraries/chain block_header_state.cpp, each function under its own name:

* `getScheduledProducer`, `calcDposLastIrreversible`   the two queries;
* `generateNext`          the template of the next state (producer, merkle, implied
                          irreversibility, `confirm_count`);
* `setConfirmed`          the `confirm_count` loop that proposes a new irreversible block;
* `maybePromotePending`   the promotion of the pending schedule, with the maps rebuilt;
* `setNewProducers`       a proposed schedule becomes pending;
* `next`                  the validation of a signed header against the template.

`EOS_ASSERT` is `Machine.assert` with the assertion's message; `t.slot % 0` in
`get_scheduled_producer` is an error here.  `block_num` and the `set_confirmed` index arithmetic
are `Nat`; the double-confirm bound `result.block_num - h.confirmed` wraps as `uint32_t` does.
A moved-from `pending_schedule` keeps its version and has no producers.
-/

set_option linter.unusedSectionVars false

namespace Eos

open Machine

/-- `config::producer_repetitions` -/
def producerRepetitions : Nat := 12

/-- `config::maximum_tracked_dpos_confirmations` -/
def maximumTrackedDposConfirmations : Nat := 1024

/-- `signed_block_header` -/
structure SignedBlockHeader extends BlockHeader where
  producerSignature : Nat := 0
  deriving DecidableEq, Repr

namespace BlockHeaderState

/-- `block_header_state::get_scheduled_producer` -/
def getScheduledProducer (s : BlockHeaderState) (t : Nat) : Except String ProducerKey :=
  let n := s.activeSchedule.producers.length * producerRepetitions
  if n = 0 then throw "division by zero"
  else pure (s.activeSchedule.producers.getD (t % n / producerRepetitions) {
    producerName := 0, blockSigningKey := 0 })

/-- `block_header_state::calc_dpos_last_irreversible`: the value one third into the sorted
implied irreversible block numbers -/
def calcDposLastIrreversible (s : BlockHeaderState) : Nat :=
  let blocknums := s.producerToLastImpliedIrb.values
  if blocknums.length = 0 then 0
  else (blocknums.insertionSort (· ≤ ·)).getD ((blocknums.length - 1) / 3) 0

/-- the timestamp of the template: `when`, or the slot after the current header's -/
def nextTimestamp (s : BlockHeaderState) (when : Nat) : Except String Nat :=
  if when ≠ 0 then do
    assert (decide (when > s.header.timestamp)) "next block must be in the future"
    pure when
  else pure (s.header.timestamp + 1)

/-- `block_header_state::generate_next` -/
def generateNext (c : Crypto) (s : BlockHeaderState) (when : Nat) :
    Except String BlockHeaderState := do
  let when ← nextTimestamp s when
  let prokey ← getScheduledProducer s when
  let blockNum := s.blockNum + 1
  let implied := s.producerToLastImpliedIrb.set prokey.producerName
    s.dposProposedIrreversibleBlocknum
  -- the previous block's schedule signs, and so confirms, this block
  let requiredConfs := s.activeSchedule.producers.length * 2 / 3 + 1
  let confirmCount :=
    if s.confirmCount.length < maximumTrackedDposConfirmations then
      s.confirmCount ++ [requiredConfs % 256]
    else s.confirmCount.tail ++ [requiredConfs % 256]
  let r : BlockHeaderState := {
    header := { timestamp := when, previous := s.id, scheduleVersion := s.activeSchedule.version,
                producer := prokey.producerName }
    blockSigningKey := prokey.blockSigningKey
    pendingScheduleLibNum := s.pendingScheduleLibNum
    pendingScheduleHash := s.pendingScheduleHash
    blockNum := blockNum
    producerToLastProduced := s.producerToLastProduced.set prokey.producerName blockNum
    producerToLastImpliedIrb := implied
    blockrootMerkle := c.mappend s.blockrootMerkle s.id
    activeSchedule := s.activeSchedule
    pendingSchedule := s.pendingSchedule
    dposProposedIrreversibleBlocknum := s.dposProposedIrreversibleBlocknum
    bftIrreversibleBlocknum := s.bftIrreversibleBlocknum
    confirmCount := confirmCount }
  pure { r with dposIrreversibleBlocknum := r.calcDposLastIrreversible }

/-- `--confirm_count[i]` on a `uint8_t` -/
def dec8 (v : Nat) : Nat := if v = 0 then 255 else v - 1

/-- the `while( i >= 0 && blocks_to_confirm )` loop of `set_confirmed`: `k = i + 1` entries are
left to visit from the back; returns the new `confirm_count` and the proposed irreversible
block, if one was reached -/
def setConfirmedLoop (blockNum : Nat) : List Nat → Nat → Nat → List Nat × Option Nat
  | cc, 0, _ => (cc, none)
  | cc, _ + 1, 0 => (cc, none)
  | cc, k + 1, b + 1 =>
    let v := dec8 (cc.getD k 0)
    let cc' := cc.set k v
    if v = 0 then (cc'.drop (k + 1), some (blockNum - (cc'.length - 1 - k)))
    else setConfirmedLoop blockNum cc' k b

/-- `block_header_state::set_confirmed` -/
def setConfirmed (s : BlockHeaderState) (numPrevBlocks : Nat) : BlockHeaderState :=
  let r := setConfirmedLoop s.blockNum s.confirmCount s.confirmCount.length (numPrevBlocks + 1)
  { s with
    header := { s.header with confirmed := numPrevBlocks }
    confirmCount := r.1
    dposProposedIrreversibleBlocknum := r.2.getD s.dposProposedIrreversibleBlocknum }

/-- the rebuilt map of `maybe_promote_pending`: the producers of the new schedule, each with its
old entry or the irreversible block number -/
def promotedMap (producers : List ProducerKey) (old : FlatMap) (dflt : Nat) : FlatMap :=
  producers.foldl (fun m pro => m.set pro.producerName ((old.find? pro.producerName).getD dflt)) []

/-- `block_header_state::maybe_promote_pending`; the flag says whether it promoted -/
def maybePromotePending (s : BlockHeaderState) : BlockHeaderState × Bool :=
  if s.pendingSchedule.producers.length ≠ 0 ∧ s.dposIrreversibleBlocknum ≥ s.pendingScheduleLibNum
  then
    let active := s.pendingSchedule
    ({ s with
        activeSchedule := active
        pendingSchedule := { version := active.version, producers := [] }
        producerToLastProduced :=
          (promotedMap active.producers s.producerToLastProduced s.dposIrreversibleBlocknum).set
            s.header.producer s.blockNum
        producerToLastImpliedIrb :=
          promotedMap active.producers s.producerToLastImpliedIrb s.dposIrreversibleBlocknum },
      true)
  else (s, false)

/-- `block_header_state::set_new_producers` -/
def setNewProducers (c : Crypto) (s : BlockHeaderState) (pending : ProducerSchedule) :
    Except String BlockHeaderState := do
  assert (pending.version == s.activeSchedule.version + 1)
    "wrong producer schedule version specified"
  assert (s.pendingSchedule.producers.length == 0)
    "cannot set new pending producers until last pending is confirmed"
  pure { s with
    header := { s.header with newProducers := some pending }
    pendingScheduleHash := c.scheduleDigest pending
    pendingSchedule := pending
    pendingScheduleLibNum := s.blockNum }

/-- `block_header_state::sig_digest` -/
def sigDigest (c : Crypto) (s : BlockHeaderState) : Nat :=
  c.pairDigest (c.pairDigest (c.headerDigest s.header) (mroot s.blockrootMerkle))
    s.pendingScheduleHash

/-- `block_header_state::signee` -/
def signee (c : Crypto) (s : BlockHeaderState) : Nat := c.recover s.producerSignature (sigDigest c s)

/-- the double-confirmation guard of `next` -/
def checkDoubleConfirm (s result : BlockHeaderState) (h : SignedBlockHeader) :
    Except String Unit :=
  match s.producerToLastProduced.find? h.producer with
  | some last =>
    assert (decide (last < (result.blockNum + 2 ^ 32 - h.confirmed) % 2 ^ 32))
      "producer double-confirming known range"
  | none => pure ()

/-- the `new_producers` step of `next`, after the promotion -/
def applyNewProducers (c : Crypto) (result : BlockHeaderState) (wasPendingPromoted : Bool) :
    Option ProducerSchedule → Except String BlockHeaderState
  | some np => do
    assert (!wasPendingPromoted) "cannot set pending producer schedule in the same block in which pending was promoted to active"
    setNewProducers c result np
  | none => pure result

/-- `block_header_state::next` -/
def next (c : Crypto) (s : BlockHeaderState) (h : SignedBlockHeader) (trust : Bool := false) :
    Except String BlockHeaderState := do
  assert (h.timestamp ≠ 0) ""
  assert (h.headerExtensions.length == 0) "no supported extensions"
  assert (decide (h.timestamp > s.header.timestamp)) "block must be later in time"
  assert (h.previous == s.id) "block must link to current state"
  let result ← generateNext c s h.timestamp
  assert (result.header.producer == h.producer) "wrong producer specified"
  assert (result.header.scheduleVersion == h.scheduleVersion)
    "schedule_version in signed block is corrupted"
  checkDoubleConfirm s result h
  let promoted := maybePromotePending (setConfirmed result h.confirmed)
  let result ← applyNewProducers c promoted.1 promoted.2 h.newProducers
  let result := { result with
    header := { result.header with actionMroot := h.actionMroot,
                                   transactionMroot := h.transactionMroot }
    producerSignature := h.producerSignature }
  let result := { result with id := result.header.id c }
  assert (trust || result.blockSigningKey == signee c result) "block not signed by expected key"
  pure result

/-! ## What a step of the chain keeps -/

theorem generateNext_eq_ok {c : Crypto} {s r : BlockHeaderState} {w : Nat}
    (h : generateNext c s w = .ok r) :
    r.header.previous = s.id ∧ r.blockrootMerkle = c.mappend s.blockrootMerkle s.id ∧
      r.activeSchedule = s.activeSchedule ∧ r.pendingSchedule = s.pendingSchedule := by
  unfold generateNext at h
  obtain ⟨w', -, h⟩ := bind_eq_ok.mp h
  obtain ⟨pk, -, h⟩ := bind_eq_ok.mp h
  cases h
  exact ⟨rfl, rfl, rfl, rfl⟩

@[simp] theorem setConfirmed_previous (s : BlockHeaderState) (n : Nat) :
    (setConfirmed s n).header.previous = s.header.previous := rfl

@[simp] theorem setConfirmed_blockrootMerkle (s : BlockHeaderState) (n : Nat) :
    (setConfirmed s n).blockrootMerkle = s.blockrootMerkle := rfl

@[simp] theorem setConfirmed_activeSchedule (s : BlockHeaderState) (n : Nat) :
    (setConfirmed s n).activeSchedule = s.activeSchedule := rfl

@[simp] theorem setConfirmed_pendingSchedule (s : BlockHeaderState) (n : Nat) :
    (setConfirmed s n).pendingSchedule = s.pendingSchedule := rfl

@[simp] theorem maybePromotePending_header (s : BlockHeaderState) :
    (maybePromotePending s).1.header = s.header := by
  unfold maybePromotePending
  split <;> rfl

@[simp] theorem maybePromotePending_blockrootMerkle (s : BlockHeaderState) :
    (maybePromotePending s).1.blockrootMerkle = s.blockrootMerkle := by
  unfold maybePromotePending
  split <;> rfl

theorem maybePromotePending_cases (s : BlockHeaderState) :
    (maybePromotePending s).2 = false ∧ (maybePromotePending s).1 = s ∨
      (maybePromotePending s).2 = true ∧
        (maybePromotePending s).1.activeSchedule = s.pendingSchedule ∧
        (maybePromotePending s).1.pendingSchedule =
          { version := s.pendingSchedule.version, producers := [] } := by
  unfold maybePromotePending
  split
  · exact .inr ⟨rfl, rfl, rfl⟩
  · exact .inl ⟨rfl, rfl⟩

theorem applyNewProducers_eq_ok {c : Crypto} {s r : BlockHeaderState} {b : Bool}
    {np : Option ProducerSchedule} (h : applyNewProducers c s b np = .ok r) :
    r.header.previous = s.header.previous ∧ r.blockrootMerkle = s.blockrootMerkle ∧
      r.activeSchedule = s.activeSchedule ∧ (b = false ∨ r = s) := by
  cases np with
  | none =>
    cases h
    exact ⟨rfl, rfl, rfl, .inr rfl⟩
  | some np =>
    obtain ⟨hb, h⟩ := assert_bind_eq_ok.mp h
    unfold setNewProducers at h
    obtain ⟨-, h⟩ := assert_bind_eq_ok.mp h
    obtain ⟨-, h⟩ := assert_bind_eq_ok.mp h
    cases h
    exact ⟨rfl, rfl, rfl, .inl (by simpa using hb)⟩

theorem next_spec {c : Crypto} {s r : BlockHeaderState} {hd : SignedBlockHeader} {trust : Bool}
    (h : next c s hd trust = .ok r) :
    ∃ g a, generateNext c s hd.timestamp = .ok g ∧
      applyNewProducers c (maybePromotePending (setConfirmed g hd.confirmed)).1
        (maybePromotePending (setConfirmed g hd.confirmed)).2 hd.newProducers = .ok a ∧
      r = { a with
        header := { a.header with actionMroot := hd.actionMroot, transactionMroot := hd.transactionMroot }
        producerSignature := hd.producerSignature
        id := BlockHeader.id c { a.header with actionMroot := hd.actionMroot,
                                               transactionMroot := hd.transactionMroot } } := by
  unfold next at h
  obtain ⟨-, h⟩ := assert_bind_eq_ok.mp h
  obtain ⟨-, h⟩ := assert_bind_eq_ok.mp h
  obtain ⟨-, h⟩ := assert_bind_eq_ok.mp h
  obtain ⟨-, h⟩ := assert_bind_eq_ok.mp h
  obtain ⟨g, hg, h⟩ := bind_eq_ok.mp h
  obtain ⟨-, h⟩ := assert_bind_eq_ok.mp h
  obtain ⟨-, h⟩ := assert_bind_eq_ok.mp h
  obtain ⟨-, -, h⟩ := bind_eq_ok.mp h
  obtain ⟨a, ha, h⟩ := bind_eq_ok.mp h
  obtain ⟨-, h⟩ := assert_bind_eq_ok.mp h
  cases h
  exact ⟨g, a, hg, ha, rfl⟩

/-- **a step of the chain**: the next state links to the current one, appends the current id to
the block merkle and carries its own id; its active schedule is the current one, or the
promoted one with a moved-from pending schedule of the same version -/
theorem next_eq_ok {c : Crypto} {s r : BlockHeaderState} {hd : SignedBlockHeader} {trust : Bool}
    (h : next c s hd trust = .ok r) :
    r.header.previous = s.id ∧ r.blockrootMerkle = c.mappend s.blockrootMerkle s.id ∧
      r.id = r.header.id c ∧
      (r.activeSchedule = s.activeSchedule ∨
        r.pendingSchedule = { version := r.activeSchedule.version, producers := [] }) := by
  obtain ⟨g, a, hg, ha, rfl⟩ := next_spec h
  obtain ⟨hprev, hmerkle, hactive, -⟩ := generateNext_eq_ok hg
  obtain ⟨aprev, amerkle, aactive, ha⟩ := applyNewProducers_eq_ok ha
  refine ⟨?_, ?_, rfl, ?_⟩
  · simp [aprev, hprev]
  · simp [amerkle, hmerkle]
  · rcases maybePromotePending_cases (setConfirmed g hd.confirmed) with ⟨hp, hs⟩ | ⟨hp, hs, hq⟩
    · left
      simp [aactive, hs, hactive]
    · right
      rcases ha with hb | rfl
      · simp [hp] at hb
      · simp [hs, hq]

end BlockHeaderState

end Eos
