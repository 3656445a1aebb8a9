import Mathlib.Data.Nat.Pairing
import Eoscochain.Lib.Assert
import Eoscochain.Lib.Run
import Eoscochain.Lib.Table

/-!
# Replay protection of input transactions

libraries/chain controller.cpp and transaction_context.cpp.  The controller records the id and
the expiration of every input transaction it applies (`record_transaction`: a row of
`transaction_multi_index`, whose ids are unique), refuses a transaction that expires before the
pending block's time (`validate_expiration`), and at the start of a block erases the rows that
have expired (`clear_expired_input_transactions`).

* `Controller`       the pending block's time, the dedupe rows, `replay_head_time`;
* `startBlock`, `pushTransaction`   `start_block`, and `push_transaction` of an input
                     transaction, given what the parts not modelled here decide: whether the read
                     mode and the block's status clear the rows, whether the transaction's checks
                     run, whether it executes, whether its changes are kept;
* `applied`          the transactions of a log that were applied and kept;
* `DedupeInv`        each of them is recorded, or expired before the pending block, and no two
                     share an id;
* `no_transaction_applied_twice`   the invariant along every run whose checks are not skipped.

Times are in microseconds, expirations in seconds (`time_point_sec`).  A block that is aborted
leaves no trace in the database, nor does a transaction whose changes are undone: a run is the
sequence of blocks the database keeps.  `replay_head_time` is set only by `replay()` of the block
log at start-up, which is not modelled.  The id of a transaction is a digest of it, its header's
expiration included.
-/

namespace Eos.Dedupe

open Machine Table

/-- `transaction_object`, a row of the dedupe index -/
structure TransactionObject where
  trxId : Nat
  expiration : Nat
  deriving DecidableEq, Repr

/-- an input transaction: the expiration of its header, and the rest of it -/
structure InputTrx where
  expiration : Nat
  body : Nat
  deriving DecidableEq, Repr

/-- what the dedupe reads and writes -/
structure Controller where
  /-- `pending_block_time()` -/
  pendingBlockTime : Nat := 0
  /-- `transaction_multi_index` -/
  transactions : List TransactionObject := []
  replayHeadTime : Option Nat := none
  /-- `max_transaction_lifetime` of the chain configuration, in seconds -/
  maxTransactionLifetime : Nat
  deriving DecidableEq, Repr

/-- `fc::time_point` of a `time_point_sec` -/
def toTimePoint (sec : Nat) : Nat := sec * 1000000

/-- the message of `expired_tx_exception` -/
def expiredMessage : String :=
  "transaction has expired, expiration is $\x7btrx.expiration\x7d and pending block time is " ++
    "${pending_block_time}"

namespace Controller

/-- `clear_expired_input_transactions`: the row of the earliest expiration erased while it has
expired; the loop erases a row a turn, so as many turns as rows finish it -/
def clearExpiredInputTransactions (st : Controller) : Controller :=
  { st with transactions := (eraseWhileFirst (·.expiration)
      (fun r => decide (st.pendingBlockTime > toTimePoint r.expiration))
      st.transactions.length st.transactions).1 }

/-- `controller::validate_expiration` -/
def validateExpiration (st : Controller) (expiration : Nat) : Except String Unit := do
  assert (decide (toTimePoint expiration ≥ st.pendingBlockTime)) expiredMessage
  assert (decide (toTimePoint expiration ≤ st.pendingBlockTime + st.maxTransactionLifetime * 1000000))
    ("Transaction expiration is too far in the future relative to the reference time of " ++
      "${reference_time}, expiration is $\x7btrx.expiration\x7d and the maximum transaction " ++
      "lifetime is ${max_til_exp} seconds")

/-- `transaction_context::record_transaction`: the id is unique in the index -/
def recordTransaction (st : Controller) (id expiration : Nat) : Except String Controller := do
  assert (!(st.transactions.any (·.trxId == id))) "duplicate transaction ${id}"
  pure { st with transactions := st.transactions ++ [⟨id, expiration⟩] }

/-- `transaction_context::init_for_input_trx`: the checks unless skipped, then the record unless
skipped -/
def initForInputTrx (st : Controller) (id expiration : Nat) (checks skipRecording : Bool) :
    Except String Controller := do
  if checks then st.validateExpiration expiration
  if skipRecording then pure st else st.recordTransaction id expiration

/-- `push_transaction` of an input transaction: `skip_recording` while replaying blocks the log
already holds; `executes` says whether the checks not modelled, the authorization and the
execution succeed, `keep` whether the changes are squashed into the block rather than undone -/
def pushTransaction (trxId : InputTrx → Nat) (st : Controller) (trx : InputTrx)
    (checks executes keep : Bool) : Except String Controller := do
  let skipRecording := match st.replayHeadTime with
    | some t => decide (toTimePoint trx.expiration ≤ t)
    | none => false
  let st' ← st.initForInputTrx (trxId trx) trx.expiration checks skipRecording
  assert executes "transaction failed"
  pure (if keep then st' else st)

/-- `start_block`: a block after the head (`generate_next`), whose start clears the expired rows
when the read mode is speculative or the block is not -/
def startBlock (st : Controller) (when : Nat) (clears : Bool) : Except String Controller := do
  assert (decide (when > st.pendingBlockTime)) "next block must be in the future"
  let st := { st with pendingBlockTime := when }
  pure (if clears then st.clearExpiredInputTransactions else st)

end Controller

/-- what the controller is asked to do -/
inductive Event
  | startBlock (when : Nat) (clears : Bool)
  | pushTransaction (trx : InputTrx) (checks executes keep : Bool)
  deriving DecidableEq, Repr

/-- the checks of an input transaction are not skipped -/
def Event.checksRun : Event → Bool
  | .pushTransaction _ checks _ _ => checks
  | .startBlock _ _ => true

def step (trxId : InputTrx → Nat) (st : Controller) : Event → Except String Controller
  | .startBlock when clears => st.startBlock when clears
  | .pushTransaction trx checks executes keep => st.pushTransaction trxId trx checks executes keep

/-- the transactions of a log that were applied and kept -/
def applied : List Event → List InputTrx :=
  List.filterMap fun
    | .pushTransaction trx _ _ true => some trx
    | _ => none

@[simp] theorem applied_nil : applied [] = [] := rfl

theorem applied_concat (log : List Event) (e : Event) :
    applied (log ++ [e]) = applied log ++ applied [e] := List.filterMap_append

/-- the controller at genesis, with its configured transaction lifetime -/
def genesis (lifetime : Nat) : Controller := { maxTransactionLifetime := lifetime }

/-! ## The three operations -/

namespace Controller

variable {st st' : Controller}

/-- **A row is cleared exactly when the pending block's time is past its expiration** -/
theorem mem_clearExpiredInputTransactions (r : TransactionObject) :
    r ∈ st.clearExpiredInputTransactions.transactions ↔
      r ∈ st.transactions ∧ ¬ st.pendingBlockTime > toTimePoint r.expiration := by
  have hdown : ∀ x y : TransactionObject,
      decide (st.pendingBlockTime > toTimePoint x.expiration) = true → y.expiration ≤ x.expiration →
        decide (st.pendingBlockTime > toTimePoint y.expiration) = true := by
    intro x y hx hle
    rw [decide_eq_true_iff] at hx ⊢
    exact Nat.lt_of_le_of_lt (Nat.mul_le_mul_right _ hle) hx
  rw [clearExpiredInputTransactions, mem_eraseWhileFirst hdown _ _ (Nat.le_refl _) r,
    decide_eq_false_iff_not]

theorem validateExpiration_eq_ok {expiration : Nat} {u : Unit}
    (h : st.validateExpiration expiration = .ok u) : st.pendingBlockTime ≤ toTimePoint expiration := by
  unfold validateExpiration at h
  obtain ⟨hexp, -⟩ := assert_bind_eq_ok.mp h
  simpa using hexp

theorem validateExpiration_of_lt {expiration : Nat} (h : toTimePoint expiration < st.pendingBlockTime) :
    st.validateExpiration expiration = .error expiredMessage := by
  have hf : decide (toTimePoint expiration ≥ st.pendingBlockTime) = false :=
    decide_eq_false (Nat.not_le.mpr h)
  unfold validateExpiration
  exact assert_bind_of_false _ hf

theorem recordTransaction_eq_ok {id expiration : Nat}
    (h : st.recordTransaction id expiration = .ok st') :
    (∀ r ∈ st.transactions, r.trxId ≠ id) ∧
      st' = { st with transactions := st.transactions ++ [⟨id, expiration⟩] } := by
  unfold recordTransaction at h
  obtain ⟨hnew, h⟩ := assert_bind_eq_ok.mp h
  cases h
  refine ⟨fun r hr hid => ?_, rfl⟩
  have : st.transactions.any (·.trxId == id) = true := List.any_eq_true.mpr ⟨r, hr, by simp [hid]⟩
  simp [this] at hnew

theorem startBlock_eq_ok {when : Nat} {clears : Bool} (h : st.startBlock when clears = .ok st') :
    st.pendingBlockTime < when ∧ st'.pendingBlockTime = when ∧ st'.replayHeadTime = st.replayHeadTime ∧
      ∀ r, r ∈ st'.transactions ↔ r ∈ st.transactions ∧ (clears = true → ¬ when > toTimePoint r.expiration) := by
  unfold startBlock at h
  obtain ⟨hlt, h⟩ := assert_bind_eq_ok.mp h
  cases h
  refine ⟨by simpa using hlt, ?_, ?_, fun r => ?_⟩
  · cases clears <;> rfl
  · cases clears <;> rfl
  · cases clears with
    | false => simp
    | true =>
      rw [if_pos rfl, mem_clearExpiredInputTransactions]
      simp

theorem pushTransaction_eq_ok {trxId : InputTrx → Nat} {trx : InputTrx} {executes keep : Bool}
    (hreplay : st.replayHeadTime = none) (h : st.pushTransaction trxId trx true executes keep = .ok st') :
    st.pendingBlockTime ≤ toTimePoint trx.expiration ∧ (∀ r ∈ st.transactions, r.trxId ≠ trxId trx) ∧
      st' = if keep then { st with transactions := st.transactions ++ [⟨trxId trx, trx.expiration⟩] }
        else st := by
  unfold pushTransaction at h
  simp only [hreplay] at h
  obtain ⟨st1, hinit, h⟩ := bind_eq_ok.mp h
  obtain ⟨-, h⟩ := assert_bind_eq_ok.mp h
  cases h
  unfold initForInputTrx at hinit
  obtain ⟨u, hvalid, hinit⟩ := bind_eq_ok.mp hinit
  obtain ⟨hnew, rfl⟩ := recordTransaction_eq_ok hinit
  exact ⟨validateExpiration_eq_ok hvalid, hnew, rfl⟩

end Controller

/-! ## Runs -/

section
variable (trxId : InputTrx → Nat)

/-- every transaction applied and kept is recorded, or expired before the pending block; no two
share an id -/
structure DedupeInv (st : Controller) (log : List Event) : Prop where
  notReplaying : st.replayHeadTime = none
  recorded : ∀ trx ∈ applied log, ⟨trxId trx, trx.expiration⟩ ∈ st.transactions ∨
    toTimePoint trx.expiration < st.pendingBlockTime
  distinct : ((applied log).map trxId).Nodup

theorem dedupeInv_genesis (lifetime : Nat) : DedupeInv trxId (genesis lifetime) [] where
  notReplaying := rfl
  recorded := fun _ h => absurd h List.not_mem_nil
  distinct := List.nodup_nil

variable {trxId}

theorem DedupeInv.of_applied {st : Controller} {log log' : List Event}
    (hinv : DedupeInv trxId st log) (h : applied log' = applied log) : DedupeInv trxId st log' where
  notReplaying := hinv.notReplaying
  recorded := h ▸ hinv.recorded
  distinct := h ▸ hinv.distinct

theorem DedupeInv.startBlock {st st' : Controller} {log : List Event} {when : Nat}
    {clears : Bool} (hinv : DedupeInv trxId st log) (h : st.startBlock when clears = .ok st') :
    DedupeInv trxId st' (log ++ [.startBlock when clears]) := by
  obtain ⟨hlt, htime, hreplay, hmem⟩ := Controller.startBlock_eq_ok h
  have happ : applied (log ++ [.startBlock when clears]) = applied log := by
    rw [applied_concat, show applied [.startBlock when clears] = [] from rfl, List.append_nil]
  refine ⟨hreplay.trans hinv.notReplaying, fun trx htrx => ?_, happ ▸ hinv.distinct⟩
  rw [happ] at htrx
  rw [htime]
  rcases hinv.recorded trx htrx with hrec | hexp
  · -- kept unless the new block's time is past its expiration
    by_cases hpast : when > toTimePoint trx.expiration
    · exact .inr hpast
    · exact .inl ((hmem _).mpr ⟨hrec, fun _ => hpast⟩)
  · exact .inr (Nat.lt_trans hexp hlt)

theorem DedupeInv.push {st st' : Controller} {log : List Event} {trx : InputTrx}
    {executes keep : Bool} (hid : Function.Injective trxId) (hinv : DedupeInv trxId st log)
    (h : st.pushTransaction trxId trx true executes keep = .ok st') :
    DedupeInv trxId st' (log ++ [.pushTransaction trx true executes keep]) := by
  obtain ⟨hlive, hnew, rfl⟩ := Controller.pushTransaction_eq_ok hinv.notReplaying h
  cases keep with
  | false =>
    have happ : applied (log ++ [.pushTransaction trx true executes false]) = applied log := by
      rw [applied_concat, show applied [.pushTransaction trx true executes false] = [] from rfl,
        List.append_nil]
    exact hinv.of_applied happ
  | true =>
    have happ : applied (log ++ [.pushTransaction trx true executes true]) = applied log ++ [trx] := by
      rw [applied_concat]
      rfl
    rw [if_pos rfl]
    have hfresh : trxId trx ∉ (applied log).map trxId := by
      intro hmem
      obtain ⟨trx0, h0, hid0⟩ := List.mem_map.mp hmem
      obtain rfl := hid hid0
      rcases hinv.recorded trx0 h0 with hrec | hexp
      · exact hnew _ hrec rfl
      · omega
    refine ⟨hinv.notReplaying, fun trx1 h1 => ?_, ?_⟩
    · rw [happ] at h1
      rcases List.mem_append.mp h1 with h1 | h1
      · rcases hinv.recorded trx1 h1 with hrec | hexp
        · exact .inl (List.mem_append_left _ hrec)
        · exact .inr hexp
      · rw [List.mem_singleton.mp h1]
        exact .inl (List.mem_append_right _ (List.mem_singleton_self _))
    · rw [happ, List.map_append, List.map_singleton]
      exact List.nodup_append.mpr ⟨hinv.distinct, List.nodup_singleton _,
        fun a ha b hb hab => hfresh (by rw [List.mem_singleton.mp hb] at hab; exact hab ▸ ha)⟩

theorem DedupeInv.step {st st' : Controller} {log : List Event} {e : Event}
    (hid : Function.Injective trxId) (hchecks : e.checksRun = true) (hinv : DedupeInv trxId st log)
    (h : step trxId st e = .ok st') : DedupeInv trxId st' (log ++ [e]) := by
  cases e with
  | startBlock when clears => exact hinv.startBlock h
  | pushTransaction trx checks executes keep =>
    obtain rfl : checks = true := hchecks
    exact hinv.push hid h

/-- **Replay protection.**  Along every run whose input transactions are checked, with a
transaction id that is a collision-free digest of the transaction: no id is applied twice, and
every transaction applied is either still recorded, or has expired before the pending block, so
that `validate_expiration` refuses it from then on -/
theorem no_transaction_applied_twice (hid : Function.Injective trxId) (lifetime : Nat)
    (run : List Event) (hchecks : ∀ e ∈ run, e.checksRun = true) :
    ((applied (succeeded (step trxId) (genesis lifetime) run)).map trxId).Nodup ∧
      ∀ trx ∈ applied (succeeded (step trxId) (genesis lifetime) run),
        ⟨trxId trx, trx.expiration⟩ ∈ (exec (step trxId) (genesis lifetime) run).transactions ∨
          (toTimePoint trx.expiration < (exec (step trxId) (genesis lifetime) run).pendingBlockTime ∧
            (exec (step trxId) (genesis lifetime) run).validateExpiration trx.expiration =
              .error expiredMessage) := by
  have hinv := exec_succeeded_inv_when (fun e => e.checksRun = true) (DedupeInv trxId)
    (fun _ _ _ _ hc hinv hstep => hinv.step hid hc hstep) run (genesis lifetime) []
    hchecks (dedupeInv_genesis trxId lifetime)
  rw [List.nil_append] at hinv
  refine ⟨hinv.distinct, fun trx htrx => ?_⟩
  rcases hinv.recorded trx htrx with hrec | hexp
  · exact .inl hrec
  · exact .inr ⟨hexp, Controller.validateExpiration_of_lt hexp⟩

end

/-- the id of the sample: the expiration and the rest, paired -/
def sampleTrxId (trx : InputTrx) : Nat := Nat.pair trx.expiration trx.body

theorem sampleTrxId_injective : Function.Injective sampleTrxId := by
  intro a b h
  obtain ⟨he, hb⟩ := Nat.pair_eq_pair.mp h
  cases a
  cases b
  simp only at he hb
  rw [he, hb]

/-- a transaction expiring at second 10, pushed in a block at second 1, again in a block at
second 2, and again in a block at second 11 -/
def sampleRun : List Event :=
  [.startBlock 1000000 true, .pushTransaction ⟨10, 0⟩ true true true,
   .startBlock 2000000 true, .pushTransaction ⟨10, 0⟩ true true true,
   .startBlock 11000000 true, .pushTransaction ⟨10, 0⟩ true true true]

theorem sample_applied_once :
    Function.Injective sampleTrxId ∧ (∀ e ∈ sampleRun, e.checksRun = true) ∧
      ((applied (succeeded (step sampleTrxId) (genesis 3600) sampleRun)).map sampleTrxId).Nodup ∧
      ∀ trx ∈ applied (succeeded (step sampleTrxId) (genesis 3600) sampleRun),
        ⟨sampleTrxId trx, trx.expiration⟩ ∈
            (exec (step sampleTrxId) (genesis 3600) sampleRun).transactions ∨
          (toTimePoint trx.expiration <
              (exec (step sampleTrxId) (genesis 3600) sampleRun).pendingBlockTime ∧
            (exec (step sampleTrxId) (genesis 3600) sampleRun).validateExpiration trx.expiration =
              .error expiredMessage) :=
  ⟨sampleTrxId_injective, by decide,
    no_transaction_applied_twice sampleTrxId_injective 3600 sampleRun (by decide)⟩

end Eos.Dedupe
