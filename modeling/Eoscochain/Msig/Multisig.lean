import Mathlib.Data.List.Perm.Basic
import Eoscochain.Lib.Assert
import Eoscochain.Lib.Run
import Eoscochain.Lib.Table
import Eoscochain.Auth.Authority
import Eoscochain.Chain.Types

/-!
# The eosio.msig contract

contracts/eosio.msig eosio.msig.cpp.  A proposer stores a transaction under a name with the list
of permission levels whose approval it asks; each of them approves or takes its approval back,
and once the approvals satisfy the transaction anyone executes it, as a deferred transaction.
The `proposal` table keeps the packed transaction and the `approvals` table the two lists, both
scoped by the proposer and keyed by the proposal's name.

* `MsigEnv`       what the transaction gives an action: its authorizations, `now()`, and
                  `check_transaction_authorization`, which the chain answers;
* `propose`, `approve`, `unapprove`, `cancel`, `exec`   the actions, in the order of the
                  source's checks;
* `step`          one action, rolled back when it fails.

What a run keeps (`msig_proposals_bookkeeping`), read off the log of the actions that
succeeded: each proposal has both rows or neither; its two lists together are the list asked at
its `propose`; what is approved is what was approved since, by the level itself, less what was
taken back; and each proposal is closed, by `cancel` or `exec`, at most once.
-/

set_option linter.unusedSectionVars false

namespace Eos.Msig

open Machine Table Auth

/-- the header fields of the proposed transaction that the contract reads, and the rest -/
structure ProposedTransaction where
  expiration : Nat
  body : Nat
  deriving DecidableEq, Repr

/-- `proposal`, in the table scoped by its proposer -/
structure Proposal where
  proposer : Nat
  proposalName : Nat
  packedTransaction : ProposedTransaction
  deriving DecidableEq, Repr

def Proposal.key (p : Proposal) : Nat × Nat := (p.proposer, p.proposalName)

/-- `approvals_info`, in the table scoped by its proposer -/
structure ApprovalsInfo where
  proposer : Nat
  proposalName : Nat
  requestedApprovals : List PermissionLevel
  providedApprovals : List PermissionLevel
  deriving DecidableEq, Repr

def ApprovalsInfo.key (a : ApprovalsInfo) : Nat × Nat := (a.proposer, a.proposalName)

/-- a transaction sent by `send_deferred`, with its sender id `(proposer << 64) | proposal_name` -/
structure DeferredSend where
  proposer : Nat
  proposalName : Nat
  payer : Nat
  trx : ProposedTransaction
  deriving DecidableEq, Repr

structure MsigState where
  proposals : List Proposal := []
  approvals : List ApprovalsInfo := []
  sent : List DeferredSend := []
  deriving DecidableEq, Repr

/-- what an action reads of its transaction and of the chain -/
structure MsigEnv where
  auths : List PermissionLevel
  now : Nat
  checkTransactionAuthorization : ProposedTransaction → List PermissionLevel → Bool

/-- `require_auth(account)` -/
def requireAuth (env : MsigEnv) (account : Nat) : Except String Unit :=
  assert (env.auths.any (·.actor == account)) "missing authority of ${account}"

/-- `require_auth(level)` -/
def requireAuthLevel (env : MsigEnv) (level : PermissionLevel) : Except String Unit :=
  assert (env.auths.contains level) "missing authority of ${account}/${permission}"

/-- `emplace`: the database refuses a second row of one key -/
def emplaceRow {α : Type} (key : α → Nat × Nat) (rows : List α) (r : α) : Except String (List α) := do
  assert (findKey key (key r) rows).isNone insertViolation
  pure (rows ++ [r])

/-- `multisig::propose` -/
def propose (env : MsigEnv) (st : MsigState) (proposer proposalName : Nat)
    (requested : List PermissionLevel) (trx : ProposedTransaction) : Except String MsigState := do
  requireAuth env proposer
  assert (decide (trx.expiration ≥ env.now)) "transaction expired"
  assert (findKey Proposal.key (proposer, proposalName) st.proposals).isNone
    "proposal with the same name exists"
  assert (env.checkTransactionAuthorization trx requested) "transaction authorization failed"
  let proposals ← emplaceRow Proposal.key st.proposals ⟨proposer, proposalName, trx⟩
  let approvals ← emplaceRow ApprovalsInfo.key st.approvals ⟨proposer, proposalName, requested, []⟩
  pure { st with proposals, approvals }

/-- `multisig::approve`: one occurrence of the level moves from requested to provided -/
def approve (env : MsigEnv) (st : MsigState) (proposer proposalName : Nat) (level : PermissionLevel) :
    Except String MsigState := do
  requireAuthLevel env level
  let apps ← getKey ApprovalsInfo.key (proposer, proposalName) st.approvals "proposal not found"
  assert (apps.2.requestedApprovals.contains level)
    "approval is not on the list of requested approvals"
  pure { st with approvals := st.approvals.set apps.1 { apps.2 with
    providedApprovals := apps.2.providedApprovals ++ [level]
    requestedApprovals := apps.2.requestedApprovals.erase level } }

/-- `multisig::unapprove`: one occurrence of the level moves back -/
def unapprove (env : MsigEnv) (st : MsigState) (proposer proposalName : Nat) (level : PermissionLevel) :
    Except String MsigState := do
  requireAuthLevel env level
  let apps ← getKey ApprovalsInfo.key (proposer, proposalName) st.approvals "proposal not found"
  assert (apps.2.providedApprovals.contains level) "no approval previously granted"
  pure { st with approvals := st.approvals.set apps.1 { apps.2 with
    requestedApprovals := apps.2.requestedApprovals ++ [level]
    providedApprovals := apps.2.providedApprovals.erase level } }

/-- `multisig::cancel`; another account than the proposer waits for the expiration -/
def cancel (env : MsigEnv) (st : MsigState) (proposer proposalName canceler : Nat) :
    Except String MsigState := do
  requireAuth env canceler
  let prop ← getKey Proposal.key (proposer, proposalName) st.proposals "proposal not found"
  assert (canceler == proposer || decide (prop.2.packedTransaction.expiration < env.now))
    "cannot cancel until expiration"
  let apps ← getKey ApprovalsInfo.key (proposer, proposalName) st.approvals "proposal not found"
  pure { st with proposals := st.proposals.eraseIdx prop.1, approvals := st.approvals.eraseIdx apps.1 }

/-- `multisig::exec` -/
def exec (env : MsigEnv) (st : MsigState) (proposer proposalName executer : Nat) :
    Except String MsigState := do
  requireAuth env executer
  let prop ← getKey Proposal.key (proposer, proposalName) st.proposals "proposal not found"
  let apps ← getKey ApprovalsInfo.key (proposer, proposalName) st.approvals "proposal not found"
  assert (decide (prop.2.packedTransaction.expiration ≥ env.now)) "transaction expired"
  assert (env.checkTransactionAuthorization prop.2.packedTransaction apps.2.providedApprovals)
    "transaction authorization failed"
  pure { st with
    sent := st.sent ++ [⟨proposer, proposalName, executer, prop.2.packedTransaction⟩]
    proposals := st.proposals.eraseIdx prop.1
    approvals := st.approvals.eraseIdx apps.1 }

inductive MsigAction
  | propose (proposer proposalName : Nat) (requested : List PermissionLevel)
      (trx : ProposedTransaction)
  | approve (proposer proposalName : Nat) (level : PermissionLevel)
  | unapprove (proposer proposalName : Nat) (level : PermissionLevel)
  | cancel (proposer proposalName canceler : Nat)
  | exec (proposer proposalName executer : Nat)
  deriving DecidableEq, Repr

/-- the dispatcher -/
def apply (env : MsigEnv) (st : MsigState) : MsigAction → Except String MsigState
  | .propose p n requested trx => propose env st p n requested trx
  | .approve p n level => approve env st p n level
  | .unapprove p n level => unapprove env st p n level
  | .cancel p n canceler => cancel env st p n canceler
  | .exec p n executer => exec env st p n executer

def step (st : MsigState) (e : MsigEnv × MsigAction) : Except String MsigState := apply e.1 st e.2

/-! ## What each action does -/

section Actions
variable {env : MsigEnv} {st st' : MsigState}

theorem emplaceRow_eq_ok {α : Type} {key : α → Nat × Nat} {rows rows' : List α} {r : α}
    (h : emplaceRow key rows r = .ok rows') : (∀ x ∈ rows, key x ≠ key r) ∧ rows' = rows ++ [r] := by
  unfold emplaceRow at h
  obtain ⟨hnone, h⟩ := assert_bind_eq_ok.mp h
  cases h
  exact ⟨findKey_eq_none (Option.isNone_iff_eq_none.mp hnone), rfl⟩

theorem requireAuthLevel_eq_ok {level : PermissionLevel} (h : requireAuthLevel env level = .ok ()) :
    level ∈ env.auths := by
  unfold requireAuthLevel at h
  unfold assert at h
  split at h
  · next hc => exact List.contains_iff_mem.mp hc
  · cases h

theorem propose_eq_ok {p n : Nat} {requested : List PermissionLevel} {trx : ProposedTransaction}
    (h : propose env st p n requested trx = .ok st') :
    (∀ x ∈ st.proposals, x.key ≠ (p, n)) ∧ (∀ a ∈ st.approvals, a.key ≠ (p, n)) ∧
      st' = { st with proposals := st.proposals ++ [⟨p, n, trx⟩]
                      approvals := st.approvals ++ [⟨p, n, requested, []⟩] } := by
  unfold propose at h
  obtain ⟨-, -, h⟩ := bind_eq_ok.mp h
  obtain ⟨-, h⟩ := assert_bind_eq_ok.mp h
  obtain ⟨-, h⟩ := assert_bind_eq_ok.mp h
  obtain ⟨-, h⟩ := assert_bind_eq_ok.mp h
  obtain ⟨proposals, hp, h⟩ := bind_eq_ok.mp h
  obtain ⟨approvals, ha, h⟩ := bind_eq_ok.mp h
  cases h
  obtain ⟨hpfresh, rfl⟩ := emplaceRow_eq_ok hp
  obtain ⟨hafresh, rfl⟩ := emplaceRow_eq_ok ha
  exact ⟨hpfresh, hafresh, rfl⟩

theorem approve_eq_ok {p n : Nat} {level : PermissionLevel} (h : approve env st p n level = .ok st') :
    level ∈ env.auths ∧ ∃ i a, st.approvals[i]? = some a ∧ a.key = (p, n) ∧
      level ∈ a.requestedApprovals ∧
      st' = { st with approvals := st.approvals.set i { a with
        providedApprovals := a.providedApprovals ++ [level]
        requestedApprovals := a.requestedApprovals.erase level } } := by
  unfold approve at h
  obtain ⟨u, hauth, h⟩ := bind_eq_ok.mp h
  obtain ⟨⟨i, a⟩, hget, h⟩ := bind_eq_ok.mp h
  obtain ⟨hreq, h⟩ := assert_bind_eq_ok.mp h
  cases h
  obtain ⟨hi, hkey⟩ := getKey_eq_ok hget
  exact ⟨requireAuthLevel_eq_ok hauth, i, a, hi, hkey, List.contains_iff_mem.mp hreq, rfl⟩

theorem unapprove_eq_ok {p n : Nat} {level : PermissionLevel}
    (h : unapprove env st p n level = .ok st') :
    level ∈ env.auths ∧ ∃ i a, st.approvals[i]? = some a ∧ a.key = (p, n) ∧
      level ∈ a.providedApprovals ∧
      st' = { st with approvals := st.approvals.set i { a with
        requestedApprovals := a.requestedApprovals ++ [level]
        providedApprovals := a.providedApprovals.erase level } } := by
  unfold unapprove at h
  obtain ⟨u, hauth, h⟩ := bind_eq_ok.mp h
  obtain ⟨⟨i, a⟩, hget, h⟩ := bind_eq_ok.mp h
  obtain ⟨hprov, h⟩ := assert_bind_eq_ok.mp h
  cases h
  obtain ⟨hi, hkey⟩ := getKey_eq_ok hget
  exact ⟨requireAuthLevel_eq_ok hauth, i, a, hi, hkey, List.contains_iff_mem.mp hprov, rfl⟩

theorem cancel_eq_ok {p n canceler : Nat} (h : cancel env st p n canceler = .ok st') :
    ∃ i x j a, st.proposals[i]? = some x ∧ x.key = (p, n) ∧ st.approvals[j]? = some a ∧
      a.key = (p, n) ∧
      st' = { st with proposals := st.proposals.eraseIdx i, approvals := st.approvals.eraseIdx j } := by
  unfold cancel at h
  obtain ⟨-, -, h⟩ := bind_eq_ok.mp h
  obtain ⟨⟨i, x⟩, hprop, h⟩ := bind_eq_ok.mp h
  obtain ⟨-, h⟩ := assert_bind_eq_ok.mp h
  obtain ⟨⟨j, a⟩, happs, h⟩ := bind_eq_ok.mp h
  cases h
  obtain ⟨hi, hx⟩ := getKey_eq_ok hprop
  obtain ⟨hj, ha⟩ := getKey_eq_ok happs
  exact ⟨i, x, j, a, hi, hx, hj, ha, rfl⟩

theorem exec_eq_ok {p n executer : Nat} (h : exec env st p n executer = .ok st') :
    ∃ i x j a, st.proposals[i]? = some x ∧ x.key = (p, n) ∧ st.approvals[j]? = some a ∧
      a.key = (p, n) ∧
      st' = { st with sent := st.sent ++ [⟨p, n, executer, x.packedTransaction⟩]
                      proposals := st.proposals.eraseIdx i, approvals := st.approvals.eraseIdx j } := by
  unfold exec at h
  obtain ⟨-, -, h⟩ := bind_eq_ok.mp h
  obtain ⟨⟨i, x⟩, hprop, h⟩ := bind_eq_ok.mp h
  obtain ⟨⟨j, a⟩, happs, h⟩ := bind_eq_ok.mp h
  obtain ⟨-, h⟩ := assert_bind_eq_ok.mp h
  obtain ⟨-, h⟩ := assert_bind_eq_ok.mp h
  cases h
  obtain ⟨hi, hx⟩ := getKey_eq_ok hprop
  obtain ⟨hj, ha⟩ := getKey_eq_ok happs
  exact ⟨i, x, j, a, hi, hx, hj, ha, rfl⟩

end Actions

/-! ## The log of a run -/

namespace MsigAction

/-- the proposal an action names -/
def key : MsigAction → Nat × Nat
  | .propose p n _ _ => (p, n)
  | .approve p n _ => (p, n)
  | .unapprove p n _ => (p, n)
  | .cancel p n _ => (p, n)
  | .exec p n _ => (p, n)

/-- in the life of its proposal: `true` for `propose`, `false` for `cancel` and `exec` -/
def life : MsigAction → Option Bool
  | .propose .. => some true
  | .cancel .. => some false
  | .exec .. => some false
  | _ => none

def requested : MsigAction → Option (List PermissionLevel)
  | .propose _ _ r _ => some r
  | _ => none

def approvedLevel : MsigAction → Option PermissionLevel
  | .approve _ _ l => some l
  | _ => none

def unapprovedLevel : MsigAction → Option PermissionLevel
  | .unapprove _ _ l => some l
  | _ => none

/-- the sender id of what `exec` sends -/
def execKey : MsigAction → Option (Nat × Nat)
  | .exec p n _ => some (p, n)
  | _ => none

end MsigAction

/-- what the actions of a log on the proposal `k` say, in order -/
def byKey {β : Type} (f : MsigAction → Option β) (k : Nat × Nat) (log : List (MsigEnv × MsigAction)) :
    List β :=
  log.filterMap fun e => if e.2.key = k then f e.2 else none

/-- the life of the proposal `k` -/
def lifecycle (k : Nat × Nat) (log : List (MsigEnv × MsigAction)) : List Bool := byKey MsigAction.life k log

/-- the last of `bs`, or `dflt` -/
def lastOr (dflt : Bool) (bs : List Bool) : Bool := bs.foldl (fun _ b => b) dflt

/-- the proposal `k` is open: its last event is a `propose` -/
def Live (k : Nat × Nat) (log : List (MsigEnv × MsigAction)) : Prop := lastOr false (lifecycle k log) = true

/-- the list asked by the last `propose` of `k` -/
def lastRequested (k : Nat × Nat) (log : List (MsigEnv × MsigAction)) : Option (List PermissionLevel) :=
  (byKey MsigAction.requested k log).getLast?

/-- the log since the last `propose` of `k` -/
def sinceProposed (k : Nat × Nat) (log : List (MsigEnv × MsigAction)) : List (MsigEnv × MsigAction) :=
  sinceLast (fun e => e.2.key == k && (e.2.requested).isSome) log

/-- an `approve` or `unapprove` in the log was authorized by its level -/
def Authorized (e : MsigEnv × MsigAction) : Prop :=
  (∀ l, e.2.approvedLevel = some l → l ∈ e.1.auths) ∧ ∀ l, e.2.unapprovedLevel = some l → l ∈ e.1.auths

/-- `propose`, then `cancel` or `exec`, then `propose` again: a proposal is closed at most once -/
def Alternating : Bool → List Bool → Prop
  | _, [] => True
  | live, b :: bs => b = !live ∧ Alternating b bs

theorem lastOr_concat (dflt : Bool) (bs : List Bool) (b : Bool) : lastOr dflt (bs ++ [b]) = b := by
  simp [lastOr, List.foldl_append]

theorem alternating_count : ∀ (live : Bool) (bs : List Bool), Alternating live bs →
    bs.count live ≤ bs.count (!live) ∧ bs.count (!live) ≤ bs.count live + 1
  | _, [], _ => by simp
  | live, b :: bs, ⟨hb, hbs⟩ => by
    subst hb
    have ih := alternating_count _ bs hbs
    cases live <;> simp_all

theorem alternating_concat : ∀ (live : Bool) (bs : List Bool) (b : Bool), Alternating live bs →
    b = !(lastOr live bs) → Alternating live (bs ++ [b])
  | _, [], _, _, hb => ⟨hb, trivial⟩
  | _, c :: cs, b, ⟨hc, hcs⟩, hb => ⟨hc, alternating_concat c cs b hcs hb⟩

theorem byKey_concat {β : Type} (f : MsigAction → Option β) (k : Nat × Nat)
    (log : List (MsigEnv × MsigAction)) (e : MsigEnv × MsigAction) :
    byKey f k (log ++ [e]) = byKey f k log ++ (if e.2.key = k then (f e.2).toList else []) := by
  unfold byKey
  rw [List.filterMap_append]
  congr 1
  by_cases hk : e.2.key = k
  · cases hf : f e.2 <;> simp [hk, hf]
  · simp [hk]

theorem byKey_cons {β : Type} (f : MsigAction → Option β) (k : Nat × Nat)
    (e : MsigEnv × MsigAction) (log : List (MsigEnv × MsigAction)) :
    byKey f k (e :: log) = (if e.2.key = k then (f e.2).toList else []) ++ byKey f k log := by
  unfold byKey
  rw [List.filterMap_cons]
  by_cases hk : e.2.key = k
  · cases f e.2 <;> simp [hk]
  · simp [hk]

theorem mem_byKey {β : Type} {f : MsigAction → Option β} {k : Nat × Nat}
    {log : List (MsigEnv × MsigAction)} {x : β} :
    x ∈ byKey f k log ↔ ∃ e ∈ log, e.2.key = k ∧ f e.2 = some x := by
  unfold byKey
  rw [List.mem_filterMap]
  constructor
  · rintro ⟨e, he, hx⟩
    by_cases hk : e.2.key = k
    · exact ⟨e, he, hk, by rwa [if_pos hk] at hx⟩
    · rw [if_neg hk] at hx
      cases hx
  · rintro ⟨e, he, hk, hx⟩
    exact ⟨e, he, by rw [if_pos hk, hx]⟩

theorem byKey_concat_of_ne {β : Type} (f : MsigAction → Option β) {k : Nat × Nat}
    (log : List (MsigEnv × MsigAction)) {e : MsigEnv × MsigAction} (hk : e.2.key ≠ k) :
    byKey f k (log ++ [e]) = byKey f k log := by
  rw [byKey_concat, if_neg hk, List.append_nil]

theorem byKey_concat_of_none {β : Type} {f : MsigAction → Option β} (k : Nat × Nat)
    (log : List (MsigEnv × MsigAction)) {e : MsigEnv × MsigAction} (hf : f e.2 = none) :
    byKey f k (log ++ [e]) = byKey f k log := by
  rw [byKey_concat]
  split <;> simp [hf]

theorem byKey_concat_of_key {β : Type} (f : MsigAction → Option β) {k : Nat × Nat}
    (log : List (MsigEnv × MsigAction)) {e : MsigEnv × MsigAction} (hk : e.2.key = k) :
    byKey f k (log ++ [e]) = byKey f k log ++ (f e.2).toList := by
  rw [byKey_concat, if_pos hk]

section Log
variable {log : List (MsigEnv × MsigAction)} {e : MsigEnv × MsigAction} {k : Nat × Nat}

theorem lifecycle_concat_of_ne (hk : e.2.key ≠ k) : lifecycle k (log ++ [e]) = lifecycle k log :=
  byKey_concat_of_ne _ log hk

theorem lifecycle_concat_of_none (k : Nat × Nat) (h : e.2.life = none) :
    lifecycle k (log ++ [e]) = lifecycle k log :=
  byKey_concat_of_none k log h

theorem lastRequested_concat_of_ne (hk : e.2.key ≠ k) :
    lastRequested k (log ++ [e]) = lastRequested k log := by
  unfold lastRequested
  rw [byKey_concat_of_ne _ log hk]

theorem lastRequested_concat_of_none (k : Nat × Nat) (h : e.2.requested = none) :
    lastRequested k (log ++ [e]) = lastRequested k log := by
  unfold lastRequested
  rw [byKey_concat_of_none k log h]

theorem sinceProposed_concat (h : e.2.key ≠ k ∨ e.2.requested = none) :
    sinceProposed k (log ++ [e]) = sinceProposed k log ++ [e] := by
  unfold sinceProposed
  apply sinceLast_concat_of_neg
  rcases h with h | h
  · simp [h]
  · simp [h]

theorem sinceProposed_concat_propose (h : e.2.key = k) (hr : e.2.requested.isSome) :
    sinceProposed k (log ++ [e]) = [] := by
  unfold sinceProposed
  apply sinceLast_concat_of_pos
  simp [h, hr]

theorem lastRequested_concat_of_key (hk : e.2.key = k) {r : List PermissionLevel}
    (hr : e.2.requested = some r) : lastRequested k (log ++ [e]) = some r := by
  unfold lastRequested
  rw [byKey_concat_of_key _ log hk, hr, Option.toList_some, List.getLast?_concat]

theorem live_concat_of_ne (hk : e.2.key ≠ k) : Live k (log ++ [e]) ↔ Live k log := by
  unfold Live
  rw [lifecycle_concat_of_ne hk]

theorem live_concat_of_none (k : Nat × Nat) (h : e.2.life = none) : Live k (log ++ [e]) ↔ Live k log := by
  unfold Live
  rw [lifecycle_concat_of_none k h]

theorem live_concat_of_life {b : Bool} (hk : e.2.key = k) (h : e.2.life = some b) :
    Live k (log ++ [e]) ↔ b = true := by
  unfold Live lifecycle
  rw [byKey_concat_of_key _ log hk, h, Option.toList_some, lastOr_concat]

theorem alternating_concat_of_life (halt : ∀ k, Alternating false (lifecycle k log)) {b : Bool}
    (hl : e.2.life = some b) (hb : Live e.2.key log ↔ b = false) (k : Nat × Nat) :
    Alternating false (lifecycle k (log ++ [e])) := by
  by_cases hk : e.2.key = k
  · subst hk
    unfold lifecycle
    rw [byKey_concat_of_key _ log rfl, hl, Option.toList_some]
    apply alternating_concat _ _ _ (halt _)
    unfold Live at hb
    cases b <;> cases hlast : lastOr false (lifecycle e.2.key log) <;> simp_all
  · rw [lifecycle_concat_of_ne hk]
    exact halt k

theorem count_true_lifecycle (k : Nat × Nat) (log : List (MsigEnv × MsigAction)) :
    (lifecycle k log).count true = (byKey MsigAction.requested k log).length := by
  induction log with
  | nil => rfl
  | cons e log ih =>
    unfold lifecycle at ih ⊢
    rw [byKey_cons, byKey_cons, List.count_append, List.length_append, ih]
    by_cases hk : e.2.key = k
    · rw [if_pos hk, if_pos hk]
      cases e.2 <;> simp [MsigAction.life, MsigAction.requested]
    · rw [if_neg hk, if_neg hk]
      rfl

theorem length_byKey_execKey_le (k : Nat × Nat) (log : List (MsigEnv × MsigAction)) :
    (byKey MsigAction.execKey k log).length ≤ (lifecycle k log).count false := by
  induction log with
  | nil => exact Nat.le_refl 0
  | cons e log ih =>
    unfold lifecycle at ih ⊢
    rw [byKey_cons, byKey_cons, List.count_append, List.length_append]
    by_cases hk : e.2.key = k
    · rw [if_pos hk, if_pos hk]
      cases e.2 <;> simp [MsigAction.life, MsigAction.execKey] <;> omega
    · rw [if_neg hk, if_neg hk]
      simpa using ih

theorem count_filterMap_execKey (k : Nat × Nat) (log : List (MsigEnv × MsigAction)) :
    (log.filterMap (fun e => e.2.execKey)).count k = (byKey MsigAction.execKey k log).length := by
  induction log with
  | nil => rfl
  | cons e log ih =>
    rw [byKey_cons, List.length_append, List.filterMap_cons, ← ih]
    obtain ⟨env, act⟩ := e
    by_cases hk : act.key = k
    · rw [if_pos hk]
      cases act <;> simp_all [MsigAction.execKey, MsigAction.key, Nat.add_comm]
    · rw [if_neg hk, List.length_nil, Nat.zero_add]
      cases act <;> simp_all [MsigAction.execKey, MsigAction.key]

section Rows
variable {α : Type} (key : α → Nat × Nat) {rows : List α}

theorem live_append {x : α} (hlive : ∀ k, k ∈ rows.map key ↔ Live k log) (hk : e.2.key = key x)
    (hl : e.2.life = some true) (k : Nat × Nat) : k ∈ (rows ++ [x]).map key ↔ Live k (log ++ [e]) := by
  by_cases hkx : key x = k
  · subst hkx
    rw [live_concat_of_life hk hl]
    simp
  · have hne : e.2.key ≠ k := by rwa [hk]
    rw [live_concat_of_ne hne, ← hlive k, List.map_append, List.mem_append]
    simp [Ne.symm hkx]

theorem live_eraseIdx {i : Nat} {r : α} (hnodup : (rows.map key).Nodup) (hi : rows[i]? = some r)
    (hlive : ∀ k, k ∈ rows.map key ↔ Live k log) (hk : e.2.key = key r) (hl : e.2.life = some false)
    (k : Nat × Nat) : k ∈ (rows.eraseIdx i).map key ↔ Live k (log ++ [e]) := by
  rw [mem_map_eraseIdx hnodup hi]
  by_cases hkr : key r = k
  · subst hkr
    rw [live_concat_of_life hk hl]
    simp
  · have hne : e.2.key ≠ k := by rwa [hk]
    rw [live_concat_of_ne hne, hlive k]
    exact and_iff_left (Ne.symm hkr)

end Rows

end Log

/-- what the log says of one row of `approvals`: its two lists are the list of the last
`propose`, and what it provides is what was approved since, less what was taken back -/
def RowOk (log : List (MsigEnv × MsigAction)) (a : ApprovalsInfo) : Prop :=
  (∃ r, lastRequested a.key log = some r ∧ (a.requestedApprovals ++ a.providedApprovals).Perm r) ∧
  (a.providedApprovals ++ byKey MsigAction.unapprovedLevel a.key (sinceProposed a.key log)).Perm
    (byKey MsigAction.approvedLevel a.key (sinceProposed a.key log))

theorem RowOk.concat_of_ne {log : List (MsigEnv × MsigAction)} {a : ApprovalsInfo} (h : RowOk log a)
    {e : MsigEnv × MsigAction} (hk : e.2.key ≠ a.key) : RowOk (log ++ [e]) a := by
  obtain ⟨⟨r, hr, hperm⟩, hprov⟩ := h
  refine ⟨⟨r, ?_, hperm⟩, ?_⟩
  · rw [lastRequested_concat_of_ne hk]
    exact hr
  · rw [sinceProposed_concat (.inl hk), byKey_concat_of_ne _ _ hk, byKey_concat_of_ne _ _ hk]
    exact hprov

/-- the tables of the contract against the log of the actions that built them -/
structure MsigInv (st : MsigState) (log : List (MsigEnv × MsigAction)) : Prop where
  proposalKeys : (st.proposals.map Proposal.key).Nodup
  approvalKeys : (st.approvals.map ApprovalsInfo.key).Nodup
  proposalLive : ∀ k, k ∈ st.proposals.map Proposal.key ↔ Live k log
  approvalLive : ∀ k, k ∈ st.approvals.map ApprovalsInfo.key ↔ Live k log
  alternating : ∀ k, Alternating false (lifecycle k log)
  rows : ∀ a ∈ st.approvals, RowOk log a
  authorized : ∀ e ∈ log, Authorized e
  sent : st.sent.map (fun d => (d.proposer, d.proposalName)) = log.filterMap (fun e => e.2.execKey)

theorem msigInv_init : MsigInv {} [] where
  proposalKeys := List.nodup_nil
  approvalKeys := List.nodup_nil
  proposalLive _ := ⟨fun h => absurd h List.not_mem_nil, fun h => absurd h Bool.false_ne_true⟩
  approvalLive _ := ⟨fun h => absurd h List.not_mem_nil, fun h => absurd h Bool.false_ne_true⟩
  alternating _ := trivial
  rows _ ha := absurd ha List.not_mem_nil
  authorized _ he := absurd he List.not_mem_nil
  sent := rfl

/-! ## Each action keeps the invariant -/

section Perm
variable {α : Type} [DecidableEq α] {l : α} {xs ys : List α}

theorem perm_move (h : l ∈ xs) : (xs.erase l ++ (ys ++ [l])).Perm (xs ++ ys) :=
by
  rw [← List.append_assoc]
  -- the `l` at the end goes to the front, where `perm_cons_erase` puts it back into `xs`
  exact (List.perm_append_singleton _ _).trans (((List.perm_cons_erase h).symm).append_right ys)

theorem perm_concat_middle (xs ys : List α) (l : α) : (xs ++ [l] ++ ys).Perm (xs ++ ys ++ [l]) := by
  rw [List.append_assoc, List.append_assoc]
  exact List.Perm.append_left xs List.perm_append_comm

end Perm

section Steps
variable {st st' : MsigState} {log : List (MsigEnv × MsigAction)} {env : MsigEnv}

theorem MsigInv.sent_concat (hinv : MsigInv st log) {e : MsigEnv × MsigAction} (he : e.2.execKey = none) :
    st.sent.map (fun d => (d.proposer, d.proposalName)) = (log ++ [e]).filterMap (fun e => e.2.execKey) := by
  rw [List.filterMap_append, hinv.sent]
  simp [he]

theorem MsigInv.authorized_concat (hinv : MsigInv st log) {e : MsigEnv × MsigAction} (he : Authorized e) :
    ∀ x ∈ log ++ [e], Authorized x := by
  intro x hx
  rcases List.mem_append.mp hx with hx | hx
  · exact hinv.authorized x hx
  · rw [List.mem_singleton.mp hx]
    exact he

theorem MsigInv.modify (hinv : MsigInv st log) {i : Nat} {a a' : ApprovalsInfo} {e : MsigEnv × MsigAction}
    (hi : st.approvals[i]? = some a) (hkey : a'.key = a.key) (he : e.2.key = a.key)
    (hlife : e.2.life = none) (hexec : e.2.execKey = none) (hauth : Authorized e)
    (hrow : RowOk (log ++ [e]) a') :
    MsigInv { st with approvals := st.approvals.set i a' } (log ++ [e]) := by
  obtain ⟨hlt, hget⟩ := List.getElem?_eq_some_iff.mp hi
  have hkeys : (st.approvals.set i a').map ApprovalsInfo.key = st.approvals.map ApprovalsInfo.key :=
    map_set_of_key hlt (by rw [hget, hkey])
  have hlife' : ∀ k, lifecycle k (log ++ [e]) = lifecycle k log := fun k => lifecycle_concat_of_none k hlife
  refine ⟨hinv.proposalKeys, ?_, ?_, ?_, ?_, ?_, hinv.authorized_concat hauth, hinv.sent_concat hexec⟩
  · rw [hkeys]
    exact hinv.approvalKeys
  · intro k
    rw [live_concat_of_none k hlife]
    exact hinv.proposalLive k
  · intro k
    rw [hkeys, live_concat_of_none k hlife]
    exact hinv.approvalLive k
  · intro k
    rw [hlife']
    exact hinv.alternating k
  · intro x hx
    by_cases hxk : x.key = a.key
    · -- the row modified: unique keys make it `a'`
      rw [eq_of_mem_set_of_key hinv.approvalKeys hi hx hxk]
      exact hrow
    · rcases List.mem_or_eq_of_mem_set hx with hx | rfl
      · exact (hinv.rows x hx).concat_of_ne (fun h => hxk (he ▸ h).symm)
      · exact absurd hkey hxk

theorem MsigInv.approve (hinv : MsigInv st log) {p n : Nat} {level : PermissionLevel}
    (h : approve env st p n level = .ok st') : MsigInv st' (log ++ [(env, .approve p n level)]) := by
  obtain ⟨hauth, i, a, hi, hkey, hreq, rfl⟩ := approve_eq_ok h
  obtain ⟨⟨r, hr, hperm⟩, hprov⟩ := hinv.rows a (List.mem_of_getElem? hi)
  refine hinv.modify hi rfl hkey.symm rfl rfl ⟨fun l hl => ?_, fun _ hl => nomatch hl⟩ ⟨⟨r, ?_, ?_⟩, ?_⟩
  · cases hl
    exact hauth
  · rw [lastRequested_concat_of_none _ rfl]
    exact hr
  · -- the level moves from requested to provided
    exact (perm_move hreq).trans hperm
  · show (a.providedApprovals ++ [level] ++ _).Perm _
    rw [sinceProposed_concat (.inr rfl), byKey_concat_of_none _ _ rfl, byKey_concat_of_key]
    · exact (perm_concat_middle _ _ _).trans (hprov.append_right _)
    · exact hkey.symm

theorem MsigInv.unapprove (hinv : MsigInv st log) {p n : Nat} {level : PermissionLevel}
    (h : unapprove env st p n level = .ok st') : MsigInv st' (log ++ [(env, .unapprove p n level)]) := by
  obtain ⟨hauth, i, a, hi, hkey, hprovl, rfl⟩ := unapprove_eq_ok h
  obtain ⟨⟨r, hr, hperm⟩, hprov⟩ := hinv.rows a (List.mem_of_getElem? hi)
  refine hinv.modify hi rfl hkey.symm rfl rfl ⟨fun _ hl => (nomatch hl), fun l hl => ?_⟩ ⟨⟨r, ?_, ?_⟩, ?_⟩
  · cases hl
    exact hauth
  · rw [lastRequested_concat_of_none _ rfl]
    exact hr
  · -- the level moves back from provided to requested
    have hmove : (a.providedApprovals.erase level ++ [level]).Perm a.providedApprovals := by
      have h := @perm_move _ _ level _ [] hprovl
      rwa [List.nil_append, List.append_nil] at h
    rw [List.append_assoc]
    exact ((List.perm_append_comm.trans hmove).append_left _).trans hperm
  · show (a.providedApprovals.erase level ++ _).Perm _
    rw [sinceProposed_concat (.inr rfl), byKey_concat_of_key, byKey_concat_of_none _ _ rfl]
    · exact (perm_move hprovl).trans hprov
    · exact hkey.symm

theorem MsigInv.propose (hinv : MsigInv st log) {p n : Nat} {requested : List PermissionLevel}
    {trx : ProposedTransaction} (h : propose env st p n requested trx = .ok st') :
    MsigInv st' (log ++ [(env, .propose p n requested trx)]) := by
  obtain ⟨hpfresh, hafresh, rfl⟩ := propose_eq_ok h
  have hdead : ¬ Live (p, n) log := fun hlive => by
    obtain ⟨a, ha, hkey⟩ := List.mem_map.mp ((hinv.approvalLive _).mpr hlive)
    exact hafresh a ha hkey
  refine ⟨nodup_map_append hinv.proposalKeys hpfresh, nodup_map_append hinv.approvalKeys hafresh,
    live_append _ hinv.proposalLive rfl rfl, live_append _ hinv.approvalLive rfl rfl,
    alternating_concat_of_life hinv.alternating rfl (iff_of_false hdead (by decide)), ?_,
    hinv.authorized_concat ⟨fun _ hl => (nomatch hl), fun _ hl => (nomatch hl)⟩, hinv.sent_concat rfl⟩
  intro x hx
  rcases List.mem_append.mp hx with hx | hx
  · exact (hinv.rows x hx).concat_of_ne (fun h => hafresh x hx h.symm)
  · -- the new row: nothing is provided since its `propose`
    rw [List.mem_singleton.mp hx]
    refine ⟨⟨requested, lastRequested_concat_of_key (by rfl) (by rfl), by simp⟩, ?_⟩
    rw [sinceProposed_concat_propose (by rfl) (by rfl)]
    simp [byKey]

theorem MsigInv.close (hinv : MsigInv st log) {i j : Nat} {x : Proposal} {a : ApprovalsInfo}
    {e : MsigEnv × MsigAction} {sent : List DeferredSend} (hi : st.proposals[i]? = some x)
    (hj : st.approvals[j]? = some a) (hx : e.2.key = x.key) (ha : e.2.key = a.key)
    (hlife : e.2.life = some false) (hauth : Authorized e)
    (hsent : sent.map (fun d => (d.proposer, d.proposalName)) = (log ++ [e]).filterMap (fun e => e.2.execKey)) :
    MsigInv ⟨st.proposals.eraseIdx i, st.approvals.eraseIdx j, sent⟩ (log ++ [e]) := by
  have hlive : Live e.2.key log := by
    rw [← hinv.proposalLive, hx]
    exact List.mem_map_of_mem (List.mem_of_getElem? hi)
  refine ⟨hinv.proposalKeys.sublist ((List.eraseIdx_sublist _ _).map _),
    hinv.approvalKeys.sublist ((List.eraseIdx_sublist _ _).map _),
    live_eraseIdx _ hinv.proposalKeys hi hinv.proposalLive hx hlife,
    live_eraseIdx _ hinv.approvalKeys hj hinv.approvalLive ha hlife,
    alternating_concat_of_life hinv.alternating hlife (iff_of_true hlive rfl), ?_,
    hinv.authorized_concat hauth, hsent⟩
  intro y hy
  have hne : y.key ≠ a.key :=
    ((mem_map_eraseIdx hinv.approvalKeys hj _).mp (List.mem_map_of_mem hy)).2
  exact (hinv.rows y (List.mem_of_mem_eraseIdx hy)).concat_of_ne (ha ▸ Ne.symm hne)

theorem MsigInv.cancel (hinv : MsigInv st log) {p n canceler : Nat}
    (h : cancel env st p n canceler = .ok st') : MsigInv st' (log ++ [(env, .cancel p n canceler)]) := by
  obtain ⟨i, x, j, a, hi, hx, hj, ha, rfl⟩ := cancel_eq_ok h
  exact hinv.close hi hj hx.symm ha.symm rfl ⟨fun _ hl => (nomatch hl), fun _ hl => (nomatch hl)⟩
    (hinv.sent_concat rfl)

theorem MsigInv.exec (hinv : MsigInv st log) {p n executer : Nat}
    (h : exec env st p n executer = .ok st') : MsigInv st' (log ++ [(env, .exec p n executer)]) := by
  obtain ⟨i, x, j, a, hi, hx, hj, ha, rfl⟩ := exec_eq_ok h
  refine hinv.close hi hj hx.symm ha.symm rfl ⟨fun _ hl => (nomatch hl), fun _ hl => (nomatch hl)⟩ ?_
  rw [List.map_append, hinv.sent, List.filterMap_append]
  rfl

theorem MsigInv.step (hinv : MsigInv st log) {e : MsigEnv × MsigAction} (h : step st e = .ok st') :
    MsigInv st' (log ++ [e]) := by
  obtain ⟨env, act⟩ := e
  cases act with
  | propose p n requested trx => exact hinv.propose h
  | approve p n level => exact hinv.approve h
  | unapprove p n level => exact hinv.unapprove h
  | cancel p n canceler => exact hinv.cancel h
  | exec p n executer => exact hinv.exec h

theorem MsigInv.approved_of_provided (hinv : MsigInv st log) {a : ApprovalsInfo} (ha : a ∈ st.approvals)
    {l : PermissionLevel} (hl : l ∈ a.providedApprovals) :
    ∃ e ∈ log, e.2 = .approve a.proposer a.proposalName l ∧ l ∈ e.1.auths := by
  have happ := ((hinv.rows a ha).2.mem_iff).mp (List.mem_append_left _ hl)
  obtain ⟨e, he, hk, hlev⟩ := mem_byKey.mp happ
  have helog : e ∈ log := (sinceLast_suffix _ log).subset he
  obtain ⟨env, act⟩ := e
  cases act
  case approve p n l' =>
    cases hlev
    simp only [MsigAction.key, ApprovalsInfo.key, Prod.mk.injEq] at hk
    obtain ⟨rfl, rfl⟩ := hk
    exact ⟨_, helog, rfl, (hinv.authorized _ helog).1 l rfl⟩
  all_goals cases hlev

theorem MsigInv.sent_count_le (hinv : MsigInv st log) (k : Nat × Nat) :
    (st.sent.map (fun d => (d.proposer, d.proposalName))).count k ≤
      (byKey MsigAction.requested k log).length := by
  rw [hinv.sent, count_filterMap_execKey, ← count_true_lifecycle]
  calc (byKey MsigAction.execKey k log).length ≤ (lifecycle k log).count false :=
        length_byKey_execKey_le k log
    _ ≤ (lifecycle k log).count true := (alternating_count false _ (hinv.alternating k)).1

end Steps

theorem msigInv_exec (run : List (MsigEnv × MsigAction)) :
    MsigInv (Machine.exec step {} run) (succeeded step {} run) := by
  have h := exec_succeeded_inv (fun st log => MsigInv st log) (fun _ _ _ _ hinv h => hinv.step h)
    run {} [] msigInv_init
  rwa [List.nil_append] at h

theorem msig_proposals_bookkeeping (run : List (MsigEnv × MsigAction)) :
    let st := Machine.exec step {} run
    let log := succeeded step {} run
    (∀ k, k ∈ st.proposals.map Proposal.key ↔ k ∈ st.approvals.map ApprovalsInfo.key) ∧
    (∀ a ∈ st.approvals, ∃ r, lastRequested a.key log = some r ∧
      (a.requestedApprovals ++ a.providedApprovals).Perm r) ∧
    (∀ a ∈ st.approvals, ∀ l ∈ a.providedApprovals,
      ∃ e ∈ log, e.2 = .approve a.proposer a.proposalName l ∧ l ∈ e.1.auths) ∧
    (∀ a ∈ st.approvals,
      (a.providedApprovals ++ byKey MsigAction.unapprovedLevel a.key (sinceProposed a.key log)).Perm
        (byKey MsigAction.approvedLevel a.key (sinceProposed a.key log))) ∧
    (∀ k, Alternating false (lifecycle k log)) ∧
    (∀ k, (st.sent.map (fun d => (d.proposer, d.proposalName))).count k ≤
      (byKey MsigAction.requested k log).length) := by
  intro st log
  have hinv := msigInv_exec run
  exact ⟨fun k => (hinv.proposalLive k).trans (hinv.approvalLive k).symm, fun a ha => (hinv.rows a ha).1,
    fun a ha _ hl => hinv.approved_of_provided ha hl, fun a ha => (hinv.rows a ha).2, hinv.alternating,
    hinv.sent_count_le⟩

end Eos.Msig
