import Eoscochain.Lib.Assert
import Eoscochain.Lib.AssocList
import Eoscochain.Auth.Authority

/-!
# Dispatching the actions of a transaction

libraries/chain apply_context.cpp (`exec`, `exec_one`, `require_recipient`, `execute_inline`,
`execute_context_free_inline` and the sequences), transaction_context.cpp (`exec`,
`dispatch_action`) and wasm_interface.cpp (the intrinsics `require_recipient`, `send_inline`,
`send_context_free_inline`).  An action runs first at its own account, then at each account
notified while it runs, and then each inline action sent while it ran is dispatched one level
deeper, the context-free ones first.  Every run at a receiver leaves an `action_receipt`
numbered by the global action sequence, by the receiver's `recv_sequence` and by the
`auth_sequence` of each actor the action declares.

The code on the chain is a parameter: `Chain.apply` gives what the native handler and the code
of the receiver do, as the list of their effects in order: writes of the state, and the calls of
the intrinsics that reach the apply context.  The other intrinsics read or write the state, and
a run is free to compute from the state it starts in.

* `Action`, `ActionReceipt`, `ActionTrace`   the records of the source; `runs` of a trace: its
                         receipts with their actions, in the order the runs were made;
* `Effect`, `Chain`      what code does, and what the dispatch reads of the chain;
* `State`                the state of the chain, the counters of the sequences and the receipts of
                         the transaction (`trx_context.executed`);
* `ApplyContext`         the accounts notified and the inline actions sent for one action;
* `execOne`, `notifyLoop`, `exec`, `dispatchAction`, `TransactionContext.exec`   the dispatch;
                         `fuel` bounds the runs and stands for the deadline that `checktime`
                         enforces.

What a dispatch does, whatever the code on the chain does:

* `Counted`, `Follows`, `exec_follows`   the receipts of the runs are appended in the order of the
                         trace, numbered one after the other, and the `recv_sequence` and
                         `auth_sequence` of each account count its runs and declarations;
* `Dispatched`, `exec_dispatched`   the shape of a trace: the run at the receiver, the accounts
                         notified, once each, then the inline actions one level deeper, within
                         the depth;
* `transaction_receipts_numbered`, `transaction_traces_dispatched`   the same of a whole
                         transaction.
-/

set_option linter.unusedSectionVars false

namespace Eos.Dispatch

open Machine (assert assert_of_true bind_eq_ok assert_bind_eq_ok ok_bind)
open Auth (PermissionLevel)

/-! ## The records -/

/-- `action`; `data`, what the code of the receiver reads, has a type of its own -/
structure Action (D : Type) where
  account : Nat
  name : Nat
  authorization : List PermissionLevel
  data : D

/-- `action_receipt`; `act_digest` is the digest of the action -/
structure ActionReceipt where
  receiver : Nat
  actDigest : Nat
  globalSequence : Nat
  recvSequence : Nat
  authSequence : List (Nat × Nat)
  codeSequence : Nat
  abiSequence : Nat
  deriving DecidableEq, Repr

/-- `action_trace`: the receipt of a run, the action, whether it ran context free, and the traces
of the accounts it notified and of the inline actions it sent -/
inductive ActionTrace (D : Type) where
  | mk (receipt : ActionReceipt) (act : Action D) (contextFree : Bool)
      (inlineTraces : List (ActionTrace D))

mutual
/-- the receipts of a trace and of its inline traces with their actions, in the order of the
runs -/
def ActionTrace.runs {D : Type} : ActionTrace D → List (ActionReceipt × Action D)
  | .mk r act _ ts => (r, act) :: ActionTrace.runsOf ts

/-- the runs of a list of traces, one trace after the other -/
def ActionTrace.runsOf {D : Type} : List (ActionTrace D) → List (ActionReceipt × Action D)
  | [] => []
  | t :: ts => t.runs ++ ActionTrace.runsOf ts
end

namespace ActionTrace
variable {D : Type}

def receipt : ActionTrace D → ActionReceipt
  | .mk r _ _ _ => r

def act : ActionTrace D → Action D
  | .mk _ act _ _ => act

def contextFree : ActionTrace D → Bool
  | .mk _ _ cf _ => cf

def inlineTraces : ActionTrace D → List (ActionTrace D)
  | .mk _ _ _ ts => ts

@[simp] theorem runs_mk (r : ActionReceipt) (act : Action D) (cf : Bool) (ts : List (ActionTrace D)) :
    (ActionTrace.mk r act cf ts).runs = (r, act) :: runsOf ts := by
  simp [runs]

@[simp] theorem runsOf_nil : runsOf ([] : List (ActionTrace D)) = [] := by
  simp [runsOf]

@[simp] theorem runsOf_cons (t : ActionTrace D) (ts : List (ActionTrace D)) :
    runsOf (t :: ts) = t.runs ++ runsOf ts := by
  simp [runsOf]

@[simp] theorem runsOf_append (ts ts' : List (ActionTrace D)) :
    runsOf (ts ++ ts') = runsOf ts ++ runsOf ts' := by
  induction ts with
  | nil => simp
  | cons t ts ih => simp [ih]

end ActionTrace

/-- what the native handler and the code of a receiver do, in order: write the state, or call an
intrinsic that reaches the apply context -/
inductive Effect (σ D : Type) where
  | write (s : σ)
  | requireRecipient (recipient : Nat)
  | sendInline (a : Action D)
  | sendContextFreeInline (a : Action D)

/-- what the dispatch reads of the chain, and what the code on it does -/
structure Chain (σ D : Type) where
  /-- `find<account_object, by_name>` -/
  isAccount : σ → Nat → Bool
  /-- `account_object::privileged` -/
  privileged : σ → Nat → Bool
  /-- `authorization_manager::find_permission` -/
  isPermission : σ → PermissionLevel → Bool
  /-- `authorization_manager::check_authorization` of an inline action with the permission
  `receiver@eosio.code` -/
  checkAuthorization : σ → Action D → Nat → Except String Unit
  /-- `code_sequence` and `abi_sequence` of `account_sequence_object` -/
  codeSequence : σ → Nat → Nat
  abiSequence : σ → Nat → Nat
  /-- `digest_type::hash(act)` -/
  digest : Action D → Nat
  /-- the size of the packed action -/
  packedSize : Action D → Nat
  /-- what the native handler and the code of a receiver do on an action, context free or not -/
  apply : σ → Nat → Action D → Bool → Except String (List (Effect σ D))
  skipAuthCheck : Bool
  maxInlineActionSize : Nat
  maxInlineActionDepth : Nat

/-- what the dispatch of a transaction reads and writes: the state of the chain, the global action
sequence, the `recv_sequence` and `auth_sequence` of each account (`0` for an account that has
not received or authorized an action), and the receipts of the transaction so far -/
structure State (σ : Type) where
  chain : σ
  globalActionSequence : Nat
  recvSequence : Nat → Nat
  authSequence : Nat → Nat
  executed : List ActionReceipt

/-- the part of an `apply_context` that the dispatch reads and the intrinsics write -/
structure ApplyContext (D : Type) where
  act : Action D
  receiver : Nat
  contextFree : Bool
  recurseDepth : Nat
  privileged : Bool := false
  notified : List Nat := []
  inlineActions : List (Action D) := []
  cfaInlineActions : List (Action D) := []

/-- the error of `checktime` at the deadline -/
def deadlineError : String := "deadline exceeded"

/-- `++` of a counter of one account's `account_sequence_object` -/
def bump (f : Nat → Nat) (n : Nat) : Nat → Nat := Function.update f n (f n + 1)

@[simp] theorem bump_self (f : Nat → Nat) (n : Nat) : bump f n n = f n + 1 :=
  Function.update_self n _ f

theorem bump_apply (f : Nat → Nat) (n m : Nat) : bump f n m = f m + if m = n then 1 else 0 := by
  by_cases h : m = n
  · subst h
    simp
  · simp [bump, h]

section
variable {σ D : Type} (ch : Chain σ D)

/-! ## The intrinsics that reach the apply context -/

namespace ApplyContext

/-- `apply_context::has_recipient` -/
def hasRecipient (ctx : ApplyContext D) (code : Nat) : Bool := ctx.notified.contains code

/-- `apply_context::require_recipient`: an account is notified once -/
def requireRecipient (ctx : ApplyContext D) (recipient : Nat) : ApplyContext D :=
  if ctx.hasRecipient recipient then ctx else { ctx with notified := ctx.notified ++ [recipient] }

/-- `apply_context::execute_inline`: the accounts and permissions of the action exist, and unless
the authorization check is skipped, the receiver is privileged or the action is to the receiver
itself, the action is authorized by `receiver@eosio.code` -/
def executeInline (s : σ) (ctx : ApplyContext D) (a : Action D) : Except String (ApplyContext D) := do
  assert (ch.isAccount s a.account) "inline action's code account ${account} does not exist"
  a.authorization.forM fun auth => do
    assert (ch.isAccount s auth.actor)
      "inline action's authorizing actor ${account} does not exist"
    assert (ch.isPermission s auth)
      "inline action's authorizations include a non-existent permission: ${permission}"
  if !ch.skipAuthCheck && !ctx.privileged && a.account != ctx.receiver then
    ch.checkAuthorization s a ctx.receiver
  pure { ctx with inlineActions := ctx.inlineActions ++ [a] }

/-- `apply_context::execute_context_free_inline` -/
def executeContextFreeInline (s : σ) (ctx : ApplyContext D) (a : Action D) :
    Except String (ApplyContext D) := do
  assert (ch.isAccount s a.account) "inline action's code account ${account} does not exist"
  assert (a.authorization.length == 0) "context-free actions cannot have authorizations"
  pure { ctx with cfaInlineActions := ctx.cfaInlineActions ++ [a] }

end ApplyContext

/-- `context_aware_api`: a context-free action can call only the context-free intrinsics -/
def contextAware (ctx : ApplyContext D) : Except String Unit :=
  assert (!ctx.contextFree) "only context free api's can be used in this context"

/-- one effect of the code of the receiver; `send_inline` and `send_context_free_inline` check
the size of the packed action first -/
def runEffect (s : σ) (ctx : ApplyContext D) : Effect σ D → Except String (σ × ApplyContext D)
  | .write s' => pure (s', ctx)
  | .requireRecipient recipient => do
    contextAware ctx
    pure (s, ctx.requireRecipient recipient)
  | .sendInline a => do
    contextAware ctx
    assert (decide (ch.packedSize a < ch.maxInlineActionSize)) "inline action too big"
    let ctx ← ctx.executeInline ch s a
    pure (s, ctx)
  | .sendContextFreeInline a => do
    contextAware ctx
    assert (decide (ch.packedSize a < ch.maxInlineActionSize)) "inline action too big"
    let ctx ← ctx.executeContextFreeInline ch s a
    pure (s, ctx)

/-- the effects of a run, in order -/
def runEffects : σ → ApplyContext D → List (Effect σ D) → Except String (σ × ApplyContext D)
  | s, ctx, [] => pure (s, ctx)
  | s, ctx, e :: es => do
    let (s, ctx) ← runEffect ch s ctx e
    runEffects s ctx es

/-! ## The sequences -/

namespace State

/-- `apply_context::next_global_sequence` -/
def nextGlobalSequence (st : State σ) : State σ × Nat :=
  ({ st with globalActionSequence := st.globalActionSequence + 1 }, st.globalActionSequence + 1)

/-- `apply_context::next_recv_sequence` -/
def nextRecvSequence (st : State σ) (receiver : Nat) : Except String (State σ × Nat) := do
  assert (ch.isAccount st.chain receiver) unknownKeyError
  pure ({ st with recvSequence := bump st.recvSequence receiver }, st.recvSequence receiver + 1)

/-- `apply_context::next_auth_sequence` -/
def nextAuthSequence (st : State σ) (actor : Nat) : Except String (State σ × Nat) := do
  assert (ch.isAccount st.chain actor) unknownKeyError
  pure ({ st with authSequence := bump st.authSequence actor }, st.authSequence actor + 1)

/-- the loop of `exec_one` that fills `auth_sequence`: `r.auth_sequence[auth.actor] =
next_auth_sequence(auth.actor)` for each declared authorization, in order -/
def authSequences (st : State σ) : List PermissionLevel → List (Nat × Nat) →
    Except String (State σ × List (Nat × Nat))
  | [], m => pure (st, m)
  | auth :: auths, m => do
    let (st, n) ← st.nextAuthSequence ch auth.actor
    st.authSequences auths (AssocList.assign m auth.actor n)

end State

/-! ## The dispatch -/

namespace ApplyContext

/-- `apply_context::exec_one`: the account of the receiver, the native handler and the code of the
receiver, then the receipt with the next sequences -/
def execOne (st : State σ) (ctx : ApplyContext D) :
    Except String (State σ × ApplyContext D × ActionReceipt) := do
  assert (ch.isAccount st.chain ctx.receiver) unknownKeyError
  let ctx := { ctx with privileged := ch.privileged st.chain ctx.receiver }
  let effects ← ch.apply st.chain ctx.receiver ctx.act ctx.contextFree
  let (chain, ctx) ← runEffects ch st.chain ctx effects
  let (st, globalSequence) := State.nextGlobalSequence { st with chain }
  let (st, recvSequence) ← st.nextRecvSequence ch ctx.receiver
  assert (ch.isAccount st.chain ctx.act.account) unknownKeyError
  let (st, authSequence) ← st.authSequences ch ctx.act.authorization []
  let r : ActionReceipt :=
    { receiver := ctx.receiver, actDigest := ch.digest ctx.act, globalSequence, recvSequence,
      authSequence, codeSequence := ch.codeSequence st.chain ctx.act.account,
      abiSequence := ch.abiSequence st.chain ctx.act.account }
  pure ({ st with executed := st.executed ++ [r] }, ctx, r)

/-- the loop of `apply_context::exec` over the accounts notified, from the `i`-th on; the runs may
notify more -/
def notifyLoop : Nat → Nat → State σ → ApplyContext D → List (ActionTrace D) →
    Except String (State σ × ApplyContext D × List (ActionTrace D))
  | fuel, i, st, ctx, traces =>
    match ctx.notified[i]?, fuel with
    | none, _ => pure (st, ctx, traces)
    | some _, 0 => throw deadlineError
    | some receiver, fuel + 1 => do
      let (st, ctx, r) ← execOne ch st { ctx with receiver }
      notifyLoop fuel (i + 1) st ctx (traces ++ [.mk r ctx.act ctx.contextFree []])

end ApplyContext

/-- the apply context that `transaction_context::dispatch_action` makes for an action at its own
account -/
def dispatchContext (a : Action D) (contextFree : Bool) (recurseDepth : Nat) : ApplyContext D :=
  { act := a, receiver := a.account, contextFree, recurseDepth }

/-- actions dispatched one after the other, with their traces -/
def dispatchAll (run : State σ → Action D → Except String (State σ × ActionTrace D)) :
    State σ → List (Action D) → Except String (State σ × List (ActionTrace D))
  | st, [] => pure (st, [])
  | st, a :: as => do
    let (st, t) ← run st a
    let (st, ts) ← dispatchAll run st as
    pure (st, t :: ts)

/-- `apply_context::exec`: the receiver, then each account notified, then, within the depth,
`dispatch_action` of each context-free inline action and of each inline action sent -/
def ApplyContext.exec : Nat → State σ → ApplyContext D → Except String (State σ × ActionTrace D)
  | 0, _, _ => throw deadlineError
  | fuel + 1, st, ctx => do
    let ctx := { ctx with notified := ctx.notified ++ [ctx.receiver] }
    let (st, ctx, r) ← ctx.execOne ch st
    let (st, ctx, notifiedTraces) ← ctx.notifyLoop ch fuel 1 st []
    if ctx.cfaInlineActions.length > 0 || ctx.inlineActions.length > 0 then
      assert (decide (ctx.recurseDepth < ch.maxInlineActionDepth))
        "max inline action depth per transaction reached"
    let (st, cfaTraces) ← dispatchAll
      (fun st a => (dispatchContext a true (ctx.recurseDepth + 1)).exec fuel st) st ctx.cfaInlineActions
    let (st, inlineTraces) ← dispatchAll
      (fun st a => (dispatchContext a false (ctx.recurseDepth + 1)).exec fuel st) st ctx.inlineActions
    pure (st, .mk r ctx.act ctx.contextFree (notifiedTraces ++ cfaTraces ++ inlineTraces))

/-- `transaction_context::dispatch_action` -/
def dispatchAction (fuel : Nat) (st : State σ) (a : Action D) (contextFree : Bool)
    (recurseDepth : Nat) : Except String (State σ × ActionTrace D) :=
  (dispatchContext a contextFree recurseDepth).exec ch fuel st

/-- `transaction_context::exec` of a transaction without delay: each context-free action when
`apply_context_free`, then each action, dispatched at its own account at depth `0` -/
def TransactionContext.exec (fuel : Nat) (st : State σ) (applyContextFree : Bool)
    (contextFreeActions actions : List (Action D)) :
    Except String (State σ × List (ActionTrace D)) := do
  let (st, cfaTraces) ← if applyContextFree then
      dispatchAll (fun st a => dispatchAction ch fuel st a true 0) st contextFreeActions
    else pure (st, [])
  let (st, traces) ← dispatchAll (fun st a => dispatchAction ch fuel st a false 0) st actions
  pure (st, cfaTraces ++ traces)

/-! ## What the intrinsics do to an apply context -/

namespace ApplyContext

/-- what the intrinsics leave of an apply context: the action, the receiver, the flag and the
depth stay, and the accounts notified only grow, kept distinct; a context-free action notifies
no one and sends nothing -/
structure Grows (ctx ctx' : ApplyContext D) : Prop where
  act : ctx'.act = ctx.act
  receiver : ctx'.receiver = ctx.receiver
  contextFree : ctx'.contextFree = ctx.contextFree
  recurseDepth : ctx'.recurseDepth = ctx.recurseDepth
  notified : ctx.notified <+: ctx'.notified
  nodup : ctx.notified.Nodup → ctx'.notified.Nodup
  free : ctx.contextFree = true → ctx'.notified = ctx.notified ∧
    ctx'.inlineActions = ctx.inlineActions ∧ ctx'.cfaInlineActions = ctx.cfaInlineActions

variable {ctx ctx' ctx'' : ApplyContext D}

theorem Grows.refl (ctx : ApplyContext D) : Grows ctx ctx :=
  ⟨rfl, rfl, rfl, rfl, List.prefix_refl _, id, fun _ => ⟨rfl, rfl, rfl⟩⟩

theorem Grows.trans (h : Grows ctx ctx') (h' : Grows ctx' ctx'') : Grows ctx ctx'' := by
  refine ⟨h'.act.trans h.act, h'.receiver.trans h.receiver, h'.contextFree.trans h.contextFree,
    h'.recurseDepth.trans h.recurseDepth, h.notified.trans h'.notified, fun hnd => h'.nodup (h.nodup hnd), fun hcf => ?_⟩
  obtain ⟨hn, hi, hc⟩ := h.free hcf
  obtain ⟨hn', hi', hc'⟩ := h'.free (h.contextFree ▸ hcf)
  exact ⟨hn'.trans hn, hi'.trans hi, hc'.trans hc⟩

theorem Grows.withReceiver (h : Grows ctx ctx') (receiver : Nat) :
    Grows { ctx with receiver } { ctx' with receiver } :=
  ⟨h.act, rfl, h.contextFree, h.recurseDepth, h.notified, h.nodup, h.free⟩

theorem Grows.of_privileged {p : Bool} (h : Grows { ctx with privileged := p } ctx') : Grows ctx ctx' :=
  ⟨h.act, h.receiver, h.contextFree, h.recurseDepth, h.notified, h.nodup, h.free⟩

theorem grows_of_notFree {ctx' : ApplyContext D} (hcf : ctx.contextFree = false)
    (hsame : ctx'.act = ctx.act ∧ ctx'.receiver = ctx.receiver ∧ ctx'.contextFree = ctx.contextFree ∧
      ctx'.recurseDepth = ctx.recurseDepth)
    (hnot : ctx.notified <+: ctx'.notified) (hnd : ctx.notified.Nodup → ctx'.notified.Nodup) :
    Grows ctx ctx' :=
  ⟨hsame.1, hsame.2.1, hsame.2.2.1, hsame.2.2.2, hnot, hnd,
    fun h => absurd (hcf.symm.trans h) Bool.false_ne_true⟩

theorem requireRecipient_eq (ctx : ApplyContext D) (recipient : Nat) :
    ctx.requireRecipient recipient = { ctx with notified :=
      if recipient ∈ ctx.notified then ctx.notified else ctx.notified ++ [recipient] } := by
  unfold requireRecipient hasRecipient
  by_cases h : recipient ∈ ctx.notified <;> simp [h]

theorem nodup_requireRecipient (hnd : ctx.notified.Nodup) (recipient : Nat) :
    (ctx.requireRecipient recipient).notified.Nodup := by
  rw [requireRecipient_eq]
  dsimp only
  split_ifs with h
  · exact hnd
  · exact hnd.append (List.nodup_singleton _) (List.disjoint_singleton.mpr h)

theorem executeInline_eq_ok {s : σ} {a : Action D} (h : ctx.executeInline ch s a = .ok ctx') :
    ctx' = { ctx with inlineActions := ctx.inlineActions ++ [a] } := by
  unfold executeInline at h
  obtain ⟨-, h⟩ := assert_bind_eq_ok.mp h
  obtain ⟨_, -, h⟩ := bind_eq_ok.mp h
  dsimp only at h
  split at h
  · obtain ⟨_, -, h⟩ := bind_eq_ok.mp h
    cases h
    rfl
  · cases h
    rfl

theorem executeContextFreeInline_eq_ok {s : σ} {a : Action D}
    (h : ctx.executeContextFreeInline ch s a = .ok ctx') :
    ctx' = { ctx with cfaInlineActions := ctx.cfaInlineActions ++ [a] } := by
  unfold executeContextFreeInline at h
  obtain ⟨-, h⟩ := assert_bind_eq_ok.mp h
  obtain ⟨-, h⟩ := assert_bind_eq_ok.mp h
  cases h
  rfl

end ApplyContext

open Eos.Dispatch.ApplyContext in
theorem contextFree_of_contextAware {ctx : ApplyContext D} {u : Unit} (h : contextAware ctx = .ok u) :
    ctx.contextFree = false := by
  unfold contextAware at h
  cases hcf : ctx.contextFree
  · rfl
  · rw [hcf] at h
    cases h

open Eos.Dispatch.ApplyContext in
/-- **an effect of the code only grows the apply context** -/
theorem runEffect_grows {s s' : σ} {ctx ctx' : ApplyContext D} {e : Effect σ D}
    (h : runEffect ch s ctx e = .ok (s', ctx')) : Grows ctx ctx' := by
  cases e with
  | write s1 =>
    cases h
    exact Grows.refl ctx
  | requireRecipient recipient =>
    obtain ⟨_, hca, h⟩ := bind_eq_ok.mp h
    cases h
    have hrr := requireRecipient_eq ctx recipient
    refine grows_of_notFree (contextFree_of_contextAware hca) (by rw [hrr]; exact ⟨rfl, rfl, rfl, rfl⟩)
      ?_ fun hnd => nodup_requireRecipient hnd recipient
    rw [hrr]
    dsimp only
    split_ifs
    · exact List.prefix_refl _
    · exact List.prefix_append _ _
  | sendInline a =>
    obtain ⟨_, hca, h⟩ := bind_eq_ok.mp h
    obtain ⟨-, h⟩ := assert_bind_eq_ok.mp h
    obtain ⟨ctx1, hex, h⟩ := bind_eq_ok.mp h
    cases h
    rw [executeInline_eq_ok ch hex]
    exact grows_of_notFree (contextFree_of_contextAware hca) ⟨rfl, rfl, rfl, rfl⟩
      (List.prefix_refl _) id
  | sendContextFreeInline a =>
    obtain ⟨_, hca, h⟩ := bind_eq_ok.mp h
    obtain ⟨-, h⟩ := assert_bind_eq_ok.mp h
    obtain ⟨ctx1, hex, h⟩ := bind_eq_ok.mp h
    cases h
    rw [executeContextFreeInline_eq_ok ch hex]
    exact grows_of_notFree (contextFree_of_contextAware hca) ⟨rfl, rfl, rfl, rfl⟩
      (List.prefix_refl _) id

open Eos.Dispatch.ApplyContext in
theorem runEffects_grows : ∀ {s s' : σ} {ctx ctx' : ApplyContext D} {es : List (Effect σ D)},
    runEffects ch s ctx es = .ok (s', ctx') → Grows ctx ctx'
  | _, _, ctx, _, [], h => by
    cases h
    exact Grows.refl ctx
  | _, _, _, _, _ :: _, h => by
    obtain ⟨⟨s1, ctx1⟩, h1, h⟩ := bind_eq_ok.mp h
    exact (runEffect_grows ch h1).trans (runEffects_grows h)

/-! ## What one run does to the counters -/

namespace State

variable {st st' : State σ}

theorem nextRecvSequence_eq_ok {receiver n : Nat} (h : st.nextRecvSequence ch receiver = .ok (st', n)) :
    st' = { st with recvSequence := bump st.recvSequence receiver } ∧ n = st.recvSequence receiver + 1 := by
  unfold nextRecvSequence at h
  obtain ⟨-, h⟩ := assert_bind_eq_ok.mp h
  cases h
  exact ⟨rfl, rfl⟩

theorem nextAuthSequence_eq_ok {actor n : Nat} (h : st.nextAuthSequence ch actor = .ok (st', n)) :
    st' = { st with authSequence := bump st.authSequence actor } ∧ n = st.authSequence actor + 1 := by
  unfold nextAuthSequence at h
  obtain ⟨-, h⟩ := assert_bind_eq_ok.mp h
  cases h
  exact ⟨rfl, rfl⟩

theorem authSequences_eq_ok : ∀ {st st' : State σ} {auths : List PermissionLevel}
    {m m' : List (Nat × Nat)}, st.authSequences ch auths m = .ok (st', m') →
    st' = { st with authSequence := st'.authSequence } ∧
      (∀ a, st'.authSequence a = st.authSequence a + auths.countP (·.actor == a)) ∧
      ∀ a, m'.lookup a = if a ∈ auths.map (·.actor) then some (st'.authSequence a) else m.lookup a
  | st, st', [], m, m', h => by
    cases h
    exact ⟨rfl, fun _ => rfl, fun _ => by simp⟩
  | st, st', auth :: auths, m, m', h => by
    obtain ⟨⟨st1, n⟩, h1, h⟩ := bind_eq_ok.mp h
    obtain ⟨rfl, rfl⟩ := nextAuthSequence_eq_ok ch h1
    obtain ⟨hst, hcount, hlookup⟩ := authSequences_eq_ok h
    dsimp only at hcount
    refine ⟨hst, fun a => ?_, fun a => ?_⟩
    · rw [hcount, bump_apply, List.countP_cons]
      by_cases ha : a = auth.actor
      · subst ha
        simp only [if_true, beq_self_eq_true]
        omega
      · simp [ha, Ne.symm ha]
    · rw [hlookup, AssocList.lookup_assign]
      by_cases hrest : a ∈ auths.map (·.actor)
      · simp [hrest]
      · -- the last declaration of `a` is this one, so its counter stays at the value given
        by_cases ha : a = auth.actor
        · subst ha
          have hzero : auths.countP (·.actor == auth.actor) = 0 := by
            rw [List.countP_eq_zero]
            intro x hx hxa
            exact hrest (List.mem_map.mpr ⟨x, hx, beq_iff_eq.mp hxa⟩)
          simp [hrest, hcount, hzero]
        · simp [hrest, ha]

end State

/-- what one run does to the counters and to the receipts: the global sequence and the receiver's
`recv_sequence` move by one, the `auth_sequence` of each actor by its declarations in the action,
and the receipt, which carries the new values, is appended -/
structure Numbers (st : State σ) (act : Action D) (st' : State σ) (r : ActionReceipt) : Prop where
  global : st'.globalActionSequence = st.globalActionSequence + 1
  globalSequence : r.globalSequence = st'.globalActionSequence
  recv : st'.recvSequence = bump st.recvSequence r.receiver
  recvSequence : r.recvSequence = st'.recvSequence r.receiver
  auth : ∀ a, st'.authSequence a = st.authSequence a + act.authorization.countP (·.actor == a)
  authSequence : ∀ a ∈ act.authorization.map (·.actor),
    r.authSequence.lookup a = some (st'.authSequence a)
  executed : st'.executed = st.executed ++ [r]

open Eos.Dispatch.ApplyContext in
/-- **one run at a receiver**: the apply context grows, the receipt is the receiver's and is
numbered -/
theorem execOne_eq_ok {st st' : State σ} {ctx ctx' : ApplyContext D} {r : ActionReceipt}
    (h : ctx.execOne ch st = .ok (st', ctx', r)) :
    Grows ctx ctx' ∧ r.receiver = ctx.receiver ∧ Numbers st ctx.act st' r := by
  unfold execOne at h
  obtain ⟨-, h⟩ := assert_bind_eq_ok.mp h
  obtain ⟨effects, -, h⟩ := bind_eq_ok.mp h
  obtain ⟨⟨chain, ctx1⟩, hrun, h⟩ := bind_eq_ok.mp h
  obtain ⟨⟨st2, n⟩, hrecv, h⟩ := bind_eq_ok.mp h
  obtain ⟨-, h⟩ := assert_bind_eq_ok.mp h
  obtain ⟨⟨st3, m⟩, hauth, h⟩ := bind_eq_ok.mp h
  cases h
  have hg := (runEffects_grows ch hrun).of_privileged
  obtain ⟨rfl, rfl⟩ := State.nextRecvSequence_eq_ok ch hrecv
  obtain ⟨hst3, hcount, hlookup⟩ := State.authSequences_eq_ok ch hauth
  rw [hg.act] at hcount hlookup
  refine ⟨hg, hg.receiver, ⟨?_, ?_, ?_, ?_, hcount, fun a ha => ?_, ?_⟩⟩
  · rw [hst3]
  · rw [hst3]
  · rw [hst3]
  · rw [hst3]
    simp
  · rw [hlookup a, if_pos ha]
  · rw [hst3]

/-! ## The counters over the runs of a transaction -/

/-- the runs at the receiver `n` -/
def recvCount (n : Nat) (runs : List (ActionReceipt × Action D)) : Nat :=
  runs.countP (·.1.receiver == n)

/-- the declarations of the actor `a` in the actions of the runs -/
def authCount (a : Nat) (runs : List (ActionReceipt × Action D)) : Nat :=
  (runs.map fun p => p.2.authorization.countP (·.actor == a)).sum

/-- **the counters account for the runs since `st0`**: the receipts of the runs follow those of
`st0`; the global sequence counts the runs and numbers them in order; each receiver's
`recv_sequence` counts the runs at it and numbers them; each actor's `auth_sequence` counts its
declarations, and the receipt of a run holds, for each actor its action declares, the count after
the run -/
structure Counted (st0 st : State σ) (runs : List (ActionReceipt × Action D)) : Prop where
  executed : st.executed = st0.executed ++ runs.map Prod.fst
  global : st.globalActionSequence = st0.globalActionSequence + runs.length
  recv : ∀ n, st.recvSequence n = st0.recvSequence n + recvCount n runs
  auth : ∀ a, st.authSequence a = st0.authSequence a + authCount a runs
  numbered : ∀ i p, runs[i]? = some p →
    p.1.globalSequence = st0.globalActionSequence + i + 1 ∧
      p.1.recvSequence = st0.recvSequence p.1.receiver + recvCount p.1.receiver (runs.take (i + 1)) ∧
      ∀ a ∈ p.2.authorization.map (·.actor),
        p.1.authSequence.lookup a = some (st0.authSequence a + authCount a (runs.take (i + 1)))

variable {st0 st st' st1 st2 : State σ} {runs : List (ActionReceipt × Action D)}

theorem counted_nil (st : State σ) : Counted st st ([] : List (ActionReceipt × Action D)) :=
  ⟨by simp, by simp, fun _ => by simp [recvCount], fun _ => by simp [authCount], fun _ _ h => by simp at h⟩

theorem recvCount_snoc (n : Nat) (runs : List (ActionReceipt × Action D)) (r : ActionReceipt)
    (act : Action D) :
    recvCount n (runs ++ [(r, act)]) = recvCount n runs + if n = r.receiver then 1 else 0 := by
  by_cases h : n = r.receiver
  · subst h
    simp [recvCount, List.countP_append]
  · simp [recvCount, List.countP_append, h, Ne.symm h]

theorem authCount_snoc (a : Nat) (runs : List (ActionReceipt × Action D)) (r : ActionReceipt)
    (act : Action D) :
    authCount a (runs ++ [(r, act)]) = authCount a runs + act.authorization.countP (·.actor == a) := by
  simp [authCount]

/-- **the step**: a run numbered as `execOne` numbers it keeps the counters accounting for the runs -/
theorem Counted.snoc {act : Action D} {r : ActionReceipt} (h : Counted st0 st runs)
    (hn : Numbers st act st' r) : Counted st0 st' (runs ++ [(r, act)]) := by
  refine ⟨?_, ?_, fun n => ?_, fun a => ?_, fun i p hp => ?_⟩
  · rw [hn.executed, h.executed]
    simp
  · rw [hn.global, h.global]
    simp only [List.length_append, List.length_singleton]
    omega
  · rw [hn.recv, bump_apply, h.recv, recvCount_snoc]
    omega
  · rw [hn.auth, h.auth, authCount_snoc]
    omega
  rcases AssocList.getElem?_concat_eq_some.mp hp with hp | ⟨rfl, rfl⟩
  · -- an earlier run: its count is over the runs up to it
    have hi : i + 1 ≤ runs.length := (List.getElem?_eq_some_iff.mp hp).1
    rw [List.take_append_of_le_length hi]
    exact h.numbered i p hp
  · -- the new run: its receipt holds the counters after it
    rw [List.take_of_length_le (by simp)]
    refine ⟨?_, ?_, fun a ha => ?_⟩
    · rw [hn.globalSequence, hn.global, h.global]
    · dsimp only
      rw [hn.recvSequence, hn.recv, bump_self, h.recv, recvCount_snoc, if_pos rfl]
      omega
    · rw [hn.authSequence a ha, hn.auth, h.auth, authCount_snoc]
      simp only [Nat.add_assoc]

/-- the runs `new` take `st` to `st'`: counters that accounted for the runs up to `st` account for
those runs followed by `new` -/
def Follows (st : State σ) (new : List (ActionReceipt × Action D)) (st' : State σ) : Prop :=
  ∀ (st0 : State σ) runs, Counted st0 st runs → Counted st0 st' (runs ++ new)

theorem Follows.nil (st : State σ) : Follows st ([] : List (ActionReceipt × Action D)) st :=
  fun _ _ h => by simpa using h

theorem Follows.trans {a b : List (ActionReceipt × Action D)} (h1 : Follows st a st1)
    (h2 : Follows st1 b st2) : Follows st (a ++ b) st2 :=
  fun st0 runs h => by simpa using h2 st0 _ (h1 st0 runs h)

theorem follows_of_numbers {act : Action D} {r : ActionReceipt} (hn : Numbers st act st' r) :
    Follows st [(r, act)] st' :=
  fun _ _ h => h.snoc hn

/-! ## The dispatch over whole runs -/

open Eos.Dispatch.ApplyContext in
/-- **the loop over the accounts notified**: it adds one trace per account from the `i`-th on,
each a run of the same action without inline traces, at the accounts in the order notified; the
apply context grows, its receiver aside -/
theorem notifyLoop_eq_ok : ∀ {fuel i : Nat} {st st' : State σ} {ctx ctx' : ApplyContext D}
    {traces traces' : List (ActionTrace D)},
    ctx.notifyLoop ch fuel i st traces = .ok (st', ctx', traces') →
    ∃ new, traces' = traces ++ new ∧ Follows st (ActionTrace.runsOf new) st' ∧
      Grows { ctx with receiver := ctx'.receiver } ctx' ∧
      new.map (·.receipt.receiver) = ctx'.notified.drop i ∧
      ∀ t ∈ new, t.act = ctx.act ∧ t.contextFree = ctx.contextFree ∧ t.inlineTraces = [] := by
  intro fuel
  induction fuel with
  | zero =>
    intro i st st' ctx ctx' traces traces' h
    unfold notifyLoop at h
    cases hi : ctx.notified[i]? with
    | none =>
      rw [hi] at h
      cases h
      exact ⟨[], by simp, Follows.nil st, Grows.refl ctx,
        by simp [List.drop_eq_nil_of_le (List.getElem?_eq_none_iff.mp hi)], by simp⟩
    | some _ =>
      rw [hi] at h
      cases h
  | succ fuel ih =>
    intro i st st' ctx ctx' traces traces' h
    unfold notifyLoop at h
    cases hi : ctx.notified[i]? with
    | none =>
      rw [hi] at h
      cases h
      exact ⟨[], by simp, Follows.nil st, Grows.refl ctx,
        by simp [List.drop_eq_nil_of_le (List.getElem?_eq_none_iff.mp hi)], by simp⟩
    | some x =>
      rw [hi] at h
      obtain ⟨⟨st1, ctx1, r⟩, h1, h⟩ := bind_eq_ok.mp h
      obtain ⟨hg, hrcv, hn⟩ := execOne_eq_ok ch h1
      obtain ⟨new, rfl, hf, hg', hrecv, hleaf⟩ := ih h
      have hgrow : Grows { ctx with receiver := ctx'.receiver } ctx' :=
        (hg.withReceiver ctx'.receiver).trans hg'
      have hx : ctx'.notified[i]? = some x := by
        obtain ⟨t, ht⟩ := hgrow.notified
        rw [← ht, List.getElem?_append_left (List.getElem?_eq_some_iff.mp hi).1, hi]
      obtain ⟨hlt, hxi⟩ := List.getElem?_eq_some_iff.mp hx
      refine ⟨.mk r ctx1.act ctx1.contextFree [] :: new, by simp, ?_, hgrow, ?_, ?_⟩
      · have hf1 := (follows_of_numbers hn).trans hf
        simpa [hg.act] using hf1
      · rw [List.drop_eq_getElem_cons hlt, hxi, List.map_cons, hrecv]
        simp [ActionTrace.receipt, hrcv]
      · intro t ht
        rcases List.mem_cons.mp ht with rfl | ht
        · exact ⟨hg.act, hg.contextFree, rfl⟩
        · obtain ⟨h1, h2, h3⟩ := hleaf t ht
          exact ⟨h1.trans hg.act, h2.trans hg.contextFree, h3⟩

theorem dispatchAll_follows {run : State σ → Action D → Except String (State σ × ActionTrace D)}
    (hrun : ∀ {st st' : State σ} {a : Action D} {t : ActionTrace D}, run st a = .ok (st', t) →
      Follows st t.runs st') :
    ∀ {st st' : State σ} {as : List (Action D)} {ts : List (ActionTrace D)},
      dispatchAll run st as = .ok (st', ts) → Follows st (ActionTrace.runsOf ts) st'
  | st, _, [], _, h => by
    cases h
    exact Follows.nil st
  | _, _, _ :: _, _, h => by
    obtain ⟨⟨st1, t⟩, h1, h⟩ := bind_eq_ok.mp h
    obtain ⟨⟨st2, ts⟩, h2, h⟩ := bind_eq_ok.mp h
    cases h
    simpa using (hrun h1).trans (dispatchAll_follows hrun h2)

theorem dispatchAll_forall {run : State σ → Action D → Except String (State σ × ActionTrace D)}
    {P : ActionTrace D → Prop}
    (hrun : ∀ {st st' : State σ} {a : Action D} {t : ActionTrace D}, run st a = .ok (st', t) → P t) :
    ∀ {st st' : State σ} {as : List (Action D)} {ts : List (ActionTrace D)},
      dispatchAll run st as = .ok (st', ts) → ts.length = as.length ∧ ∀ t ∈ ts, P t
  | _, _, [], _, h => by
    cases h
    exact ⟨rfl, fun _ h => absurd h List.not_mem_nil⟩
  | _, _, _ :: _, _, h => by
    obtain ⟨⟨st1, t⟩, h1, h⟩ := bind_eq_ok.mp h
    obtain ⟨⟨st2, ts⟩, h2, h⟩ := bind_eq_ok.mp h
    cases h
    obtain ⟨hlen, hts⟩ := dispatchAll_forall (P := P) hrun h2
    exact ⟨by simp [hlen], List.forall_mem_cons.mpr ⟨hrun h1, hts⟩⟩

open Eos.Dispatch.ApplyContext in
theorem exec_succ_eq_ok {fuel : Nat} {st st' : State σ} {ctx : ApplyContext D} {t : ActionTrace D}
    (h : ctx.exec ch (fuel + 1) st = .ok (st', t)) :
    ∃ st1 ctx1 r st2 ctx2 ns st3 cs is,
      execOne ch st { ctx with notified := ctx.notified ++ [ctx.receiver] } = .ok (st1, ctx1, r) ∧
      ctx1.notifyLoop ch fuel 1 st1 [] = .ok (st2, ctx2, ns) ∧
      (ctx2.cfaInlineActions ++ ctx2.inlineActions ≠ [] →
        ctx2.recurseDepth < ch.maxInlineActionDepth) ∧
      dispatchAll (fun st a => (dispatchContext a true (ctx2.recurseDepth + 1)).exec ch fuel st) st2
        ctx2.cfaInlineActions = .ok (st3, cs) ∧
      dispatchAll (fun st a => (dispatchContext a false (ctx2.recurseDepth + 1)).exec ch fuel st) st3
        ctx2.inlineActions = .ok (st', is) ∧
      t = .mk r ctx2.act ctx2.contextFree (ns ++ cs ++ is) := by
  rw [ApplyContext.exec] at h
  obtain ⟨⟨st1, ctx1, r⟩, h1, h⟩ := bind_eq_ok.mp h
  obtain ⟨⟨st2, ctx2, ns⟩, h2, h⟩ := bind_eq_ok.mp h
  dsimp only at h
  have hdepth : ∀ {x : Except String Unit} {y : Except String (State σ × ActionTrace D)}, 
      (if ctx2.cfaInlineActions.length > 0 || ctx2.inlineActions.length > 0 then x >>= fun _ => y
        else y) = .ok (st', t) → y = .ok (st', t) ∧
        (ctx2.cfaInlineActions ++ ctx2.inlineActions ≠ [] → x = .ok ()) := by
    intro x y hxy
    split at hxy
    · next hsent =>
      obtain ⟨_, hx, hy⟩ := bind_eq_ok.mp hxy
      exact ⟨hy, fun _ => hx⟩
    · next hnone =>
      refine ⟨hxy, fun hne => ?_⟩
      simp only [Bool.or_eq_true, decide_eq_true_eq, gt_iff_lt, List.length_pos_iff, not_or, ne_eq,
        not_not] at hnone
      exact absurd (by rw [hnone.1, hnone.2]; rfl) hne
  obtain ⟨h, hchk⟩ := hdepth h
  obtain ⟨⟨st3, cs⟩, h3, h⟩ := bind_eq_ok.mp h
  obtain ⟨⟨st4, is⟩, h4, h⟩ := bind_eq_ok.mp h
  cases h
  refine ⟨st1, ctx1, r, st2, ctx2, ns, st3, cs, is, h1, h2, fun hne => ?_, h3, h4, rfl⟩
  have ha := hchk hne
  unfold assert at ha
  split at ha
  · exact of_decide_eq_true ‹_›
  · cases ha

open Eos.Dispatch.ApplyContext in
/-- **the runs of a dispatch, in the order of its trace**: whatever the code on the chain does, the
receipts of an action and of all it caused are numbered one after the other, in the order of the
trace -/
theorem exec_follows : ∀ {fuel : Nat} {st st' : State σ} {ctx : ApplyContext D} {t : ActionTrace D},
    ctx.exec ch fuel st = .ok (st', t) → Follows st t.runs st'
  | 0, _, _, _, _, h => by
    cases h
  | fuel + 1, st, st', ctx, t, h => by
    obtain ⟨st1, ctx1, r, st2, ctx2, ns, st3, cs, is, h1, h2, -, h3, h4, rfl⟩ := exec_succ_eq_ok ch h
    obtain ⟨hg, -, hn⟩ := execOne_eq_ok ch h1
    obtain ⟨ns', hns, hf2, hg2, -, -⟩ := notifyLoop_eq_ok ch h2
    simp only [List.nil_append] at hns
    subst hns
    have hf3 := dispatchAll_follows (fun h => exec_follows h) h3
    have hf4 := dispatchAll_follows (fun h => exec_follows h) h4
    have hact : ctx2.act = ctx.act := hg2.act.trans hg.act
    have hf := (((follows_of_numbers hn).trans hf2).trans hf3).trans hf4
    simpa [hact] using hf

/-- **the shape of the trace of an action dispatched at depth `d`**: its first run is at the
action's own account; the accounts notified follow, each once and none of them that account, as
runs of the same action with the same flag and without inline traces; then the traces of the
context-free inline actions, then those of the inline actions, each dispatched one level deeper
and only while the depth is below `maxDepth`; a context-free action notifies no one and sends
nothing -/
inductive Dispatched (maxDepth : Nat) : Nat → ActionTrace D → Prop
  | mk {d : Nat} {r : ActionReceipt} {act : Action D} {cf : Bool}
      {notified cfas inls : List (ActionTrace D)} :
      r.receiver = act.account →
      (r.receiver :: notified.map (·.receipt.receiver)).Nodup →
      (∀ t ∈ notified, t.act = act ∧ t.contextFree = cf ∧ t.inlineTraces = []) →
      (cfas ++ inls ≠ [] → d < maxDepth) →
      (cf = true → notified = [] ∧ cfas = [] ∧ inls = []) →
      (∀ t ∈ cfas, t.contextFree = true) → (∀ t ∈ cfas, Dispatched maxDepth (d + 1) t) →
      (∀ t ∈ inls, t.contextFree = false) → (∀ t ∈ inls, Dispatched maxDepth (d + 1) t) →
      Dispatched maxDepth d (.mk r act cf (notified ++ cfas ++ inls))

open Eos.Dispatch.ApplyContext in
/-- **the trace of every dispatch has the shape of the source**, whatever the code on the chain
does -/
theorem exec_dispatched : ∀ {fuel : Nat} {st st' : State σ} {a : Action D} {cf : Bool} {d : Nat}
    {t : ActionTrace D}, (dispatchContext a cf d).exec ch fuel st = .ok (st', t) →
    Dispatched ch.maxInlineActionDepth d t ∧ t.contextFree = cf
  | 0, _, _, _, _, _, _, h => by
    cases h
  | fuel + 1, st, st', a, cf, d, t, h => by
    obtain ⟨st1, ctx1, r, st2, ctx2, ns, st3, cs, is, h1, h2, hdepth, h3, h4, rfl⟩ :=
      exec_succ_eq_ok ch h
    obtain ⟨hg, hrcv, -⟩ := execOne_eq_ok ch h1
    obtain ⟨nts, hns, -, hg2, hrecv, hleaf⟩ := notifyLoop_eq_ok ch h2
    simp only [List.nil_append] at hns
    subst hns
    have hgrow := (hg.withReceiver ctx2.receiver).trans hg2
    have hact : ctx2.act = a := hgrow.act
    have hcf : ctx2.contextFree = cf := hgrow.contextFree
    have hd : ctx2.recurseDepth = d := hgrow.recurseDepth
    obtain ⟨tl, htl⟩ := hgrow.notified
    have hnot : ctx2.notified = a.account :: ns.map (·.receipt.receiver) := by
      rw [hrecv, ← htl]
      rfl
    obtain ⟨hlen3, hcs⟩ := dispatchAll_forall (P := fun t => Dispatched ch.maxInlineActionDepth (d + 1) t ∧
      t.contextFree = true) (fun h => exec_dispatched h) (hd ▸ h3)
    obtain ⟨hlen4, his⟩ := dispatchAll_forall (P := fun t => Dispatched ch.maxInlineActionDepth (d + 1) t ∧
      t.contextFree = false) (fun h => exec_dispatched h) (hd ▸ h4)
    refine ⟨?_, hcf⟩
    rw [hact, hcf]
    refine .mk (hrcv.trans rfl) ?_ (fun t ht => ?_) (fun hne => ?_) (fun hfree => ?_)
      (fun t ht => (hcs t ht).2) (fun t ht => (hcs t ht).1) (fun t ht => (his t ht).2)
      (fun t ht => (his t ht).1)
    · -- the accounts notified are distinct, the receiver first
      rw [hrcv]
      exact hnot ▸ hgrow.nodup (List.nodup_singleton _)
    · obtain ⟨h1, h2, h3⟩ := hleaf t ht
      exact ⟨h1.trans hg.act, h2.trans hg.contextFree, h3⟩
    · -- an inline trace is there only for an action sent, within the depth
      rw [← hd]
      refine hdepth fun hnil => hne ?_
      rw [List.append_eq_nil_iff] at hnil ⊢
      exact ⟨List.eq_nil_of_length_eq_zero (by rw [hlen3, hnil.1]; rfl),
        List.eq_nil_of_length_eq_zero (by rw [hlen4, hnil.2]; rfl)⟩
    · -- a context-free action notified no one and sent nothing
      obtain ⟨hn, hi, hc⟩ := hgrow.free hfree
      refine ⟨?_, List.eq_nil_of_length_eq_zero (by rw [hlen3, hc]; rfl),
        List.eq_nil_of_length_eq_zero (by rw [hlen4, hi]; rfl)⟩
      have hmap : ns.map (·.receipt.receiver) = [] := by
        rw [hrecv, hn]
        rfl
      exact List.map_eq_nil_iff.mp hmap

/-! ## A transaction -/

variable {fuel : Nat} {applyContextFree : Bool} {contextFreeActions actions : List (Action D)}
  {traces : List (ActionTrace D)}

theorem transactionExec_eq_ok
    (h : TransactionContext.exec ch fuel st applyContextFree contextFreeActions actions = .ok (st', traces)) :
    ∃ st1 cfaTraces actionTraces,
      (applyContextFree = true ∧
          dispatchAll (fun st a => dispatchAction ch fuel st a true 0) st contextFreeActions =
            .ok (st1, cfaTraces) ∨
        applyContextFree = false ∧ st1 = st ∧ cfaTraces = []) ∧
      dispatchAll (fun st a => dispatchAction ch fuel st a false 0) st1 actions = .ok (st', actionTraces) ∧
      traces = cfaTraces ++ actionTraces := by
  unfold TransactionContext.exec at h
  dsimp only at h
  split at h
  · obtain ⟨⟨st1, cfaTraces⟩, h1, h⟩ := bind_eq_ok.mp h
    obtain ⟨⟨st2, actionTraces⟩, h2, h⟩ := bind_eq_ok.mp h
    cases h
    exact ⟨st1, cfaTraces, actionTraces, .inl ⟨‹_›, h1⟩, h2, rfl⟩
  · obtain ⟨_, h1, h⟩ := bind_eq_ok.mp h
    cases h1
    obtain ⟨⟨st2, actionTraces⟩, h2, h⟩ := bind_eq_ok.mp h
    cases h
    exact ⟨st, [], actionTraces, .inr ⟨Bool.eq_false_iff.mpr ‹_›, rfl, rfl⟩, h2, rfl⟩

/-- a chain on which every account and permission exists and the code of account `1` notifies
account `2` and sends an inline action to account `3` authorized by `1@0`; other code does
nothing -/
def sampleChain : Chain Unit Unit where
  isAccount _ _ := true
  privileged _ _ := false
  isPermission _ _ := true
  checkAuthorization _ _ _ := pure ()
  codeSequence _ _ := 0
  abiSequence _ _ := 0
  digest _ := 0
  packedSize _ := 1
  apply _ receiver _ _ :=
    if receiver = 1 then pure [.requireRecipient 2, .sendInline ⟨3, 0, [⟨1, 0⟩], ()⟩] else pure []
  skipAuthCheck := false
  maxInlineActionSize := 512
  maxInlineActionDepth := 4

/-- the dispatch before the first action of a chain -/
def sampleState : State Unit :=
  { chain := (), globalActionSequence := 0, recvSequence := fun _ => 0,
    authSequence := fun _ => 0, executed := [] }

/-- **the receipts of a transaction are numbered as the sequences say**: whatever the code on the
chain does, a transaction that succeeds appends the receipts of its runs in the order of its traces,
numbers them one after the other by the global action sequence, moves each receiver's
`recv_sequence` once per run at it and each actor's `auth_sequence` once per declaration in each
run, and each receipt carries the counts after its run -/
theorem transaction_receipts_numbered
    (h : TransactionContext.exec ch fuel st applyContextFree contextFreeActions actions = .ok (st', traces)) :
    Counted st st' (ActionTrace.runsOf traces) := by
  obtain ⟨st1, cfaTraces, actionTraces, h1, h2, rfl⟩ := transactionExec_eq_ok ch h
  have hf1 : Follows st (ActionTrace.runsOf cfaTraces) st1 := by
    rcases h1 with ⟨-, h1⟩ | ⟨-, rfl, rfl⟩
    · exact dispatchAll_follows (fun h => exec_follows ch h) h1
    · exact Follows.nil _
  have hf2 := dispatchAll_follows (fun h => exec_follows ch h) h2
  simpa using (hf1.trans hf2) st [] (counted_nil st)

/-- an action to account `1` that declares actor `1` twice runs at `1`, at `2` that `1` notifies,
and at `3` that `1` sends an inline action to -/
theorem transaction_receipts_numbered_at_sample :
    ∃ st' traces, TransactionContext.exec sampleChain 8 sampleState false []
        [⟨1, 0, [⟨1, 0⟩, ⟨1, 1⟩], ()⟩] = .ok (st', traces) ∧
      Counted sampleState st' (ActionTrace.runsOf traces) := by
  obtain ⟨st', traces, h⟩ : ∃ st' traces, TransactionContext.exec sampleChain 8 sampleState false []
      [⟨1, 0, [⟨1, 0⟩, ⟨1, 1⟩], ()⟩] = .ok (st', traces) := ⟨_, _, rfl⟩
  exact ⟨st', traces, h, transaction_receipts_numbered sampleChain h⟩

/-- **the traces of a transaction have the shape of the source**: whatever the code on the chain
does, the traces of a transaction that succeeds are those of its context-free actions, context free,
then those of its actions, and each is dispatched at depth `0` -/
theorem transaction_traces_dispatched
    (h : TransactionContext.exec ch fuel st applyContextFree contextFreeActions actions = .ok (st', traces)) :
    ∃ cfaTraces actionTraces, traces = cfaTraces ++ actionTraces ∧
      cfaTraces.length = (if applyContextFree then contextFreeActions.length else 0) ∧
      actionTraces.length = actions.length ∧
      (∀ t ∈ cfaTraces, t.contextFree = true) ∧ (∀ t ∈ actionTraces, t.contextFree = false) ∧
      ∀ t ∈ traces, Dispatched ch.maxInlineActionDepth 0 t := by
  obtain ⟨st1, cfaTraces, actionTraces, h1, h2, rfl⟩ := transactionExec_eq_ok ch h
  have hcfa : cfaTraces.length = (if applyContextFree then contextFreeActions.length else 0) ∧
      ∀ t ∈ cfaTraces, Dispatched ch.maxInlineActionDepth 0 t ∧ t.contextFree = true := by
    rcases h1 with ⟨rfl, h1⟩ | ⟨rfl, rfl, rfl⟩
    · exact dispatchAll_forall (P := fun t => Dispatched ch.maxInlineActionDepth 0 t ∧
        t.contextFree = true) (fun h => exec_dispatched ch h) h1
    · exact ⟨rfl, fun _ h => absurd h List.not_mem_nil⟩
  obtain ⟨hlen2, hact⟩ := dispatchAll_forall (P := fun t => Dispatched ch.maxInlineActionDepth 0 t ∧
    t.contextFree = false) (fun h => exec_dispatched ch h) h2
  refine ⟨cfaTraces, actionTraces, rfl, hcfa.1, hlen2, fun t ht => (hcfa.2 t ht).2,
    fun t ht => (hact t ht).2, fun t ht => ?_⟩
  rcases List.mem_append.mp ht with ht | ht
  · exact (hcfa.2 t ht).1
  · exact (hact t ht).1


/-- a context-free action to account `4`, whose code does nothing, then the action of
`transaction_receipts_numbered_at_sample` -/
theorem transaction_traces_dispatched_at_sample :
    ∃ st' traces, TransactionContext.exec sampleChain 8 sampleState true [⟨4, 0, [], ()⟩]
        [⟨1, 0, [⟨1, 0⟩, ⟨1, 1⟩], ()⟩] = .ok (st', traces) ∧
      ∃ cfaTraces actionTraces, traces = cfaTraces ++ actionTraces ∧ cfaTraces.length = 1 ∧
        actionTraces.length = 1 ∧ (∀ t ∈ cfaTraces, t.contextFree = true) ∧
        (∀ t ∈ actionTraces, t.contextFree = false) ∧ ∀ t ∈ traces, Dispatched 4 0 t := by
  obtain ⟨st', traces, h⟩ : ∃ st' traces, TransactionContext.exec sampleChain 8 sampleState true
      [⟨4, 0, [], ()⟩] [⟨1, 0, [⟨1, 0⟩, ⟨1, 1⟩], ()⟩] = .ok (st', traces) := ⟨_, _, rfl⟩
  exact ⟨st', traces, h, transaction_traces_dispatched sampleChain h⟩
end

end Eos.Dispatch
