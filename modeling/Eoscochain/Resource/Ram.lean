import Eoscochain.Lib.Codec
import Eoscochain.Lib.Run
import Eoscochain.Resource.Limits

/-!
# RAM billing of contract rows and deferred transactions

libraries/chain apply_context.cpp and controller.cpp: the paths that charge an account's
`ram_usage` for the objects it pays for and refund it when they go.

* `updateDbUsage`, `findOrCreateTable`, `removeTable`   the charge of a table and of a row;
* `dbStoreI64`, `dbUpdateI64`, `dbRemoveI64`   the primary index of a contract table; an
                         iterator is the key of its row, `(t_id, primary_key)`;
* `scheduleDeferredTransaction`, `cancelDeferredTransaction`   `generated_transaction_object`s;
* `removeScheduledTransaction`   the controller retiring one, executed or expired;
* `billed`               what an account pays for: its rows, tables and deferred transactions;
* `RamExact base`        every account's `ram_usage` is `base` plus what it is billed for.

The checks of `schedule_deferred_transaction` that only abort (no context-free actions, the
net usage, the referenced accounts, the authorization of the deferred actions) are one flag of
the environment.  The secondary indices, the native actions and setcode/setabi are left out:
`base` stands for what they bill.
-/

set_option linter.unusedSectionVars false

namespace Eos.Ram

open Machine Table Codec Resource

/-- `config::overhead_per_row_per_index_ram_bytes` -/
def overheadPerRowPerIndexRamBytes : Nat := 32

/-- `config::billable_alignment` -/
def billableAlignment : Nat := 16

/-- `config::billable_size_v`: a size rounded up to the alignment -/
def billableSizeV (value : Nat) : Nat :=
  (value + billableAlignment - 1) / billableAlignment * billableAlignment

/-- `billable_size_v<key_value_object>` -/
def keyValueBillable : Nat := billableSizeV (32 + 8 + 4 + overheadPerRowPerIndexRamBytes * 2)

/-- `billable_size_v<table_id_object>` -/
def tableIdBillable : Nat := billableSizeV (44 + overheadPerRowPerIndexRamBytes * 2)

/-- `billable_size_v<generated_transaction_object>` -/
def generatedTransactionBillable : Nat := billableSizeV (96 + 4 + overheadPerRowPerIndexRamBytes * 5)

example : keyValueBillable = 112 ∧ tableIdBillable = 112 ∧ generatedTransactionBillable = 272 := by
  decide

/-- `table_id_object` -/
structure TableIdObject where
  id : Nat
  code : Nat
  scope : Nat
  table : Nat
  payer : Nat
  count : Nat
  deriving DecidableEq, Repr

/-- the key of the index `by_code_scope_table` -/
def TableIdObject.byCodeScopeTable (t : TableIdObject) : Nat × Nat × Nat := (t.code, t.scope, t.table)

/-- `key_value_object` -/
structure KeyValueObject where
  tId : Nat
  primaryKey : Nat
  value : Bytes
  payer : Nat
  deriving DecidableEq, Repr

/-- the key of the index `by_scope_primary`, and the iterator of the row -/
def KeyValueObject.byScopePrimary (o : KeyValueObject) : Nat × Nat := (o.tId, o.primaryKey)

/-- `generated_transaction_object`; `packed_trx` is the packed transaction -/
structure GeneratedTransactionObject where
  trxId : Nat
  sender : Nat
  senderId : Nat
  payer : Nat
  packedTrx : Bytes
  deriving DecidableEq, Repr

/-- the key of the index `by_sender_id` -/
def GeneratedTransactionObject.bySenderId (g : GeneratedTransactionObject) : Nat × Nat :=
  (g.sender, g.senderId)

/-- the chain state these paths read and write; `nextTableId` is the id chainbase gives the
next `table_id_object` -/
structure RamState where
  limits : ResourceLimitsManager
  tables : List TableIdObject := []
  rows : List KeyValueObject := []
  generated : List GeneratedTransactionObject := []
  nextTableId : Nat := 0

/-- what the `apply_context` of the action gives these paths -/
structure ApplyEnv where
  receiver : Nat
  /-- `act.account` -/
  actAccount : Nat
  privileged : Bool
  ramBillingInNotifyAllowed : Bool
  isProducingBlock : Bool
  /-- `require_authorization(account)` passes -/
  authorized : Nat → Bool
  /-- the checks of `schedule_deferred_transaction` that only abort pass -/
  deferredChecks : Bool

/-- `require_authorization` -/
def requireAuthorization (env : ApplyEnv) (account : Nat) : Except String Unit :=
  assert (env.authorized account) "missing authority of ${account}"

/-! ## Charges and refunds -/

/-- `apply_context::add_ram_usage` -/
def addRamUsage (st : RamState) (account : Nat) (ramDelta : Int) : Except String RamState := do
  let limits ← st.limits.addPendingRamUsage account ramDelta
  pure { st with limits }

/-- `apply_context::update_db_usage` -/
def updateDbUsage (env : ApplyEnv) (st : RamState) (payer : Nat) (delta : Int) :
    Except String RamState := do
  if delta > 0 then
    if !(env.privileged || payer == env.receiver) then
      assert (env.ramBillingInNotifyAllowed || env.receiver == env.actAccount)
        "Cannot charge RAM to other accounts during notify."
      requireAuthorization env payer
  addRamUsage st payer delta

/-- `apply_context::find_or_create_table` -/
def findOrCreateTable (env : ApplyEnv) (st : RamState) (code scope table payer : Nat) :
    Except String (RamState × TableIdObject) :=
  match findKey TableIdObject.byCodeScopeTable (code, scope, table) st.tables with
  | some (_, t) => pure (st, t)
  | none => do
    let st ← updateDbUsage env st payer tableIdBillable
    let t : TableIdObject := ⟨st.nextTableId, code, scope, table, payer, 0⟩
    pure ({ st with tables := st.tables ++ [t], nextTableId := st.nextTableId + 1 }, t)

/-- `apply_context::remove_table` -/
def removeTable (env : ApplyEnv) (st : RamState) (i : Nat) (t : TableIdObject) :
    Except String RamState := do
  let st ← updateDbUsage env st t.payer (-(tableIdBillable : Int))
  pure { st with tables := st.tables.eraseIdx i }

/-- `keyval_cache.get(iterator)` -/
def getRow (st : RamState) (iterator : Nat × Nat) : Except String (Nat × KeyValueObject) :=
  getKey KeyValueObject.byScopePrimary iterator st.rows "dereference of deleted object"

/-- `keyval_cache.get_table(obj.t_id)` -/
def getTable (st : RamState) (tId : Nat) : Except String (Nat × TableIdObject) :=
  getKey (·.id) tId st.tables unknownKeyError

/-! ## The primary index -/

/-- `apply_context::db_store_i64` on the receiver's table -/
def dbStoreI64 (env : ApplyEnv) (st : RamState) (scope table payer id : Nat) (buffer : Bytes) :
    Except String RamState := do
  let (st, tab) ← findOrCreateTable env st env.receiver scope table payer
  assert (payer != 0) "must specify a valid account to pay for new record"
  let obj : KeyValueObject := ⟨tab.id, id, buffer, payer⟩
  assert (findKey KeyValueObject.byScopePrimary obj.byScopePrimary st.rows).isNone insertViolation
  let (i, t) ← getTable st tab.id
  let st := { st with rows := st.rows ++ [obj], tables := st.tables.set i { t with count := t.count + 1 } }
  updateDbUsage env st payer (buffer.length + keyValueBillable)

/-- `apply_context::db_update_i64`; a payer `0` keeps the row's -/
def dbUpdateI64 (env : ApplyEnv) (st : RamState) (iterator : Nat × Nat) (payer : Nat)
    (buffer : Bytes) : Except String RamState := do
  let (i, obj) ← getRow st iterator
  let (_, tableObj) ← getTable st obj.tId
  assert (tableObj.code == env.receiver) "db access violation"
  let overhead : Int := keyValueBillable
  let oldSize : Int := obj.value.length + overhead
  let newSize : Int := buffer.length + overhead
  let payer := if payer = 0 then obj.payer else payer
  let st ←
    if obj.payer ≠ payer then do
      -- refund the existing payer, charge the new payer
      let st ← updateDbUsage env st obj.payer (-oldSize)
      updateDbUsage env st payer newSize
    else if oldSize ≠ newSize then updateDbUsage env st obj.payer (newSize - oldSize)
    else pure st
  pure { st with rows := st.rows.set i { obj with value := buffer, payer := payer } }

/-- `apply_context::db_remove_i64` -/
def dbRemoveI64 (env : ApplyEnv) (st : RamState) (iterator : Nat × Nat) :
    Except String RamState := do
  let (i, obj) ← getRow st iterator
  let (j, tableObj) ← getTable st obj.tId
  assert (tableObj.code == env.receiver) "db access violation"
  let st ← updateDbUsage env st obj.payer (-((obj.value.length + keyValueBillable : Nat) : Int))
  let tableObj := { tableObj with count := tableObj.count - 1 }
  let st := { st with tables := st.tables.set j tableObj, rows := st.rows.eraseIdx i }
  if tableObj.count = 0 then removeTable env st j tableObj else pure st

/-! ## Deferred transactions -/

/-- `apply_context::schedule_deferred_transaction`; the refund of the replaced transaction's
payer is commented out in the source, and so it is here -/
def scheduleDeferredTransaction (env : ApplyEnv) (st : RamState) (senderId payer trxId : Nat)
    (packedTrx : Bytes) (replaceExisting : Bool) : Except String RamState := do
  assert env.deferredChecks "deferred transaction checks"
  if !env.privileged && payer != env.receiver then requireAuthorization env payer
  let st ←
    match findKey GeneratedTransactionObject.bySenderId (env.receiver, senderId) st.generated with
    | some (i, gtx) => do
      assert replaceExisting "deferred transaction with the same sender_id and payer already exists"
      assert (!env.isProducingBlock) "Replacing a deferred transaction is temporarily disabled."
      -- add_ram_usage( ptr->payer, -(config::billable_size_v<generated_transaction_object> + ptr->packed_trx.size()) );
      pure { st with generated := st.generated.set i { gtx with payer := payer, packedTrx := packedTrx } }
    | none => do
      assert (!(st.generated.any (·.trxId == trxId))) insertViolation
      pure { st with generated := st.generated ++ [⟨trxId, env.receiver, senderId, payer, packedTrx⟩] }
  assert (env.ramBillingInNotifyAllowed || env.receiver == env.actAccount || env.receiver == payer ||
      env.privileged) "Cannot charge RAM to other accounts during notify."
  addRamUsage st payer (generatedTransactionBillable + packedTrx.length)

/-- `apply_context::cancel_deferred_transaction`; whether there was one to cancel -/
def cancelDeferredTransaction (st : RamState) (senderId sender : Nat) :
    Except String (RamState × Bool) :=
  match findKey GeneratedTransactionObject.bySenderId (sender, senderId) st.generated with
  | some (i, gto) => do
    let st ← addRamUsage st gto.payer (-((generatedTransactionBillable + gto.packedTrx.length : Nat) : Int))
    pure ({ st with generated := st.generated.eraseIdx i }, true)
  | none => pure (st, false)

/-- `controller_impl::remove_scheduled_transaction`, when a deferred transaction is executed or
expires -/
def removeScheduledTransaction (st : RamState) (sender senderId : Nat) : Except String RamState := do
  let (i, gto) ← getKey GeneratedTransactionObject.bySenderId (sender, senderId) st.generated
    unknownKeyError
  let st ← addRamUsage st gto.payer (-((generatedTransactionBillable + gto.packedTrx.length : Nat) : Int))
  pure { st with generated := st.generated.eraseIdx i }

inductive RamAction
  | dbStoreI64 (scope table payer id : Nat) (buffer : Bytes)
  | dbUpdateI64 (iterator : Nat × Nat) (payer : Nat) (buffer : Bytes)
  | dbRemoveI64 (iterator : Nat × Nat)
  | scheduleDeferred (senderId payer trxId : Nat) (packedTrx : Bytes) (replaceExisting : Bool)
  /-- the intrinsic `cancel_deferred`: the receiver's own transaction -/
  | cancelDeferred (senderId : Nat)
  | retireScheduled (sender senderId : Nat)
  deriving DecidableEq, Repr

def step (st : RamState) : ApplyEnv × RamAction → Except String RamState
  | (env, .dbStoreI64 scope table payer id buffer) => dbStoreI64 env st scope table payer id buffer
  | (env, .dbUpdateI64 iterator payer buffer) => dbUpdateI64 env st iterator payer buffer
  | (env, .dbRemoveI64 iterator) => dbRemoveI64 env st iterator
  | (env, .scheduleDeferred senderId payer trxId packedTrx replaceExisting) =>
    scheduleDeferredTransaction env st senderId payer trxId packedTrx replaceExisting
  | (env, .cancelDeferred senderId) => Prod.fst <$> cancelDeferredTransaction st senderId env.receiver
  | (_, .retireScheduled sender senderId) => removeScheduledTransaction st sender senderId

/-! ## What an account is billed for -/

section Billing
variable {α : Type*}

/-- the RAM an object bills `a` for: its size if `a` pays for it -/
def charge (payer size : α → Nat) (a : Nat) (o : α) : Int := if payer o = a then size o else 0

/-- the RAM `a` is billed for by a list of objects -/
def billedBy (payer size : α → Nat) (a : Nat) (objs : List α) : Int := (objs.map (charge payer size a)).sum

variable {payer size : α → Nat} {a : Nat} {objs : List α}

theorem billedBy_append (x : α) :
    billedBy payer size a (objs ++ [x]) = billedBy payer size a objs + charge payer size a x := by
  simp [billedBy]

theorem billedBy_set {i : Nat} {o : α} (hi : objs[i]? = some o) (x : α) :
    billedBy payer size a (objs.set i x) =
      billedBy payer size a objs - charge payer size a o + charge payer size a x := by
  obtain ⟨hlt, rfl⟩ := List.getElem?_eq_some_iff.mp hi
  exact sum_map_set _ objs i x hlt

theorem billedBy_eraseIdx {i : Nat} {o : α} (hi : objs[i]? = some o) :
    billedBy payer size a (objs.eraseIdx i) = billedBy payer size a objs - charge payer size a o := by
  obtain ⟨hlt, rfl⟩ := List.getElem?_eq_some_iff.mp hi
  exact sum_map_eraseIdx _ objs i hlt

end Billing

/-- `value.size() + billable_size_v<key_value_object>` -/
def KeyValueObject.billableSize (o : KeyValueObject) : Nat := o.value.length + keyValueBillable

/-- `billable_size_v<generated_transaction_object> + packed_trx.size()` -/
def GeneratedTransactionObject.billableSize (g : GeneratedTransactionObject) : Nat :=
  generatedTransactionBillable + g.packedTrx.length

/-- the RAM `a` pays for in the state: its rows, its tables and its deferred transactions -/
def billed (st : RamState) (a : Nat) : Int :=
  billedBy KeyValueObject.payer KeyValueObject.billableSize a st.rows +
    billedBy TableIdObject.payer (fun _ => tableIdBillable) a st.tables +
    billedBy GeneratedTransactionObject.payer GeneratedTransactionObject.billableSize a st.generated

/-- `ram_usage` of an account; one with no `resource_usage_object` has none -/
def ramUsage (m : ResourceLimitsManager) (account : Nat) : Nat :=
  match findKey (·.owner) account m.usage with
  | some (_, u) => u.ramUsage
  | none => 0

/-- what `ram_usage` holds beyond what the account is billed for here -/
def unbilled (st : RamState) (a : Nat) : Int := ramUsage st.limits a - billed st a

/-- **RAM accounting is exact**: every account's `ram_usage` is what it is billed for here, on
top of `base`, what the paths left out bill it for -/
def RamExact (base : Nat → Int) (st : RamState) : Prop :=
  ∀ a, (ramUsage st.limits a : Int) = base a + billed st a

/-- a change of state that charges every account exactly what it adds to its bill -/
def Conserves (st st' : RamState) : Prop := ∀ a, unbilled st' a = unbilled st a

theorem Conserves.trans {st1 st2 st3 : RamState} (h12 : Conserves st1 st2) (h23 : Conserves st2 st3) :
    Conserves st1 st3 := fun a => (h23 a).trans (h12 a)

theorem RamExact.of_conserves {base : Nat → Int} {st st' : RamState} (hst : RamExact base st)
    (hc : Conserves st st') : RamExact base st' := by
  intro a
  have h := hc a
  have ha := hst a
  simp only [unbilled] at h
  omega

/-! ## The charges -/

theorem ramUsage_addPendingRamUsage {m m' : ResourceLimitsManager} {account : Nat} {ramDelta : Int}
    (h : m.addPendingRamUsage account ramDelta = .ok m') (b : Nat) :
    (ramUsage m' b : Int) = ramUsage m b + if account = b then ramDelta else 0 := by
  unfold ResourceLimitsManager.addPendingRamUsage at h
  split at h
  · next hzero =>
    cases h
    simp [hzero]
  obtain ⟨⟨i, usage⟩, hget, h⟩ := bind_eq_ok.mp h
  obtain ⟨-, h⟩ := assert_bind_eq_ok.mp h
  obtain ⟨hunder, h⟩ := assert_bind_eq_ok.mp h
  cases h
  have hfind : findKey (·.owner) account m.usage = some (i, usage) := findKey_of_getKey hget
  obtain ⟨hi, howner⟩ := findKey_get hfind
  obtain ⟨hlt, rfl⟩ := List.getElem?_eq_some_iff.mp hi
  dsimp only [ramUsage]
  by_cases hb : account = b
  · subst hb
    rw [findKey_set_self hfind, hfind, if_pos rfl]
    · simp only [Bool.or_eq_true, decide_eq_true_eq] at hunder
      dsimp only
      omega
    · exact howner
  · rw [findKey_set_of_ne hlt, if_neg hb, Int.add_zero]
    · rfl
    · exact howner.trans_ne hb

theorem addRamUsage_eq_ok {st st' : RamState} {account : Nat} {ramDelta : Int}
    (h : addRamUsage st account ramDelta = .ok st') :
    ∃ limits, st' = { st with limits } ∧
      ∀ b, unbilled st' b = unbilled st b + if account = b then ramDelta else 0 := by
  unfold addRamUsage at h
  obtain ⟨limits, hlimits, h⟩ := bind_eq_ok.mp h
  cases h
  refine ⟨limits, rfl, fun b => ?_⟩
  have hb := ramUsage_addPendingRamUsage hlimits b
  simp only [unbilled, billed] at hb ⊢
  omega

theorem updateDbUsage_eq_ok {env : ApplyEnv} {st st' : RamState} {payer : Nat} {delta : Int}
    (h : updateDbUsage env st payer delta = .ok st') : addRamUsage st payer delta = .ok st' := by
  unfold updateDbUsage at h
  dsimp only at h
  split at h
  · split at h
    · obtain ⟨-, h⟩ := assert_bind_eq_ok.mp h
      obtain ⟨-, -, h⟩ := bind_eq_ok.mp h
      exact h
    · exact h
  · exact h

/-! ## Each path bills what it charges -/

section Paths
variable {env : ApplyEnv} {st st' : RamState}

theorem findOrCreateTable_conserves {code scope table payer : Nat} {t : TableIdObject}
    (h : findOrCreateTable env st code scope table payer = .ok (st', t)) : Conserves st st' := by
  unfold findOrCreateTable at h
  split at h
  · cases h
    exact fun _ => rfl
  · obtain ⟨st1, h1, h⟩ := bind_eq_ok.mp h
    cases h
    obtain ⟨limits, rfl, hcharge⟩ := addRamUsage_eq_ok (updateDbUsage_eq_ok h1)
    intro b
    have hb := hcharge b
    simp only [unbilled, billed, billedBy_append, charge] at hb ⊢
    split_ifs at hb ⊢ <;> omega

theorem dbStoreI64_conserves {scope table payer id : Nat} {buffer : Bytes}
    (h : dbStoreI64 env st scope table payer id buffer = .ok st') : Conserves st st' := by
  unfold dbStoreI64 at h
  obtain ⟨⟨st1, tab⟩, h1, h⟩ := bind_eq_ok.mp h
  obtain ⟨-, h⟩ := assert_bind_eq_ok.mp h
  obtain ⟨-, h⟩ := assert_bind_eq_ok.mp h
  obtain ⟨⟨i, t⟩, ht, h⟩ := bind_eq_ok.mp h
  obtain ⟨limits, rfl, hcharge⟩ := addRamUsage_eq_ok (updateDbUsage_eq_ok h)
  intro b
  have hb := hcharge b
  have h1b := findOrCreateTable_conserves h1 b
  simp only [unbilled, billed, billedBy_append, billedBy_set (getKey_eq_ok ht).1, charge,
    KeyValueObject.billableSize] at hb h1b ⊢
  split_ifs at hb h1b ⊢ <;> omega

theorem dbUpdateI64_conserves {iterator : Nat × Nat} {payer : Nat} {buffer : Bytes}
    (h : dbUpdateI64 env st iterator payer buffer = .ok st') : Conserves st st' := by
  unfold dbUpdateI64 at h
  obtain ⟨⟨i, obj⟩, hrow, h⟩ := bind_eq_ok.mp h
  obtain ⟨_, -, h⟩ := bind_eq_ok.mp h
  obtain ⟨-, h⟩ := assert_bind_eq_ok.mp h
  dsimp only at h
  generalize (if payer = 0 then obj.payer else payer) = payer' at h
  have hi := (getKey_eq_ok hrow).1
  split at h
  · obtain ⟨st1, h1, h⟩ := bind_eq_ok.mp h
    obtain ⟨st2, h2, h⟩ := bind_eq_ok.mp h
    cases h
    obtain ⟨l1, rfl, hc1⟩ := addRamUsage_eq_ok (updateDbUsage_eq_ok h1)
    obtain ⟨l2, rfl, hc2⟩ := addRamUsage_eq_ok (updateDbUsage_eq_ok h2)
    intro b
    have hb1 := hc1 b
    have hb2 := hc2 b
    simp only [unbilled, billed, billedBy_set hi, charge, KeyValueObject.billableSize] at hb1 hb2 ⊢
    split_ifs at hb1 hb2 ⊢ <;> omega
  · next hpayer =>
    split at h
    · obtain ⟨st1, h1, h⟩ := bind_eq_ok.mp h
      cases h
      obtain ⟨l1, rfl, hc1⟩ := addRamUsage_eq_ok (updateDbUsage_eq_ok h1)
      intro b
      have hb1 := hc1 b
      simp only [unbilled, billed, billedBy_set hi, charge, KeyValueObject.billableSize] at hb1 ⊢
      split_ifs at hb1 ⊢ <;> omega
    · next hsize =>
      cases h
      intro b
      simp only [unbilled, billed, billedBy_set hi, charge, KeyValueObject.billableSize]
      split_ifs <;> omega

theorem dbRemoveI64_conserves {iterator : Nat × Nat}
    (h : dbRemoveI64 env st iterator = .ok st') : Conserves st st' := by
  unfold dbRemoveI64 at h
  obtain ⟨⟨i, obj⟩, hrow, h⟩ := bind_eq_ok.mp h
  obtain ⟨⟨j, tableObj⟩, htab, h⟩ := bind_eq_ok.mp h
  obtain ⟨-, h⟩ := assert_bind_eq_ok.mp h
  obtain ⟨st1, h1, h⟩ := bind_eq_ok.mp h
  obtain ⟨l1, rfl, hc1⟩ := addRamUsage_eq_ok (updateDbUsage_eq_ok h1)
  have hi := (getKey_eq_ok hrow).1
  have hj := (getKey_eq_ok htab).1
  dsimp only at h
  split at h
  · -- the last row of the table takes the table with it
    unfold removeTable at h
    obtain ⟨st2, h2, h⟩ := bind_eq_ok.mp h
    cases h
    obtain ⟨l2, rfl, hc2⟩ := addRamUsage_eq_ok (updateDbUsage_eq_ok h2)
    have hj' : (st.tables.set j { tableObj with count := tableObj.count - 1 })[j]? =
        some { tableObj with count := tableObj.count - 1 } :=
      List.getElem?_set_self (List.getElem?_eq_some_iff.mp hj).1
    intro b
    have hb1 := hc1 b
    have hb2 := hc2 b
    simp only [unbilled, billed, billedBy_set hj, billedBy_eraseIdx hi, billedBy_eraseIdx hj', charge,
      KeyValueObject.billableSize] at hb1 hb2 ⊢
    split_ifs at hb1 hb2 ⊢ <;> omega
  · cases h
    intro b
    have hb1 := hc1 b
    simp only [unbilled, billed, billedBy_set hj, billedBy_eraseIdx hi, charge,
      KeyValueObject.billableSize] at hb1 ⊢
    split_ifs at hb1 ⊢ <;> omega

theorem conserves_retire {st1 : RamState} {i : Nat} {gto : GeneratedTransactionObject}
    (hi : st.generated[i]? = some gto)
    (h : addRamUsage st gto.payer (-((generatedTransactionBillable + gto.packedTrx.length : Nat) : Int)) =
      .ok st1) :
    Conserves st { st1 with generated := st1.generated.eraseIdx i } := by
  obtain ⟨l1, rfl, hc1⟩ := addRamUsage_eq_ok h
  intro b
  have hb1 := hc1 b
  simp only [unbilled, billed, billedBy_eraseIdx hi, charge,
    GeneratedTransactionObject.billableSize] at hb1 ⊢
  split_ifs at hb1 ⊢ <;> omega

theorem cancelDeferredTransaction_conserves {senderId sender : Nat} {canceled : Bool}
    (h : cancelDeferredTransaction st senderId sender = .ok (st', canceled)) : Conserves st st' := by
  unfold cancelDeferredTransaction at h
  split at h
  · next i gto hfind =>
    obtain ⟨st1, h1, h⟩ := bind_eq_ok.mp h
    cases h
    exact conserves_retire (findKey_get hfind).1 h1
  · cases h
    exact fun _ => rfl

theorem removeScheduledTransaction_conserves {sender senderId : Nat}
    (h : removeScheduledTransaction st sender senderId = .ok st') : Conserves st st' := by
  unfold removeScheduledTransaction at h
  obtain ⟨⟨i, gto⟩, hget, h⟩ := bind_eq_ok.mp h
  obtain ⟨st1, h1, h⟩ := bind_eq_ok.mp h
  cases h
  exact conserves_retire (getKey_eq_ok hget).1 h1

theorem scheduleDeferredTransaction_eq_ok {senderId payer trxId : Nat} {packedTrx : Bytes}
    {replaceExisting : Bool}
    (h : scheduleDeferredTransaction env st senderId payer trxId packedTrx replaceExisting = .ok st') :
    ∃ st1, addRamUsage st1 payer (generatedTransactionBillable + packedTrx.length) = .ok st' ∧
      match findKey GeneratedTransactionObject.bySenderId (env.receiver, senderId) st.generated with
      | some (i, gtx) => st1 = { st with generated := st.generated.set i { gtx with payer, packedTrx } }
      | none => st1 = { st with
          generated := st.generated ++ [⟨trxId, env.receiver, senderId, payer, packedTrx⟩] } := by
  unfold scheduleDeferredTransaction at h
  obtain ⟨-, h⟩ := assert_bind_eq_ok.mp h
  dsimp only at h
  have h := ite_bind_eq_ok h
  split at h
  · obtain ⟨-, h⟩ := assert_bind_eq_ok.mp h
    obtain ⟨-, h⟩ := assert_bind_eq_ok.mp h
    obtain ⟨st1, hst1, h⟩ := bind_eq_ok.mp h
    obtain ⟨-, h⟩ := assert_bind_eq_ok.mp h
    cases hst1
    exact ⟨_, h, rfl⟩
  · obtain ⟨-, h⟩ := assert_bind_eq_ok.mp h
    obtain ⟨st1, hst1, h⟩ := bind_eq_ok.mp h
    obtain ⟨-, h⟩ := assert_bind_eq_ok.mp h
    cases hst1
    exact ⟨_, h, rfl⟩

theorem scheduleDeferredTransaction_conserves {senderId payer trxId : Nat} {packedTrx : Bytes}
    {replaceExisting : Bool}
    (hnew : findKey GeneratedTransactionObject.bySenderId (env.receiver, senderId) st.generated = none)
    (h : scheduleDeferredTransaction env st senderId payer trxId packedTrx replaceExisting = .ok st') :
    Conserves st st' := by
  obtain ⟨st1, hcharge, hst1⟩ := scheduleDeferredTransaction_eq_ok h
  rw [hnew] at hst1
  subst hst1
  obtain ⟨l1, rfl, hc1⟩ := addRamUsage_eq_ok hcharge
  intro b
  have hb1 := hc1 b
  simp only [unbilled, billed, billedBy_append, charge, GeneratedTransactionObject.billableSize] at hb1 ⊢
  split_ifs at hb1 ⊢ <;> omega

/-- **The replacement leak.**  A schedule that replaces a deferred transaction charges the new
payer for it but never refunds the old one: the refund is commented out in the source, so what
the replaced transaction was billed for stays in its payer's `ram_usage` -/
theorem unbilled_scheduleDeferred_replace {senderId payer trxId : Nat} {packedTrx : Bytes}
    {replaceExisting : Bool} {i : Nat} {gtx : GeneratedTransactionObject}
    (hold : findKey GeneratedTransactionObject.bySenderId (env.receiver, senderId) st.generated =
      some (i, gtx))
    (h : scheduleDeferredTransaction env st senderId payer trxId packedTrx replaceExisting = .ok st')
    (b : Nat) :
    unbilled st' b =
      unbilled st b + charge GeneratedTransactionObject.payer GeneratedTransactionObject.billableSize b gtx := by
  obtain ⟨st1, hcharge, hst1⟩ := scheduleDeferredTransaction_eq_ok h
  rw [hold] at hst1
  subst hst1
  obtain ⟨l1, rfl, hc1⟩ := addRamUsage_eq_ok hcharge
  have hb1 := hc1 b
  simp only [unbilled, billed, billedBy_set (findKey_get hold).1, charge,
    GeneratedTransactionObject.billableSize] at hb1 ⊢
  split_ifs at hb1 ⊢ <;> omega

end Paths

/-! ## Runs -/

/-- the action schedules a deferred transaction in place of one the receiver already has -/
def replacesDeferred (st : RamState) : ApplyEnv × RamAction → Bool
  | (env, .scheduleDeferred senderId _ _ _ _) =>
    (findKey GeneratedTransactionObject.bySenderId (env.receiver, senderId) st.generated).isSome
  | _ => false

theorem step_conserves {st st' : RamState} {a : ApplyEnv × RamAction} (h : step st a = .ok st')
    (hnew : replacesDeferred st a = false) : Conserves st st' := by
  obtain ⟨env, act⟩ := a
  cases act with
  | dbStoreI64 => exact dbStoreI64_conserves h
  | dbUpdateI64 => exact dbUpdateI64_conserves h
  | dbRemoveI64 => exact dbRemoveI64_conserves h
  | scheduleDeferred =>
    exact scheduleDeferredTransaction_conserves (by simpa [replacesDeferred] using hnew) h
  | cancelDeferred =>
    obtain ⟨⟨st1, _⟩, h1, rfl⟩ := map_eq_ok.mp h
    exact cancelDeferredTransaction_conserves h1
  | retireScheduled => exact removeScheduledTransaction_conserves h

theorem ramExact_init (m : ResourceLimitsManager) : RamExact (ramUsage m ·) { limits := m } := by
  intro a
  simp [billed, billedBy]

/-- two accounts with their resource rows, as `newaccount` leaves them -/
def sampleLimits : ResourceLimitsManager :=
  exec Resource.step ResourceLimitsManager.initializeDatabase [.initializeAccount 1, .initializeAccount 2]

/-- a contract `1` acting in its own action on a validating node -/
def sampleEnv : ApplyEnv :=
  { receiver := 1, actAccount := 1, privileged := false, ramBillingInNotifyAllowed := false,
    isProducingBlock := false, authorized := fun _ => true, deferredChecks := true }

/-- `1` schedules a transaction of 10 bytes at its own expense, replaces it by one that `2`
pays for, and the controller retires that one -/
def sampleDeferredRun : List (ApplyEnv × RamAction) :=
  [(sampleEnv, .scheduleDeferred 7 1 100 (List.replicate 10 0) false),
   (sampleEnv, .scheduleDeferred 7 2 101 (List.replicate 10 0) true),
   (sampleEnv, .retireScheduled 1 7)]

def sampleRamState : RamState := exec step { limits := sampleLimits } sampleDeferredRun

theorem deferred_replace_leaks_ram :
    RamExact (ramUsage sampleLimits ·) { limits := sampleLimits } ∧
      Reachable step { limits := sampleLimits } sampleRamState ∧
      sampleRamState.generated = [] ∧ ramUsage sampleRamState.limits 1 = 282 ∧
      ¬ RamExact (ramUsage sampleLimits ·) sampleRamState := by
  refine ⟨ramExact_init sampleLimits, reachable_exec _, by decide, by decide, fun hexact => ?_⟩
  have h1 := hexact 1
  revert h1
  decide

end Eos.Ram
