import Mathlib
import Eoscochain.Chain.Types
import Eoscochain.Token.EosioToken

/-!
# Staking in eosio.system

contracts/eosio.system delegate_bandwidth.cpp: `delegatebw`, `undelegatebw` and `refund`, which
move tokens between an account and `eosio.stake` through eosio.token, and `buyram`/`sellram`,
which move them to and from `eosio.ram`.  The tables are lists of rows of all scopes, each row
under the key `(scope, primary key)`:

* `delband`   `delegated_bandwidth`, the stake from `from` to `to`, in the scope of `from`;
* `userres`   `user_resources`, what `owner` has staked to it and the RAM it bought;
* `refunds`   `refund_request`, what `owner` has unstaked and not yet been refunded;
* `voters`    `voter_info`, the stake `owner` votes with.

`changebw` is four blocks, as the source comments them: `updateDelband`, `updateTotals`,
`updateRefund` and `updateVoters`; the inline `transfer` it sends to eosio.token runs after it.

Left out, since no table of the ledger reads them: the deferred `refund` transaction that
`changebw` sends or cancels (here the `refund` action may run at any time), `set_resource_limits`,
the vote weights `update_votes` propagates, and the state of the RAM market, whose conversions
are given by the environment.  `validate_b1_vesting` computes in `double`, here exactly.
-/

set_option linter.unusedSectionVars false

namespace Eos.EosioSystem

open Machine Table
open Token (Asset symbolName isValidSymbol)
open EosioToken (TokenState TokenEnv heldIn heldOf)

/-- `N(name)` -/
def accountName (str : String) : UInt64 := UInt64.ofNat (stringToName str)

def stakeAccount : UInt64 := accountName "eosio.stake"
def ramAccount : UInt64 := accountName "eosio.ram"
def ramfeeAccount : UInt64 := accountName "eosio.ramfee"
def tokenAccount : UInt64 := accountName "eosio.token"
def b1Account : UInt64 := accountName "b1"

/-- `CORE_SYMBOL`, `S(4,SYS)` -/
def coreSymbol : UInt64 := 4 + 83 * 256 + 89 * 256 ^ 2 + 83 * 256 ^ 3

/-- `asset(0)` -/
def zeroAsset : Asset := ⟨0, coreSymbol⟩

/-- `asset(a)`, of the core symbol -/
def coreAsset (a : Int) : Except String Asset := do
  assert (Asset.isAmountWithinRange ⟨a, coreSymbol⟩) "magnitude of asset amount must be less than 2^62"
  assert (isValidSymbol coreSymbol) "invalid symbol name"
  pure ⟨a, coreSymbol⟩

/-- `delegated_bandwidth` -/
structure DelegatedBandwidth where
  from' : UInt64
  to' : UInt64
  netWeight : Asset
  cpuWeight : Asset
  deriving DecidableEq, Repr

/-- the scope and the primary key of a `delband` row -/
def DelegatedBandwidth.key (d : DelegatedBandwidth) : UInt64 × UInt64 := (d.from', d.to')

/-- `user_resources` -/
structure UserResources where
  owner : UInt64
  netWeight : Asset
  cpuWeight : Asset
  ramBytes : Int := 0
  deriving DecidableEq, Repr

/-- `refund_request` -/
structure RefundRequest where
  owner : UInt64
  requestTime : Nat
  netAmount : Asset
  cpuAmount : Asset
  deriving DecidableEq, Repr

/-- `voter_info`; the producers and the proxy it votes for are left out -/
structure VoterInfo where
  owner : UInt64
  staked : Int
  deriving DecidableEq, Repr

/-- the tables of eosio.system and eosio.token these actions touch, and the fields of
`_gstate` they read -/
structure SystemState where
  token : TokenState := {}
  userres : List UserResources := []
  delband : List DelegatedBandwidth := []
  refunds : List RefundRequest := []
  voters : List VoterInfo := []
  totalRamBytesReserved : Nat := 0
  totalRamStake : Int := 0
  refundDelay : Nat := 3 * 24 * 3600

/-- what the chain gives an action -/
structure SystemEnv where
  auth : List UInt64
  isAccount : UInt64 → Bool
  /-- `now()`, in seconds -/
  now : Nat
  /-- `_gstate.total_activated_stake >= _gstate.min_activated_stake` -/
  activated : Bool
  /-- the row `S(4,RAMCORE)` of `_rammarket` exists -/
  ramMarket : Bool
  /-- `convert(quant_after_fee, S(0,RAM)).amount` of the market -/
  ramBytesOut : Asset → Int
  /-- `convert(asset(bytes,S(0,RAM)), core_symbol())` of the market -/
  ramTokensOut : Int → Asset

/-- `require_auth` -/
def requireAuth (env : SystemEnv) (account : UInt64) : Except String Unit :=
  assert (env.auth.contains account) "missing authority of ${account}"

/-- an inline `transfer` of eosio.token with the authority of `actor` -/
def sendTransfer (env : SystemEnv) (st : SystemState) (actor from' to' : UInt64) (quantity : Asset)
    (memo : String) : Except String SystemState := do
  let token ← EosioToken.transfer { self := tokenAccount, auth := [actor], isAccount := env.isAccount }
    st.token from' to' quantity memo
  pure { st with token }

/-! ## `changebw` -/

/-- the block "update stake delegated from `from` to `receiver`" -/
def updateDelband (st : SystemState) (from' receiver : UInt64) (stakeNetDelta stakeCpuDelta : Asset) :
    Except String SystemState := do
  let (rows, i, dbo) ← (match findKey DelegatedBandwidth.key (from', receiver) st.delband with
    | none =>
      let dbo : DelegatedBandwidth := ⟨from', receiver, stakeNetDelta, stakeCpuDelta⟩
      pure (st.delband ++ [dbo], st.delband.length, dbo)
    | some (i, dbo) => do
      let netWeight ← dbo.netWeight.add stakeNetDelta
      let cpuWeight ← dbo.cpuWeight.add stakeCpuDelta
      let dbo := { dbo with netWeight, cpuWeight }
      pure (st.delband.set i dbo, i, dbo))
  let netOk ← zeroAsset.le dbo.netWeight
  assert netOk "insufficient staked net bandwidth"
  let cpuOk ← zeroAsset.le dbo.cpuWeight
  assert cpuOk "insufficient staked cpu bandwidth"
  let netZero ← dbo.netWeight.eq zeroAsset
  let isZero ← (if netZero then dbo.cpuWeight.eq zeroAsset else pure false)
  pure { st with delband := if isZero then rows.eraseIdx i else rows }

/-- the block "update totals of `receiver`" -/
def updateTotals (st : SystemState) (receiver : UInt64) (stakeNetDelta stakeCpuDelta : Asset) :
    Except String SystemState := do
  let (rows, i, tot) ← (match findKey UserResources.owner receiver st.userres with
    | none =>
      let tot : UserResources := { owner := receiver, netWeight := stakeNetDelta, cpuWeight := stakeCpuDelta }
      pure (st.userres ++ [tot], st.userres.length, tot)
    | some (i, tot) => do
      let netWeight ← tot.netWeight.add stakeNetDelta
      let cpuWeight ← tot.cpuWeight.add stakeCpuDelta
      let tot := { tot with netWeight, cpuWeight }
      pure (st.userres.set i tot, i, tot))
  let netOk ← zeroAsset.le tot.netWeight
  assert netOk "insufficient staked total net bandwidth"
  let cpuOk ← zeroAsset.le tot.cpuWeight
  assert cpuOk "insufficient staked total cpu bandwidth"
  -- `set_resource_limits( receiver, ... )` is left out
  let netZero ← tot.netWeight.eq zeroAsset
  let weightless ← (if netZero then tot.cpuWeight.eq zeroAsset else pure false)
  let isZero := weightless && tot.ramBytes == 0
  pure { st with userres := if isZero then rows.eraseIdx i else rows }

/-- the `modify` of an existing refund request: the stake delegated back to oneself comes out
of the refund first, the stake undelegated goes into it; what is left of the balances -/
def takeFromRefund (now : Nat) (r : RefundRequest) (netBalance cpuBalance : Asset) :
    Except String (RefundRequest × Asset × Asset) := do
  let netNeg ← netBalance.lt zeroAsset
  let neg ← (if netNeg then pure true else cpuBalance.lt zeroAsset)
  let r := if neg then { r with requestTime := now } else r
  let netAmount ← r.netAmount.sub netBalance
  let netNeg ← netAmount.lt zeroAsset
  let (netAmount, netBalance) := if netNeg then (zeroAsset, netAmount.neg) else (netAmount, zeroAsset)
  let cpuAmount ← r.cpuAmount.sub cpuBalance
  let cpuNeg ← cpuAmount.lt zeroAsset
  let (cpuAmount, cpuBalance) := if cpuNeg then (zeroAsset, cpuAmount.neg) else (cpuAmount, zeroAsset)
  pure ({ r with netAmount, cpuAmount }, netBalance, cpuBalance)

/-- the `emplace` of a new refund request: what is undelegated goes into it -/
def newRefund (now : Nat) (owner : UInt64) (netBalance cpuBalance : Asset) :
    Except String (RefundRequest × Asset × Asset) := do
  let netNeg ← netBalance.lt zeroAsset
  let (netAmount, netBalance) := if netNeg then (netBalance.neg, zeroAsset) else (zeroAsset, netBalance)
  let cpuNeg ← cpuBalance.lt zeroAsset
  let (cpuAmount, cpuBalance) := if cpuNeg then (cpuBalance.neg, zeroAsset) else (zeroAsset, cpuBalance)
  pure (⟨owner, now, netAmount, cpuAmount⟩, netBalance, cpuBalance)

/-- "create/update/delete refund": the refund requests after the deltas of `from`, and what is
left of the deltas to transfer -/
def refundBalances (now : Nat) (refunds : List RefundRequest) (from' : UInt64)
    (stakeNetDelta stakeCpuDelta : Asset) : Except String (List RefundRequest × Asset × Asset) :=
  match findKey RefundRequest.owner from' refunds with
  | some (i, req) => do
    let (req, netBalance, cpuBalance) ← takeFromRefund now req stakeNetDelta stakeCpuDelta
    let netOk ← zeroAsset.le req.netAmount
    assert netOk "negative net refund amount"
    let cpuOk ← zeroAsset.le req.cpuAmount
    assert cpuOk "negative cpu refund amount"
    let netZero ← req.netAmount.eq zeroAsset
    let isZero ← (if netZero then req.cpuAmount.eq zeroAsset else pure false)
    pure (if isZero then refunds.eraseIdx i else refunds.set i req, netBalance, cpuBalance)
  | none => do
    let netNeg ← stakeNetDelta.lt zeroAsset
    let neg ← (if netNeg then pure true else stakeCpuDelta.lt zeroAsset)
    if neg then do
      let (req, netBalance, cpuBalance) ← newRefund now from' stakeNetDelta stakeCpuDelta
      pure (refunds ++ [req], netBalance, cpuBalance)
    else pure (refunds, stakeNetDelta, stakeCpuDelta)

/-- the block "create refund or update from existing refund", with the amount of the inline
`transfer` to `eosio.stake` it sends, if any -/
def updateRefund (env : SystemEnv) (st : SystemState) (from' receiver : UInt64)
    (stakeNetDelta stakeCpuDelta : Asset) (transfer : Bool) :
    Except String (SystemState × Option Asset) := do
  let isUndelegating := decide (stakeNetDelta.amount + stakeCpuDelta.amount < 0)
  let isDelegatingToSelf := !transfer && from' == receiver
  let (refunds, netBalance, cpuBalance) ←
    (if isDelegatingToSelf || isUndelegating then
      refundBalances env.now st.refunds from' stakeNetDelta stakeCpuDelta
    else pure (st.refunds, stakeNetDelta, stakeCpuDelta))
  -- the deferred `refund` transaction is sent or cancelled here: left out
  let transferAmount ← netBalance.add cpuBalance
  let positive ← zeroAsset.lt transferAmount
  pure ({ st with refunds }, if positive then some transferAmount else none)

/-- `seconds_per_year` -/
def secondsPerYear : Int := 52 * 7 * 24 * 3600

/-- `validate_b1_vesting` -/
def validateB1Vesting (env : SystemEnv) (stake : Int) : Except String Unit := do
  let baseTime : Int := 1527811200
  let maxClaimable : Int := 100000000 * 10000
  let claimable := maxClaimable * ((env.now : Int) - baseTime) / (10 * secondsPerYear)
  assert (decide (maxClaimable - claimable ≤ stake)) "b1 can only claim their tokens over 10 years"

/-- the block "update voting power" -/
def updateVoters (env : SystemEnv) (st : SystemState) (from' : UInt64) (stakeNetDelta stakeCpuDelta : Asset) :
    Except String SystemState := do
  let totalUpdate ← stakeNetDelta.add stakeCpuDelta
  let (voters, staked) := match findKey VoterInfo.owner from' st.voters with
    | none => (st.voters ++ [⟨from', totalUpdate.amount⟩], totalUpdate.amount)
    | some (i, v) =>
      (st.voters.set i { v with staked := v.staked + totalUpdate.amount }, v.staked + totalUpdate.amount)
  assert (decide (0 ≤ staked)) "stake for voting cannot be negative"
  if from' == b1Account then validateB1Vesting env staked
  -- `update_votes` of a voter with producers or a proxy is left out
  pure { st with voters }

/-- `system_contract::changebw`; its inline `transfer` runs after it -/
def changebw (env : SystemEnv) (st : SystemState) (from' receiver : UInt64)
    (stakeNetDelta stakeCpuDelta : Asset) (transfer : Bool) : Except String SystemState := do
  requireAuth env from'
  -- `stake_net_delta != asset(0) || stake_cpu_delta != asset(0)`
  let netZero ← stakeNetDelta.eq zeroAsset
  let nonzero ← (if !netZero then pure true else do
    let cpuZero ← stakeCpuDelta.eq zeroAsset
    pure !cpuZero)
  assert nonzero "should stake non-zero amount"
  let total ← stakeNetDelta.add stakeCpuDelta
  assert (decide (max |stakeNetDelta.amount| |stakeCpuDelta.amount| ≤ |total.amount|))
    "net and cpu deltas cannot be opposite signs"
  let sourceStakeFrom := from'
  let from' := if transfer then receiver else from'
  let st ← updateDelband st from' receiver stakeNetDelta stakeCpuDelta
  let st ← updateTotals st receiver stakeNetDelta stakeCpuDelta
  let (st, stakeTransfer) ←
    (if stakeAccount != sourceStakeFrom then
      updateRefund env st from' receiver stakeNetDelta stakeCpuDelta transfer
    else pure (st, none))
  let st ← updateVoters env st from' stakeNetDelta stakeCpuDelta
  match stakeTransfer with
  | some amount => sendTransfer env st sourceStakeFrom sourceStakeFrom stakeAccount amount "stake bandwidth"
  | none => pure st

/-! ## The actions -/

/-- `system_contract::delegatebw` -/
def delegatebw (env : SystemEnv) (st : SystemState) (from' receiver : UInt64)
    (stakeNetQuantity stakeCpuQuantity : Asset) (transfer : Bool) : Except String SystemState := do
  let cpuOk ← zeroAsset.le stakeCpuQuantity
  assert cpuOk "must stake a positive amount"
  let netOk ← zeroAsset.le stakeNetQuantity
  assert netOk "must stake a positive amount"
  let total ← stakeNetQuantity.add stakeCpuQuantity
  let positive ← zeroAsset.lt total
  assert positive "must stake a positive amount"
  assert (!transfer || from' != receiver) "cannot use transfer flag if delegating to self"
  changebw env st from' receiver stakeNetQuantity stakeCpuQuantity transfer

/-- `system_contract::undelegatebw` -/
def undelegatebw (env : SystemEnv) (st : SystemState) (from' receiver : UInt64)
    (unstakeNetQuantity unstakeCpuQuantity : Asset) : Except String SystemState := do
  let cpuOk ← zeroAsset.le unstakeCpuQuantity
  assert cpuOk "must unstake a positive amount"
  let netOk ← zeroAsset.le unstakeNetQuantity
  assert netOk "must unstake a positive amount"
  let total ← unstakeCpuQuantity.add unstakeNetQuantity
  let positive ← zeroAsset.lt total
  assert positive "must unstake a positive amount"
  assert env.activated
    "cannot undelegate bandwidth until the chain is activated (at least 15% of all tokens participate in voting)"
  changebw env st from' receiver unstakeNetQuantity.neg unstakeCpuQuantity.neg false

/-- `system_contract::refund`; `request_time + refund_delay` is a `uint32_t` sum -/
def refund (env : SystemEnv) (st : SystemState) (owner : UInt64) : Except String SystemState := do
  requireAuth env owner
  let (i, req) ← getKey RefundRequest.owner owner st.refunds "refund request not found"
  assert (decide ((req.requestTime + st.refundDelay) % 2 ^ 32 ≤ env.now)) "refund is not available yet"
  let amount ← req.netAmount.add req.cpuAmount
  let st := { st with refunds := st.refunds.eraseIdx i }
  sendTransfer env st stakeAccount stakeAccount req.owner amount "unstake"

/-- `system_contract::buyram`; its inline transfers run after it -/
def buyram (env : SystemEnv) (st : SystemState) (payer receiver : UInt64) (quant : Asset) :
    Except String SystemState := do
  requireAuth env payer
  assert (decide (quant.amount > 0)) "must purchase a positive amount"
  let fee := { quant with amount := (quant.amount + 199) / 200 }
  let quantAfterFee := { quant with amount := quant.amount - fee.amount }
  assert env.ramMarket "ram market does not exist"
  let bytesOut := env.ramBytesOut quantAfterFee
  assert (decide (bytesOut > 0)) "must reserve a positive amount"
  let st := { st with
    totalRamBytesReserved := (st.totalRamBytesReserved + bytesOut.toNat) % 2 ^ 64
    totalRamStake := st.totalRamStake + quantAfterFee.amount }
  let userres := match findKey UserResources.owner receiver st.userres with
    | none => st.userres ++ [{ owner := receiver, netWeight := zeroAsset, cpuWeight := zeroAsset, ramBytes := bytesOut }]
    | some (i, res) => st.userres.set i { res with ramBytes := res.ramBytes + bytesOut }
  -- `set_resource_limits( res_itr->owner, ... )` is left out
  let st := { st with userres }
  let st ← sendTransfer env st payer payer ramAccount quantAfterFee "buy ram"
  if fee.amount > 0 then sendTransfer env st payer payer ramfeeAccount fee "ram fee" else pure st

/-- `system_contract::sellram`; its inline transfers run after it -/
def sellram (env : SystemEnv) (st : SystemState) (account : UInt64) (bytes : Int) :
    Except String SystemState := do
  requireAuth env account
  assert (decide (bytes > 0)) "cannot sell negative byte"
  let (i, res) ← getKey UserResources.owner account st.userres "no resource row"
  assert (decide (res.ramBytes ≥ bytes)) "insufficient quota"
  assert env.ramMarket "cannot pass end iterator to modify"
  let tokensOut := env.ramTokensOut bytes
  assert (decide (tokensOut.amount > 1)) "token amount received from selling ram is too low"
  let totalRamStake := st.totalRamStake - tokensOut.amount
  assert (decide (totalRamStake ≥ 0)) "error, attempt to unstake more tokens than previously staked"
  let st := { st with
    totalRamBytesReserved := (st.totalRamBytesReserved + 2 ^ 64 - bytes.toNat % 2 ^ 64) % 2 ^ 64
    totalRamStake
    userres := st.userres.set i { res with ramBytes := res.ramBytes - bytes } }
  let st ← sendTransfer env st ramAccount ramAccount account tokensOut "sell ram"
  let fee := (tokensOut.amount + 199) / 200
  if fee > 0 then do
    let fee ← coreAsset fee
    sendTransfer env st account account ramfeeAccount fee "sell ram fee"
  else pure st

inductive SystemAction
  | delegatebw (from' receiver : UInt64) (stakeNetQuantity stakeCpuQuantity : Asset) (transfer : Bool)
  | undelegatebw (from' receiver : UInt64) (unstakeNetQuantity unstakeCpuQuantity : Asset)
  | refund (owner : UInt64)
  | buyram (payer receiver : UInt64) (quant : Asset)
  | sellram (account : UInt64) (bytes : Int)
  /-- an action of eosio.token -/
  | token (action : EosioToken.TokenAction)
  deriving DecidableEq, Repr

def apply (env : SystemEnv) (st : SystemState) : SystemAction → Except String SystemState
  | .delegatebw from' receiver net cpu transfer => delegatebw env st from' receiver net cpu transfer
  | .undelegatebw from' receiver net cpu => undelegatebw env st from' receiver net cpu
  | .refund owner => refund env st owner
  | .buyram payer receiver quant => buyram env st payer receiver quant
  | .sellram account bytes => sellram env st account bytes
  | .token action => do
    let token ← EosioToken.apply { self := tokenAccount, auth := env.auth, isAccount := env.isAccount }
      st.token action
    pure { st with token }

def step (st : SystemState) (e : SystemEnv × SystemAction) : Except String SystemState :=
  apply e.1 st e.2

/-- the account an action is taken by: the one whose authority it needs -/
def actor : SystemAction → Option UInt64
  | .delegatebw from' .. => some from'
  | .undelegatebw from' .. => some from'
  | .refund owner => some owner
  | .buyram payer .. => some payer
  | .sellram account _ => some account
  | .token (.transfer from' ..) => some from'
  | .token _ => none

/-! ## The ledger -/

/-- the weight of a `delband` row in a sum over the rows whose key satisfies `p`: its net
weight counted `a` times and its cpu weight `b` times -/
def DelegatedBandwidth.weight (p : UInt64 × UInt64 → Bool) (a b : Int) (d : DelegatedBandwidth) : Int :=
  if p d.key then a * d.netWeight.amount + b * d.cpuWeight.amount else 0

/-- `Σ_f delband(f, r).net_weight` -/
def delegatedNet (st : SystemState) (r : UInt64) : Int :=
  (st.delband.map (DelegatedBandwidth.weight (·.2 == r) 1 0)).sum

/-- `Σ_f delband(f, r).cpu_weight` -/
def delegatedCpu (st : SystemState) (r : UInt64) : Int :=
  (st.delband.map (DelegatedBandwidth.weight (·.2 == r) 0 1)).sum

/-- `Σ_r delband(f, r).net_weight + delband(f, r).cpu_weight` -/
def delegatedBy (st : SystemState) (f : UInt64) : Int :=
  (st.delband.map (DelegatedBandwidth.weight (·.1 == f) 1 1)).sum

/-- all the stake delegated -/
def totalDelegated (st : SystemState) : Int :=
  (st.delband.map (DelegatedBandwidth.weight (fun _ => true) 1 1)).sum

/-- what a refund request is for -/
def RefundRequest.total (r : RefundRequest) : Int := r.netAmount.amount + r.cpuAmount.amount

/-- all the stake waiting to be refunded -/
def totalRefunding (st : SystemState) : Int := (st.refunds.map RefundRequest.total).sum

/-- the balance of `eosio.stake` in the core token -/
def stakeBalance (st : SystemState) : Int :=
  heldIn (st.token.accounts stakeAccount) (symbolName coreSymbol)

/-- what `eosio.stake` owes: all the stake delegated and all the refunds pending -/
def stakeOwed (st : SystemState) : Int := totalDelegated st + totalRefunding st

/-- `user_resources[r].net_weight`; nothing for an account without a row -/
def netWeightOf (st : SystemState) (r : UInt64) : Int :=
  match findKey UserResources.owner r st.userres with
  | some (_, u) => u.netWeight.amount
  | none => 0

/-- `user_resources[r].cpu_weight`; nothing for an account without a row -/
def cpuWeightOf (st : SystemState) (r : UInt64) : Int :=
  match findKey UserResources.owner r st.userres with
  | some (_, u) => u.cpuWeight.amount
  | none => 0

/-- `voters[f].staked`; nothing for an account without a row -/
def stakedOf (st : SystemState) (f : UInt64) : Int :=
  match findKey VoterInfo.owner f st.voters with
  | some (_, v) => v.staked
  | none => 0

/-! ## What each block of `changebw` does to the ledger -/

section Blocks
variable {env : SystemEnv} {st st' : SystemState}

theorem weight_add (p : UInt64 × UInt64 → Bool) (a b : Int) (d : DelegatedBandwidth) (n c : Asset) :
    DelegatedBandwidth.weight p a b { d with
        netWeight := { d.netWeight with amount := d.netWeight.amount + n.amount }
        cpuWeight := { d.cpuWeight with amount := d.cpuWeight.amount + c.amount } } =
      DelegatedBandwidth.weight p a b d + if p d.key then a * n.amount + b * c.amount else 0 := by
  unfold DelegatedBandwidth.weight DelegatedBandwidth.key
  split_ifs <;> ring

theorem amount_eq_zero_of_eq {a b : Asset} {az z : Bool} (ha : a.eq zeroAsset = .ok az)
    (hz : (if az = true then b.eq zeroAsset else pure false) = .ok z) (h : z = true) :
    a.amount = 0 ∧ b.amount = 0 := by
  obtain ⟨-, rfl⟩ := Asset.compareWith_eq_ok ha
  subst h
  split at hz
  · next ha0 =>
    obtain ⟨-, hb0⟩ := Asset.compareWith_eq_ok hz
    exact ⟨of_decide_eq_true ha0, of_decide_eq_true hb0.symm⟩
  · cases hz

theorem sum_map_eraseIdx_of_zero {α : Type} {rows : List α} {i : Nat} {x : α} (g : α → Int)
    (hi : rows[i]? = some x) (hx : g x = 0) : ((rows.eraseIdx i).map g).sum = (rows.map g).sum := by
  obtain ⟨hlt, rfl⟩ := List.getElem?_eq_some_iff.mp hi
  rw [sum_map_eraseIdx g rows i hlt, hx, Int.sub_zero]

theorem updateDelband_spec {from' receiver : UInt64} {net cpu : Asset}
    (h : updateDelband st from' receiver net cpu = .ok st') :
    ∃ rows, st' = { st with delband := rows } ∧ net.symbol = coreSymbol ∧ cpu.symbol = coreSymbol ∧
      ∀ p a b, (rows.map (DelegatedBandwidth.weight p a b)).sum =
        (st.delband.map (DelegatedBandwidth.weight p a b)).sum +
          if p (from', receiver) then a * net.amount + b * cpu.amount else 0 := by
  unfold updateDelband at h
  obtain ⟨⟨rows, i, dbo⟩, hm, h⟩ := bind_eq_ok.mp h
  obtain ⟨_, hnet, h⟩ := bind_eq_ok.mp h
  obtain ⟨-, h⟩ := assert_bind_eq_ok.mp h
  obtain ⟨_, hcpu, h⟩ := bind_eq_ok.mp h
  obtain ⟨-, h⟩ := assert_bind_eq_ok.mp h
  obtain ⟨_, hnz, h⟩ := bind_eq_ok.mp h
  obtain ⟨isZero, hz, h⟩ := bind_eq_ok.mp h
  cases h
  have hsn := (Asset.compareWith_eq_ok hnet).1
  have hsc := (Asset.compareWith_eq_ok hcpu).1
  have hrow : rows[i]? = some dbo ∧ net.symbol = dbo.netWeight.symbol ∧ cpu.symbol = dbo.cpuWeight.symbol ∧
      ∀ p a b, (rows.map (DelegatedBandwidth.weight p a b)).sum =
        (st.delband.map (DelegatedBandwidth.weight p a b)).sum +
          if p (from', receiver) then a * net.amount + b * cpu.amount else 0 := by
    split at hm
    · cases hm
      refine ⟨List.getElem?_concat_length .., rfl, rfl, fun p a b => ?_⟩
      rw [List.map_append, List.sum_append, List.map_singleton, List.sum_singleton]
      rfl
    · rename_i d hfind
      obtain ⟨netWeight, hn, hm⟩ := bind_eq_ok.mp hm
      obtain ⟨cpuWeight, hc, hm⟩ := bind_eq_ok.mp hm
      cases hm
      obtain ⟨hnsym, rfl⟩ := Asset.add_eq_ok hn
      obtain ⟨hcsym, rfl⟩ := Asset.add_eq_ok hc
      obtain ⟨hj, hkey⟩ := findKey_get hfind
      obtain ⟨hlt, rfl⟩ := List.getElem?_eq_some_iff.mp hj
      refine ⟨List.getElem?_set_self hlt, hnsym, hcsym, fun p a b => ?_⟩
      rw [sum_map_set _ st.delband i _ hlt, weight_add, hkey]
      omega
  obtain ⟨hi, hns, hcs, hsum⟩ := hrow
  refine ⟨_, rfl, hns.trans hsn.symm, hcs.trans hsc.symm, fun p a b => ?_⟩
  split
  · -- a row that comes to nothing is erased, and weighed nothing
    next hzero =>
    obtain ⟨h0, h1⟩ := amount_eq_zero_of_eq hnz hz hzero
    rw [sum_map_eraseIdx_of_zero _ hi (by simp [DelegatedBandwidth.weight, h0, h1]), hsum]
  · exact hsum p a b

theorem nodup_map_eraseIdx {α κ : Type} {key : α → κ} {rows : List α} (i : Nat)
    (h : (rows.map key).Nodup) : ((rows.eraseIdx i).map key).Nodup :=
  h.sublist ((List.eraseIdx_sublist rows i).map key)

theorem updateTotals_spec {receiver : UInt64} {net cpu : Asset}
    (h : updateTotals st receiver net cpu = .ok st') :
    ∃ rows, st' = { st with userres := rows } ∧
      ((st.userres.map UserResources.owner).Nodup → (rows.map UserResources.owner).Nodup) ∧
      ∀ r, sumBy UserResources.owner (·.netWeight.amount) r rows =
          sumBy UserResources.owner (·.netWeight.amount) r st.userres + (if receiver = r then net.amount else 0) ∧
        sumBy UserResources.owner (·.cpuWeight.amount) r rows =
          sumBy UserResources.owner (·.cpuWeight.amount) r st.userres + if receiver = r then cpu.amount else 0 := by
  unfold updateTotals at h
  obtain ⟨⟨rows, i, tot⟩, hm, h⟩ := bind_eq_ok.mp h
  obtain ⟨_, -, h⟩ := bind_eq_ok.mp h
  obtain ⟨-, h⟩ := assert_bind_eq_ok.mp h
  obtain ⟨_, -, h⟩ := bind_eq_ok.mp h
  obtain ⟨-, h⟩ := assert_bind_eq_ok.mp h
  obtain ⟨_, hnz, h⟩ := bind_eq_ok.mp h
  obtain ⟨weightless, hz, h⟩ := bind_eq_ok.mp h
  cases h
  have hrow : rows[i]? = some tot ∧ tot.owner = receiver ∧
      ((st.userres.map UserResources.owner).Nodup → (rows.map UserResources.owner).Nodup) ∧
      ∀ r, sumBy UserResources.owner (·.netWeight.amount) r rows =
          sumBy UserResources.owner (·.netWeight.amount) r st.userres + (if receiver = r then net.amount else 0) ∧
        sumBy UserResources.owner (·.cpuWeight.amount) r rows =
          sumBy UserResources.owner (·.cpuWeight.amount) r st.userres + if receiver = r then cpu.amount else 0 := by
    split at hm
    · next hfind =>
      cases hm
      refine ⟨List.getElem?_concat_length .., rfl, fun hnodup => nodup_map_append hnodup (findKey_eq_none hfind),
        fun r => ⟨sumBy_append _, sumBy_append _⟩⟩
    · rename_i u hfind
      obtain ⟨netWeight, hn, hm⟩ := bind_eq_ok.mp hm
      obtain ⟨cpuWeight, hc, hm⟩ := bind_eq_ok.mp hm
      cases hm
      obtain ⟨-, rfl⟩ := Asset.add_eq_ok hn
      obtain ⟨-, rfl⟩ := Asset.add_eq_ok hc
      obtain ⟨hu, hkey⟩ := findKey_get hfind
      obtain ⟨hlt, rfl⟩ := List.getElem?_eq_some_iff.mp hu
      refine ⟨List.getElem?_set_self hlt, hkey, fun hnodup => ?_, fun r => ?_⟩
      · rw [map_set_of_key hlt]
        · exact hnodup
        · rfl
      rw [sumBy_set hu, sumBy_set hu]
      dsimp only
      rw [hkey]
      constructor <;> split_ifs <;> omega
  obtain ⟨hi, howner, hnodup, hsum⟩ := hrow
  refine ⟨_, rfl, ?_, fun r => ?_⟩
  · intro h0
    split
    · exact nodup_map_eraseIdx i (hnodup h0)
    · exact hnodup h0
  · split
    · -- a row that comes to nothing is erased, and held nothing
      next hzero =>
      obtain ⟨h0, h1⟩ := amount_eq_zero_of_eq hnz hz (Bool.and_eq_true_iff.mp hzero).1
      rw [sumBy_eraseIdx hi, sumBy_eraseIdx hi, h0, h1]
      simp only [ite_self, Int.sub_zero]
      exact hsum r
    · exact hsum r

theorem updateVoters_spec {from' : UInt64} {net cpu : Asset}
    (h : updateVoters env st from' net cpu = .ok st') :
    ∃ voters, st' = { st with voters } ∧
      ((st.voters.map VoterInfo.owner).Nodup → (voters.map VoterInfo.owner).Nodup) ∧
      ∀ f, sumBy VoterInfo.owner (·.staked) f voters =
        sumBy VoterInfo.owner (·.staked) f st.voters + if from' = f then net.amount + cpu.amount else 0 := by
  unfold updateVoters at h
  obtain ⟨total, htotal, h⟩ := bind_eq_ok.mp h
  obtain ⟨-, rfl⟩ := Asset.add_eq_ok htotal
  cases hfind : findKey VoterInfo.owner from' st.voters with
  | none =>
    rw [hfind] at h
    obtain ⟨-, h⟩ := assert_bind_eq_ok.mp h
    dsimp only at h
    cases ite_bind_eq_ok h
    exact ⟨_, rfl, fun hnodup => nodup_map_append hnodup (findKey_eq_none hfind), fun f => sumBy_append _⟩
  | some p =>
    obtain ⟨i, v⟩ := p
    rw [hfind] at h
    obtain ⟨-, h⟩ := assert_bind_eq_ok.mp h
    dsimp only at h
    cases ite_bind_eq_ok h
    obtain ⟨hv, hkey⟩ := findKey_get hfind
    obtain ⟨hlt, rfl⟩ := List.getElem?_eq_some_iff.mp hv
    refine ⟨_, rfl, fun hnodup => ?_, fun f => ?_⟩
    · rw [map_set_of_key hlt]
      · exact hnodup
      · rfl
    · rw [sumBy_set hv]
      dsimp only
      rw [hkey]
      split_ifs <;> omega

theorem settle_spec {x b a : Asset} {neg : Bool} (hsub : x.sub b = .ok a) (hlt : a.lt zeroAsset = .ok neg) :
    (if neg then (zeroAsset, a.neg) else (a, zeroAsset)).1.symbol = coreSymbol ∧
      (if neg then (zeroAsset, a.neg) else (a, zeroAsset)).2.symbol = coreSymbol ∧
      (if neg then (zeroAsset, a.neg) else (a, zeroAsset)).1.amount -
        (if neg then (zeroAsset, a.neg) else (a, zeroAsset)).2.amount = x.amount - b.amount ∧
      0 ≤ (if neg then (zeroAsset, a.neg) else (a, zeroAsset)).2.amount := by
  obtain ⟨-, rfl⟩ := Asset.sub_eq_ok hsub
  obtain ⟨hsym, rfl⟩ := Asset.compareWith_eq_ok hlt
  split
  · next hneg =>
    have hneg : x.amount - b.amount < 0 := of_decide_eq_true hneg
    refine ⟨rfl, hsym, ?_, ?_⟩
    · show 0 - -(x.amount - b.amount) = x.amount - b.amount
      omega
    · show 0 ≤ -(x.amount - b.amount)
      omega
  · exact ⟨hsym, rfl, Int.sub_zero _, le_refl 0⟩

theorem unstake_spec {b : Asset} {neg : Bool} (hlt : b.lt zeroAsset = .ok neg) :
    (if neg then (b.neg, zeroAsset) else (zeroAsset, b)).1.symbol = coreSymbol ∧
      (if neg then (b.neg, zeroAsset) else (zeroAsset, b)).2.symbol = coreSymbol ∧
      (if neg then (b.neg, zeroAsset) else (zeroAsset, b)).1.amount -
        (if neg then (b.neg, zeroAsset) else (zeroAsset, b)).2.amount = -b.amount ∧
      0 ≤ (if neg then (b.neg, zeroAsset) else (zeroAsset, b)).2.amount := by
  obtain ⟨hsym, rfl⟩ := Asset.compareWith_eq_ok hlt
  split
  · refine ⟨hsym, rfl, ?_, le_refl 0⟩
    show -b.amount - 0 = -b.amount
    omega
  · next hneg =>
    have hneg : ¬ b.amount < 0 := fun h => hneg (decide_eq_true h)
    refine ⟨rfl, hsym, ?_, ?_⟩
    · show 0 - b.amount = -b.amount
      omega
    · show 0 ≤ b.amount
      omega

theorem takeFromRefund_spec {now : Nat} {r r' : RefundRequest} {net cpu nb cb : Asset}
    (h : takeFromRefund now r net cpu = .ok (r', nb, cb)) :
    r'.netAmount.symbol = coreSymbol ∧ r'.cpuAmount.symbol = coreSymbol ∧ nb.symbol = coreSymbol ∧
      cb.symbol = coreSymbol ∧ 0 ≤ nb.amount ∧ 0 ≤ cb.amount ∧
      r'.netAmount.amount + r'.cpuAmount.amount - (nb.amount + cb.amount) =
        r.netAmount.amount + r.cpuAmount.amount - (net.amount + cpu.amount) := by
  unfold takeFromRefund at h
  obtain ⟨_, -, h⟩ := bind_eq_ok.mp h
  obtain ⟨neg, -, h⟩ := bind_eq_ok.mp h
  have hnet0 : (if neg then { r with requestTime := now } else r).netAmount = r.netAmount := by
    split <;> rfl
  have hcpu0 : (if neg then { r with requestTime := now } else r).cpuAmount = r.cpuAmount := by
    split <;> rfl
  dsimp only at h
  rw [hnet0, hcpu0] at h
  obtain ⟨netAmount, hsubn, h⟩ := bind_eq_ok.mp h
  obtain ⟨netNeg, hltn, h⟩ := bind_eq_ok.mp h
  have hn := settle_spec hsubn hltn
  generalize (if netNeg then (zeroAsset, netAmount.neg) else (netAmount, zeroAsset)) = pn at h hn
  obtain ⟨netAmount', nb'⟩ := pn
  obtain ⟨cpuAmount, hsubc, h⟩ := bind_eq_ok.mp h
  obtain ⟨cpuNeg, hltc, h⟩ := bind_eq_ok.mp h
  have hc := settle_spec hsubc hltc
  generalize (if cpuNeg then (zeroAsset, cpuAmount.neg) else (cpuAmount, zeroAsset)) = pc at h hc
  obtain ⟨cpuAmount', cb'⟩ := pc
  cases h
  obtain ⟨h1, h2, h3, h4⟩ := hn
  obtain ⟨h5, h6, h7, h8⟩ := hc
  exact ⟨h1, h5, h2, h6, h4, h8, by dsimp only at h3 h7 ⊢; omega⟩

theorem newRefund_spec {now : Nat} {owner : UInt64} {r : RefundRequest} {net cpu nb cb : Asset}
    (h : newRefund now owner net cpu = .ok (r, nb, cb)) :
    r.netAmount.symbol = coreSymbol ∧ r.cpuAmount.symbol = coreSymbol ∧ nb.symbol = coreSymbol ∧
      cb.symbol = coreSymbol ∧ 0 ≤ nb.amount ∧ 0 ≤ cb.amount ∧
      r.netAmount.amount + r.cpuAmount.amount - (nb.amount + cb.amount) = 0 - (net.amount + cpu.amount) := by
  unfold newRefund at h
  obtain ⟨netNeg, hltn, h⟩ := bind_eq_ok.mp h
  have hn := unstake_spec hltn
  generalize (if netNeg then (net.neg, zeroAsset) else (zeroAsset, net)) = pn at h hn
  obtain ⟨netAmount, nb'⟩ := pn
  obtain ⟨cpuNeg, hltc, h⟩ := bind_eq_ok.mp h
  have hc := unstake_spec hltc
  generalize (if cpuNeg then (cpu.neg, zeroAsset) else (zeroAsset, cpu)) = pc at h hc
  obtain ⟨cpuAmount, cb'⟩ := pc
  cases h
  obtain ⟨h1, h2, h3, h4⟩ := hn
  obtain ⟨h5, h6, h7, h8⟩ := hc
  exact ⟨h1, h5, h2, h6, h4, h8, by dsimp only at h3 h7 ⊢; omega⟩

/-- the refund requests hold amounts of the core token -/
def CoreRefunds (refunds : List RefundRequest) : Prop :=
  ∀ r ∈ refunds, r.netAmount.symbol = coreSymbol ∧ r.cpuAmount.symbol = coreSymbol

theorem refundBalances_spec {now : Nat} {refunds refunds' : List RefundRequest} {from' : UInt64}
    {net cpu nb cb : Asset} (h : refundBalances now refunds from' net cpu = .ok (refunds', nb, cb))
    (hcore : CoreRefunds refunds) :
    CoreRefunds refunds' ∧ nb.symbol = coreSymbol ∧ 0 ≤ nb.amount + cb.amount ∧
      (refunds'.map RefundRequest.total).sum - (nb.amount + cb.amount) =
        (refunds.map RefundRequest.total).sum - (net.amount + cpu.amount) := by
  unfold refundBalances at h
  split at h
  · rename_i i req hfind
    obtain ⟨⟨req', nb', cb'⟩, htake, h⟩ := bind_eq_ok.mp h
    obtain ⟨_, -, h⟩ := bind_eq_ok.mp h
    obtain ⟨-, h⟩ := assert_bind_eq_ok.mp h
    obtain ⟨_, -, h⟩ := bind_eq_ok.mp h
    obtain ⟨-, h⟩ := assert_bind_eq_ok.mp h
    obtain ⟨_, hnz, h⟩ := bind_eq_ok.mp h
    obtain ⟨isZero, hz, h⟩ := bind_eq_ok.mp h
    cases h
    obtain ⟨t1, t2, t3, -, t5, t6, t7⟩ := takeFromRefund_spec htake
    have hi := (findKey_get hfind).1
    obtain ⟨hlt, rfl⟩ := List.getElem?_eq_some_iff.mp hi
    refine ⟨?_, t3, by omega, ?_⟩
    · intro r hr
      split at hr
      · exact hcore r (List.mem_of_mem_eraseIdx hr)
      · rcases List.mem_or_eq_of_mem_set hr with hr | rfl
        · exact hcore r hr
        · exact ⟨t1, t2⟩
    · split
      · -- a request that comes to nothing is erased
        next hzero =>
        obtain ⟨h0, h1⟩ := amount_eq_zero_of_eq hnz hz hzero
        rw [sum_map_eraseIdx _ refunds i hlt]
        unfold RefundRequest.total
        omega
      · rw [sum_map_set _ refunds i _ hlt]
        unfold RefundRequest.total
        omega
  · obtain ⟨netNeg, hltn, h⟩ := bind_eq_ok.mp h
    obtain ⟨neg, hneg, h⟩ := bind_eq_ok.mp h
    split at h
    · obtain ⟨⟨req, nb', cb'⟩, hnew, h⟩ := bind_eq_ok.mp h
      cases h
      obtain ⟨t1, t2, t3, -, t5, t6, t7⟩ := newRefund_spec hnew
      refine ⟨?_, t3, by omega, ?_⟩
      · intro r hr
        rcases List.mem_append.mp hr with hr | hr
        · exact hcore r hr
        · rw [List.mem_singleton.mp hr]
          exact ⟨t1, t2⟩
      · rw [List.map_append, List.sum_append, List.map_singleton, List.sum_singleton]
        unfold RefundRequest.total
        omega
    · -- neither delta is negative: nothing to refund, all to transfer
      next hpos =>
      cases h
      obtain ⟨hsn, rfl⟩ := Asset.compareWith_eq_ok hltn
      split at hneg
      · cases hneg
        exact absurd rfl hpos
      · next hn =>
        obtain ⟨-, rfl⟩ := Asset.compareWith_eq_ok hneg
        have hn : ¬ net.amount < 0 := fun h => hn (decide_eq_true h)
        have hc : ¬ cpu.amount < 0 := fun h => hpos (decide_eq_true h)
        exact ⟨hcore, hsn, by omega, by omega⟩

theorem updateRefund_spec {from' receiver : UInt64} {net cpu : Asset} {transfer : Bool}
    {out : Option Asset} (h : updateRefund env st from' receiver net cpu transfer = .ok (st', out))
    (hnet : net.symbol = coreSymbol) (hcore : CoreRefunds st.refunds) :
    ∃ refunds, st' = { st with refunds } ∧ CoreRefunds refunds ∧
      (∀ a, out = some a → a.symbol = coreSymbol) ∧
      (refunds.map RefundRequest.total).sum + (net.amount + cpu.amount) =
        (st.refunds.map RefundRequest.total).sum + (out.map Asset.amount).getD 0 := by
  unfold updateRefund at h
  obtain ⟨⟨refunds, nb, cb⟩, hr, h⟩ := bind_eq_ok.mp h
  obtain ⟨_, htotal, h⟩ := bind_eq_ok.mp h
  obtain ⟨_, hpos, h⟩ := bind_eq_ok.mp h
  cases h
  obtain ⟨-, rfl⟩ := Asset.add_eq_ok htotal
  obtain ⟨-, rfl⟩ := Asset.compareWith_eq_ok hpos
  have hbal : CoreRefunds refunds ∧ nb.symbol = coreSymbol ∧ 0 ≤ nb.amount + cb.amount ∧
      (refunds.map RefundRequest.total).sum - (nb.amount + cb.amount) =
        (st.refunds.map RefundRequest.total).sum - (net.amount + cpu.amount) := by
    split at hr
    · exact refundBalances_spec hr hcore
    · next hcond =>
      cases hr
      have hund : ¬ net.amount + cpu.amount < 0 := fun hneg =>
        hcond (by simp [hneg])
      exact ⟨hcore, hnet, by omega, rfl⟩
  obtain ⟨hcore', hsym, hnonneg, hsum⟩ := hbal
  refine ⟨refunds, rfl, hcore', fun a ha => ?_, ?_⟩
  · split at ha
    · cases ha
      exact hsym
    · cases ha
  · split
    · simp only [Option.map_some, Option.getD_some]
      omega
    · next hle =>
      have hle : ¬ zeroAsset.amount < nb.amount + cb.amount := fun h => hle (decide_eq_true h)
      simp only [Option.map_none, Option.getD_none]
      simp only [zeroAsset] at hle
      omega

/-! ## What a transfer does to `eosio.stake` -/

theorem heldOf_nonneg (n : UInt64) {q : Asset} (hq : 0 < q.amount) : 0 ≤ heldOf n ⟨q⟩ := by
  unfold heldOf
  split_ifs
  · exact hq.le
  · exact le_refl 0

theorem heldOf_core {q : Asset} (hq : q.symbol = coreSymbol) : heldOf (symbolName coreSymbol) ⟨q⟩ = q.amount := by
  unfold heldOf
  rw [if_pos (by rw [hq])]

theorem stakeBalance_sendTransfer {actor from' to' : UInt64} {q : Asset} {memo : String}
    (h : sendTransfer env st actor from' to' q memo = .ok st') :
    ∃ token, st' = { st with token } ∧ from' ≠ to' ∧ 0 < q.amount ∧
      stakeBalance st' = stakeBalance st -
        (if stakeAccount = from' then heldOf (symbolName coreSymbol) ⟨q⟩ else 0) +
          if stakeAccount = to' then heldOf (symbolName coreSymbol) ⟨q⟩ else 0 := by
  unfold sendTransfer at h
  obtain ⟨token, htoken, h⟩ := bind_eq_ok.mp h
  cases h
  obtain ⟨hne, hpos, -, hheld⟩ := EosioToken.transfer_spec htoken
  exact ⟨token, rfl, hne, hpos, hheld stakeAccount (symbolName coreSymbol)⟩

theorem stakeBalance_le_sendTransfer {actor from' to' : UInt64} {q : Asset} {memo : String}
    (h : sendTransfer env st actor from' to' q memo = .ok st') (hfrom : from' ≠ stakeAccount) :
    stakeBalance st ≤ stakeBalance st' := by
  obtain ⟨_, -, -, hpos, hbal⟩ := stakeBalance_sendTransfer h
  have := heldOf_nonneg (symbolName coreSymbol) hpos
  rw [hbal, if_neg (Ne.symm hfrom)]
  split_ifs <;> omega

/-! ## `changebw` -/

/-- what a successful `changebw` of `from` (the receiver with the transfer flag) does to the
ledger: the deltas go to the `delband` row `(from, receiver)`, to the totals of `receiver` and
to the stake `from` votes with; what they put into the refunds beyond what they take from them
is transferred to `eosio.stake`, unless `eosio.stake` is itself the source -/
structure ChangebwEffect (st st' : SystemState) (source from' receiver : UInt64) (net cpu : Asset) :
    Prop where
  delband : ∀ p a b, (st'.delband.map (DelegatedBandwidth.weight p a b)).sum =
    (st.delband.map (DelegatedBandwidth.weight p a b)).sum +
      if p (from', receiver) then a * net.amount + b * cpu.amount else 0
  userres : ∀ r, sumBy UserResources.owner (·.netWeight.amount) r st'.userres =
      sumBy UserResources.owner (·.netWeight.amount) r st.userres + (if receiver = r then net.amount else 0) ∧
    sumBy UserResources.owner (·.cpuWeight.amount) r st'.userres =
      sumBy UserResources.owner (·.cpuWeight.amount) r st.userres + if receiver = r then cpu.amount else 0
  voters : ∀ f, sumBy VoterInfo.owner (·.staked) f st'.voters =
    sumBy VoterInfo.owner (·.staked) f st.voters + if from' = f then net.amount + cpu.amount else 0
  userresNodup : (st.userres.map UserResources.owner).Nodup → (st'.userres.map UserResources.owner).Nodup
  votersNodup : (st.voters.map VoterInfo.owner).Nodup → (st'.voters.map VoterInfo.owner).Nodup
  coreRefunds : CoreRefunds st'.refunds
  ledger : source ≠ stakeAccount →
    totalRefunding st' + (net.amount + cpu.amount) = totalRefunding st + (stakeBalance st' - stakeBalance st)
  ofStake : source = stakeAccount → st'.refunds = st.refunds ∧ stakeBalance st' = stakeBalance st

theorem changebw_spec {from' receiver : UInt64} {net cpu : Asset} {transfer : Bool}
    (h : changebw env st from' receiver net cpu transfer = .ok st') (hcore : CoreRefunds st.refunds) :
    ChangebwEffect st st' from' (if transfer then receiver else from') receiver net cpu := by
  unfold changebw at h
  obtain ⟨-, -, h⟩ := bind_eq_ok.mp h
  obtain ⟨_, -, h⟩ := bind_eq_ok.mp h
  obtain ⟨_, -, h⟩ := bind_eq_ok.mp h
  obtain ⟨-, h⟩ := assert_bind_eq_ok.mp h
  obtain ⟨_, -, h⟩ := bind_eq_ok.mp h
  obtain ⟨-, h⟩ := assert_bind_eq_ok.mp h
  obtain ⟨st1, h1, h⟩ := bind_eq_ok.mp h
  obtain ⟨st2, h2, h⟩ := bind_eq_ok.mp h
  obtain ⟨⟨st3, out⟩, h3, h⟩ := bind_eq_ok.mp h
  obtain ⟨st4, h4, h⟩ := bind_eq_ok.mp h
  obtain ⟨rows1, rfl, hnet, -, hdel⟩ := updateDelband_spec h1
  obtain ⟨rows2, rfl, hnd2, hres⟩ := updateTotals_spec h2
  dsimp only at h3
  have hrefund : ∃ refunds, st3 = { st with delband := rows1, userres := rows2, refunds } ∧
      CoreRefunds refunds ∧ (∀ a, out = some a → a.symbol = coreSymbol) ∧
      (from' ≠ stakeAccount → (refunds.map RefundRequest.total).sum + (net.amount + cpu.amount) =
        (st.refunds.map RefundRequest.total).sum + (out.map Asset.amount).getD 0) ∧
      (from' = stakeAccount → refunds = st.refunds ∧ out = none) := by
    split at h3
    · next hsrc =>
      obtain ⟨refunds, rfl, hcore', hout, hsum⟩ := updateRefund_spec h3 hnet hcore
      have hsrc : from' ≠ stakeAccount := fun heq => by simp [heq] at hsrc
      exact ⟨refunds, rfl, hcore', hout, fun _ => hsum, fun heq => absurd heq hsrc⟩
    · next hsrc =>
      cases h3
      have hsrc : stakeAccount = from' := by simpa using hsrc
      refine ⟨st.refunds, rfl, hcore, ?_, ?_, ?_⟩
      · intro a ha
        cases ha
      · intro hne
        exact absurd hsrc.symm hne
      · intro _
        exact ⟨rfl, rfl⟩
  obtain ⟨refunds, rfl, hcore', hout, hsum, hstake⟩ := hrefund
  obtain ⟨voters, rfl, hnd4, hvot⟩ := updateVoters_spec h4
  dsimp only at h
  have h0 : stakeBalance { st with delband := rows1, userres := rows2, refunds, voters } = stakeBalance st :=
    rfl
  cases out with
  | none =>
    cases h
    refine ⟨hdel, hres, hvot, hnd2, hnd4, hcore', fun hne => ?_, fun heq => ⟨(hstake heq).1, rfl⟩⟩
    have hs := hsum hne
    simp only [Option.map_none, Option.getD_none] at hs
    unfold totalRefunding
    dsimp only
    omega
  | some a =>
    obtain ⟨token, rfl, hne, -, hbal⟩ := stakeBalance_sendTransfer h
    rw [if_neg (Ne.symm hne), if_pos rfl, heldOf_core (hout a rfl)] at hbal
    dsimp only at hbal
    refine ⟨hdel, hres, hvot, hnd2, hnd4, hcore', fun hsrc => ?_, fun heq => absurd (hstake heq).2 (by simp)⟩
    have hs := hsum hsrc
    simp only [Option.map_some, Option.getD_some] at hs
    unfold totalRefunding
    dsimp only
    omega

theorem ChangebwEffect.owed {source from' receiver : UInt64} {net cpu : Asset}
    (e : ChangebwEffect st st' source from' receiver net cpu) (hsrc : source ≠ stakeAccount) :
    stakeOwed st' - stakeOwed st = stakeBalance st' - stakeBalance st := by
  have hdel := e.delband (fun _ => true) 1 1
  have hled := e.ledger hsrc
  rw [if_pos rfl, one_mul, one_mul] at hdel
  unfold stakeOwed totalDelegated
  omega

end Blocks

/-! ## The ledger invariant -/

/-- the stake ledger: `user_resources` and `voters` agree with `delband`, and `eosio.stake`
holds what it owes -/
structure StakeInv (st : SystemState) : Prop where
  userresNodup : (st.userres.map UserResources.owner).Nodup
  votersNodup : (st.voters.map VoterInfo.owner).Nodup
  coreRefunds : CoreRefunds st.refunds
  net : ∀ r, sumBy UserResources.owner (·.netWeight.amount) r st.userres = delegatedNet st r
  cpu : ∀ r, sumBy UserResources.owner (·.cpuWeight.amount) r st.userres = delegatedCpu st r
  staked : ∀ f, sumBy VoterInfo.owner (·.staked) f st.voters = delegatedBy st f
  covered : stakeOwed st ≤ stakeBalance st

/-- a change of `user_resources` that keeps its keys unique and what each account has staked -/
structure KeepsWeights (rows rows' : List UserResources) : Prop where
  nodup : (rows.map UserResources.owner).Nodup → (rows'.map UserResources.owner).Nodup
  net : ∀ r, sumBy UserResources.owner (·.netWeight.amount) r rows' =
    sumBy UserResources.owner (·.netWeight.amount) r rows
  cpu : ∀ r, sumBy UserResources.owner (·.cpuWeight.amount) r rows' =
    sumBy UserResources.owner (·.cpuWeight.amount) r rows

section Invariant
variable {env : SystemEnv} {st st' : SystemState}

theorem stakeInv_init : StakeInv {} where
  userresNodup := List.nodup_nil
  votersNodup := List.nodup_nil
  coreRefunds _ h := nomatch h
  net _ := rfl
  cpu _ := rfl
  staked _ := rfl
  covered := le_of_eq rfl

theorem StakeInv.changebw {source from' receiver : UInt64} {net cpu : Asset} (hinv : StakeInv st)
    (e : ChangebwEffect st st' source from' receiver net cpu) (hsrc : source ≠ stakeAccount) :
    StakeInv st' where
  userresNodup := e.userresNodup hinv.userresNodup
  votersNodup := e.votersNodup hinv.votersNodup
  coreRefunds := e.coreRefunds
  net r := by
    rw [(e.userres r).1, hinv.net r]
    unfold delegatedNet
    rw [e.delband]
    simp
  cpu r := by
    rw [(e.userres r).2, hinv.cpu r]
    unfold delegatedCpu
    rw [e.delband]
    simp
  staked f := by
    rw [e.voters f, hinv.staked f]
    unfold delegatedBy
    rw [e.delband]
    simp
  covered := by
    have := e.owed hsrc
    have := hinv.covered
    omega

theorem StakeInv.of_frame (hinv : StakeInv st) (hdel : st'.delband = st.delband)
    (hvoters : st'.voters = st.voters) (hres : KeepsWeights st.userres st'.userres)
    (hcore : CoreRefunds st'.refunds)
    (hbal : totalRefunding st' - totalRefunding st ≤ stakeBalance st' - stakeBalance st) :
    StakeInv st' where
  userresNodup := hres.nodup hinv.userresNodup
  votersNodup := hvoters ▸ hinv.votersNodup
  coreRefunds := hcore
  net r := by
    rw [hres.net, hinv.net]
    unfold delegatedNet
    rw [hdel]
  cpu r := by
    rw [hres.cpu, hinv.cpu]
    unfold delegatedCpu
    rw [hdel]
  staked f := by
    rw [hvoters, hinv.staked]
    unfold delegatedBy
    rw [hdel]
  covered := by
    have hcov := hinv.covered
    have htot : totalDelegated st' = totalDelegated st := by
      unfold totalDelegated
      rw [hdel]
    unfold stakeOwed at hcov ⊢
    omega

theorem keepsWeights_refl (rows : List UserResources) : KeepsWeights rows rows :=
  ⟨id, fun _ => rfl, fun _ => rfl⟩

theorem keepsWeights_set {rows : List UserResources} {i : Nat} {res x : UserResources}
    (hi : rows[i]? = some res) (howner : x.owner = res.owner) (hnet : x.netWeight = res.netWeight)
    (hcpu : x.cpuWeight = res.cpuWeight) : KeepsWeights rows (rows.set i x) where
  nodup h := by
    obtain ⟨hlt, hres⟩ := List.getElem?_eq_some_iff.mp hi
    rw [map_set_of_key hlt (by rw [howner, hres])]
    exact h
  net r := by
    rw [sumBy_set hi, howner, hnet]
    omega
  cpu r := by
    rw [sumBy_set hi, howner, hcpu]
    omega

theorem keepsWeights_append {rows : List UserResources} {x : UserResources}
    (hnew : ∀ r ∈ rows, r.owner ≠ x.owner) (hnet : x.netWeight.amount = 0) (hcpu : x.cpuWeight.amount = 0) :
    KeepsWeights rows (rows ++ [x]) where
  nodup h := nodup_map_append h hnew
  net r := by
    rw [sumBy_append, hnet, ite_self, Int.add_zero]
  cpu r := by
    rw [sumBy_append, hcpu, ite_self, Int.add_zero]

theorem refund_spec {owner : UInt64} (h : refund env st owner = .ok st') (hcore : CoreRefunds st.refunds) :
    st'.delband = st.delband ∧ st'.userres = st.userres ∧ st'.voters = st.voters ∧
      CoreRefunds st'.refunds ∧ totalRefunding st' - totalRefunding st = stakeBalance st' - stakeBalance st := by
  unfold refund at h
  obtain ⟨-, -, h⟩ := bind_eq_ok.mp h
  obtain ⟨⟨i, req⟩, hget, h⟩ := bind_eq_ok.mp h
  dsimp only at h
  obtain ⟨-, h⟩ := assert_bind_eq_ok.mp h
  obtain ⟨amount, hamount, h⟩ := bind_eq_ok.mp h
  obtain ⟨token, rfl, hne, -, hbal⟩ := stakeBalance_sendTransfer h
  obtain ⟨hi, -⟩ := getKey_eq_ok hget
  obtain ⟨hlt, hreq⟩ := List.getElem?_eq_some_iff.mp hi
  obtain ⟨-, hamt⟩ := Asset.add_eq_ok hamount
  have hsym : amount.symbol = coreSymbol := by
    rw [hamt]
    exact (hcore req (List.mem_of_getElem? hi)).1
  have htotal : amount.amount = req.total := by
    rw [hamt]
    rfl
  rw [if_pos rfl, if_neg hne, heldOf_core hsym, htotal] at hbal
  dsimp only at hbal
  have h0 : stakeBalance { st with refunds := st.refunds.eraseIdx i } = stakeBalance st := rfl
  refine ⟨rfl, rfl, rfl, fun r hr => hcore r ((List.eraseIdx_sublist _ _).subset hr), ?_⟩
  unfold totalRefunding
  dsimp only
  rw [sum_map_eraseIdx _ _ _ hlt, hreq]
  omega

theorem keepsWeights_buyram (rows : List UserResources) (receiver : UInt64) (bytes : Int) :
    KeepsWeights rows (match findKey UserResources.owner receiver rows with
      | none => rows ++ [{ owner := receiver, netWeight := zeroAsset, cpuWeight := zeroAsset, ramBytes := bytes }]
      | some (i, res) => rows.set i { res with ramBytes := res.ramBytes + bytes }) := by
  split
  · next hfind =>
    exact keepsWeights_append (fun r hr => findKey_eq_none hfind r hr) rfl rfl
  · next i res hfind =>
    exact keepsWeights_set (findKey_get hfind).1 rfl rfl rfl

theorem buyram_spec {payer receiver : UInt64} {quant : Asset} (h : buyram env st payer receiver quant = .ok st')
    (hpayer : payer ≠ stakeAccount) :
    st'.delband = st.delband ∧ st'.refunds = st.refunds ∧ st'.voters = st.voters ∧
      KeepsWeights st.userres st'.userres ∧ stakeBalance st ≤ stakeBalance st' := by
  unfold buyram at h
  obtain ⟨-, -, h⟩ := bind_eq_ok.mp h
  obtain ⟨-, h⟩ := assert_bind_eq_ok.mp h
  obtain ⟨-, h⟩ := assert_bind_eq_ok.mp h
  obtain ⟨-, h⟩ := assert_bind_eq_ok.mp h
  obtain ⟨st1, h1, h⟩ := bind_eq_ok.mp h
  have hle1 := stakeBalance_le_sendTransfer h1 hpayer
  obtain ⟨token1, rfl, -⟩ := stakeBalance_sendTransfer h1
  split at h
  · have hle2 := stakeBalance_le_sendTransfer h hpayer
    obtain ⟨token2, rfl, -⟩ := stakeBalance_sendTransfer h
    exact ⟨rfl, rfl, rfl, keepsWeights_buyram _ _ _, hle1.trans hle2⟩
  · cases h
    exact ⟨rfl, rfl, rfl, keepsWeights_buyram _ _ _, hle1⟩

theorem sellram_spec {account : UInt64} {bytes : Int} (h : sellram env st account bytes = .ok st')
    (haccount : account ≠ stakeAccount) :
    st'.delband = st.delband ∧ st'.refunds = st.refunds ∧ st'.voters = st.voters ∧
      KeepsWeights st.userres st'.userres ∧ stakeBalance st ≤ stakeBalance st' := by
  unfold sellram at h
  obtain ⟨-, -, h⟩ := bind_eq_ok.mp h
  obtain ⟨-, h⟩ := assert_bind_eq_ok.mp h
  obtain ⟨⟨i, res⟩, hget, h⟩ := bind_eq_ok.mp h
  dsimp only at h
  obtain ⟨-, h⟩ := assert_bind_eq_ok.mp h
  obtain ⟨-, h⟩ := assert_bind_eq_ok.mp h
  obtain ⟨-, h⟩ := assert_bind_eq_ok.mp h
  obtain ⟨-, h⟩ := assert_bind_eq_ok.mp h
  obtain ⟨st1, h1, h⟩ := bind_eq_ok.mp h
  have hle1 := stakeBalance_le_sendTransfer h1 (by decide)
  obtain ⟨token1, rfl, -⟩ := stakeBalance_sendTransfer h1
  have hres := keepsWeights_set (getKey_eq_ok hget).1 rfl rfl rfl (x := { res with ramBytes := res.ramBytes - bytes })
  split at h
  · obtain ⟨fee, -, h⟩ := bind_eq_ok.mp h
    have hle2 := stakeBalance_le_sendTransfer h haccount
    obtain ⟨token2, rfl, -⟩ := stakeBalance_sendTransfer h
    exact ⟨rfl, rfl, rfl, hres, hle1.trans hle2⟩
  · cases h
    exact ⟨rfl, rfl, rfl, hres, hle1⟩

theorem stakeBalance_le_token {tenv : TokenEnv} {action : EosioToken.TokenAction} {token : TokenState}
    (h : EosioToken.apply tenv st.token action = .ok token) (hact : actor (.token action) ≠ some stakeAccount) :
    stakeBalance st ≤ stakeBalance { st with token } := by
  unfold stakeBalance
  cases action with
  | create issuer maximumSupply =>
    rw [EosioToken.create_accounts h]
  | issue to' quantity memo =>
    obtain ⟨hpos, hheld⟩ := EosioToken.issue_spec h
    have := heldOf_nonneg (symbolName coreSymbol) hpos
    rw [hheld]
    split_ifs <;> omega
  | transfer from' to' quantity memo =>
    have hfrom : from' ≠ stakeAccount := fun hs => hact (by rw [hs]; rfl)
    obtain ⟨-, hpos, -, hheld⟩ := EosioToken.transfer_spec h
    have := heldOf_nonneg (symbolName coreSymbol) hpos
    rw [hheld, if_neg (Ne.symm hfrom)]
    split_ifs <;> omega

theorem changebw_of_delegatebw {from' receiver : UInt64} {net cpu : Asset} {transfer : Bool}
    (h : delegatebw env st from' receiver net cpu transfer = .ok st') :
    changebw env st from' receiver net cpu transfer = .ok st' := by
  unfold delegatebw at h
  obtain ⟨_, -, h⟩ := bind_eq_ok.mp h
  obtain ⟨-, h⟩ := assert_bind_eq_ok.mp h
  obtain ⟨_, -, h⟩ := bind_eq_ok.mp h
  obtain ⟨-, h⟩ := assert_bind_eq_ok.mp h
  obtain ⟨_, -, h⟩ := bind_eq_ok.mp h
  obtain ⟨_, -, h⟩ := bind_eq_ok.mp h
  obtain ⟨-, h⟩ := assert_bind_eq_ok.mp h
  obtain ⟨-, h⟩ := assert_bind_eq_ok.mp h
  exact h

theorem changebw_of_undelegatebw {from' receiver : UInt64} {net cpu : Asset}
    (h : undelegatebw env st from' receiver net cpu = .ok st') :
    changebw env st from' receiver net.neg cpu.neg false = .ok st' := by
  unfold undelegatebw at h
  obtain ⟨_, -, h⟩ := bind_eq_ok.mp h
  obtain ⟨-, h⟩ := assert_bind_eq_ok.mp h
  obtain ⟨_, -, h⟩ := bind_eq_ok.mp h
  obtain ⟨-, h⟩ := assert_bind_eq_ok.mp h
  obtain ⟨_, -, h⟩ := bind_eq_ok.mp h
  obtain ⟨_, -, h⟩ := bind_eq_ok.mp h
  obtain ⟨-, h⟩ := assert_bind_eq_ok.mp h
  obtain ⟨-, h⟩ := assert_bind_eq_ok.mp h
  exact h

/-- **Step lemma.** Every action that `eosio.stake` does not take keeps the ledger. -/
theorem StakeInv.step (hinv : StakeInv st) {e : SystemEnv × SystemAction}
    (hact : actor e.2 ≠ some stakeAccount) (h : step st e = .ok st') : StakeInv st' := by
  obtain ⟨env, action⟩ := e
  unfold EosioSystem.step at h
  cases action with
  | delegatebw from' receiver net cpu transfer =>
    exact hinv.changebw (changebw_spec (changebw_of_delegatebw h) hinv.coreRefunds)
      fun hs => hact (by rw [hs]; rfl)
  | undelegatebw from' receiver net cpu =>
    exact hinv.changebw (changebw_spec (changebw_of_undelegatebw h) hinv.coreRefunds)
      fun hs => hact (by rw [hs]; rfl)
  | refund owner =>
    obtain ⟨hdel, hres, hvoters, hcore, hbal⟩ := refund_spec h hinv.coreRefunds
    exact hinv.of_frame hdel hvoters (by rw [hres]; exact keepsWeights_refl _) hcore hbal.le
  | buyram payer receiver quant =>
    obtain ⟨hdel, hrefunds, hvoters, hres, hbal⟩ := buyram_spec h fun hs => hact (by rw [hs]; rfl)
    have hcore : CoreRefunds st'.refunds := by
      rw [hrefunds]
      exact hinv.coreRefunds
    exact hinv.of_frame hdel hvoters hres hcore (by rw [totalRefunding, totalRefunding, hrefunds]; omega)
  | sellram account bytes =>
    obtain ⟨hdel, hrefunds, hvoters, hres, hbal⟩ := sellram_spec h fun hs => hact (by rw [hs]; rfl)
    have hcore : CoreRefunds st'.refunds := by
      rw [hrefunds]
      exact hinv.coreRefunds
    exact hinv.of_frame hdel hvoters hres hcore (by rw [totalRefunding, totalRefunding, hrefunds]; omega)
  | token action =>
    obtain ⟨token, htoken, h⟩ := bind_eq_ok.mp h
    cases h
    have hbal := stakeBalance_le_token htoken hact
    have hrefunds : totalRefunding { st with token } = totalRefunding st := rfl
    exact hinv.of_frame rfl rfl (keepsWeights_refl _) hinv.coreRefunds (by omega)

/-- **Run lemma.** -/
theorem stakeInv_reachable {st : SystemState}
    (h : ReachableWhen (fun _ e => actor e.2 ≠ some stakeAccount) step {} st) : StakeInv st :=
  h.inv StakeInv stakeInv_init fun _ _ _ hinv hact hstep => hinv.step hact hstep

theorem StakeInv.weightOf_eq (hinv : StakeInv st) (r : UInt64) :
    netWeightOf st r = delegatedNet st r ∧ cpuWeightOf st r = delegatedCpu st r := by
  rw [← hinv.net r, ← hinv.cpu r, ← findKey_val_eq_sumBy hinv.userresNodup,
    ← findKey_val_eq_sumBy hinv.userresNodup]
  unfold netWeightOf cpuWeightOf
  generalize findKey UserResources.owner r st.userres = o
  rcases o with _ | ⟨i, u⟩ <;> exact ⟨rfl, rfl⟩

theorem StakeInv.stakedOf_eq (hinv : StakeInv st) (f : UInt64) : stakedOf st f = delegatedBy st f := by
  rw [← hinv.staked f, ← findKey_val_eq_sumBy hinv.votersNodup]
  unfold stakedOf
  generalize findKey VoterInfo.owner f st.voters = o
  rcases o with _ | ⟨i, v⟩ <;> rfl

theorem refund_owed {owner : UInt64} (h : refund env st owner = .ok st') (hcore : CoreRefunds st.refunds) :
    stakeOwed st' - stakeOwed st = stakeBalance st' - stakeBalance st := by
  obtain ⟨hdel, -, -, -, hbal⟩ := refund_spec h hcore
  have htot : totalDelegated st' = totalDelegated st := by
    unfold totalDelegated
    rw [hdel]
  unfold stakeOwed
  omega

end Invariant

/-- **The staking ledger.** In every state that actions not taken by `eosio.stake` reach,
`user_resources` and `voters` say what `delband` says, `eosio.stake` holds at least what it
owes, and `changebw` and `refund` change what it owes by what they move in or out of it. -/
theorem staking_ledger_consistent {st : SystemState}
    (h : ReachableWhen (fun _ e => actor e.2 ≠ some stakeAccount) step {} st) :
    (∀ r, netWeightOf st r = delegatedNet st r ∧ cpuWeightOf st r = delegatedCpu st r) ∧
      (∀ f, stakedOf st f = delegatedBy st f) ∧ stakeOwed st ≤ stakeBalance st ∧
      (∀ env from' receiver net cpu transfer st', from' ≠ stakeAccount →
        changebw env st from' receiver net cpu transfer = .ok st' →
          stakeOwed st' - stakeOwed st = stakeBalance st' - stakeBalance st) ∧
      ∀ env owner st', refund env st owner = .ok st' →
        stakeOwed st' - stakeOwed st = stakeBalance st' - stakeBalance st := by
  have hinv := stakeInv_reachable h
  refine ⟨hinv.weightOf_eq, hinv.stakedOf_eq, hinv.covered, ?_, ?_⟩
  · intro env from' receiver net cpu transfer st' hfrom hchange
    exact (changebw_spec hchange hinv.coreRefunds).owed hfrom
  · intro env owner st' hrefund
    exact refund_owed hrefund hinv.coreRefunds

/-- account 1 and eosio.token sign; every account exists -/
def sampleEnv : SystemEnv :=
  { auth := [tokenAccount, 1], isAccount := fun _ => true, now := 0, activated := true,
    ramMarket := false, ramBytesOut := fun _ => 0, ramTokensOut := fun _ => zeroAsset }

/-- the core token is created and 100000 issued to account 1, which stakes 30000 net and 20000
cpu to account 2, unstakes 10000 net, and is refunded three days later -/
def sampleStakeRun : List (SystemEnv × SystemAction) :=
  [(sampleEnv, .token (.create 1 ⟨1000000, coreSymbol⟩)),
   (sampleEnv, .token (.issue 1 ⟨100000, coreSymbol⟩ "")),
   (sampleEnv, .delegatebw 1 2 ⟨30000, coreSymbol⟩ ⟨20000, coreSymbol⟩ false),
   (sampleEnv, .undelegatebw 1 2 ⟨10000, coreSymbol⟩ ⟨0, coreSymbol⟩),
   ({ sampleEnv with now := 3 * 24 * 3600 }, .refund 1)]

theorem sample_staking_ledger :
    let st := exec step {} sampleStakeRun
    (delegatedNet st 2 = 20000 ∧ stakedOf st 1 = 40000 ∧ stakeBalance st = 40000 ∧ st.refunds = []) ∧
      (∀ r, netWeightOf st r = delegatedNet st r ∧ cpuWeightOf st r = delegatedCpu st r) ∧
      (∀ f, stakedOf st f = delegatedBy st f) ∧ stakeOwed st ≤ stakeBalance st ∧
      (∀ env from' receiver net cpu transfer st', from' ≠ stakeAccount →
        changebw env st from' receiver net cpu transfer = .ok st' →
          stakeOwed st' - stakeOwed st = stakeBalance st' - stakeBalance st) ∧
      ∀ env owner st', refund env st owner = .ok st' →
        stakeOwed st' - stakeOwed st = stakeBalance st' - stakeBalance st :=
  ⟨by decide, staking_ledger_consistent (reachableWhen_exec sampleStakeRun ({} : SystemState) .init fun _ a ha =>
    (by decide : ∀ a ∈ sampleStakeRun, actor a.2 ≠ some stakeAccount) a ha)⟩

end Eos.EosioSystem
