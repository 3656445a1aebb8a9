import Eoscochain.Lib.Assert
import Eoscochain.Lib.Table
import Mathlib.Algebra.Order.Floor.Div
import Eoscochain.Chain.Types

/-!
# The resource limits manager

libraries/chain resource_limits.cpp and resource_limits_private.hpp.  The manager keeps four
tables: the limits of each account (a row, and while a change waits for the end of the block a
second, pending, row), the usage of each account, the configuration and the chain-wide state.

* `UsageAccumulator`          `exponential_moving_average_accumulator`: a usage scaled by
                              `rate_limiting_precision`, decayed linearly over a window;
* `ResourceLimitsManager`     the four tables; `limits` in creation order, searched through the
                              `by_owner` index on `(pending, owner)`;
* `setAccountLimits`, `processAccountLimitUpdates`   staging of a change in a pending row, and
                              the loop of the block's end that folds the pending rows into the
                              totals of the state;
* `updateAccountUsage`, `addTransactionUsage`   the billing of a transaction to its accounts;
* `getAccountCpuLimitEx`, `getAccountNetLimitEx`, `getBlockCpuLimit`, `getBlockNetLimit`
                              what an account and the block can still take;
* `ResourceRequest`, `step`   the manager's mutating calls, each one transactional.

Unsigned 64-bit fields are `Nat`: every addition the code makes to one is guarded by an
assertion against `UINT64_MAX`, but for `pending_cpu_usage`, `pending_net_usage` and the
subtractions of `get_block_*_limit`, which wrap (`% 2 ^ 64`).  A product in `uint128_t` that
can exceed it wraps too (`maxUserUseInWindow`).  Signed limits are `Int`.

`FixedPoint`: a usage kept scaled by a precision `P` and read over a window of `W` periods is
`v * W / P` units; adding `c` units stores `c * P ⌈/⌉ W` more.  The store rounds up, so the read
after the addition may exceed the read before it by more than `c`; when `W ≤ P` the excess is
below one unit, and a read rounded up before the addition absorbs it (`rescale_add_ceilDiv_le`).
-/

set_option linter.unusedSectionVars false

namespace FixedPoint

theorem div_add_ite_mod_pos {n d : Nat} (hd : 0 < d) :
    n / d + (if 0 < n % d then 1 else 0) = n ⌈/⌉ d := by
  rw [Nat.ceilDiv_eq_add_pred_div]
  have hdiv := Nat.div_add_mod n d
  have hlt := Nat.mod_lt n hd
  generalize n / d = q at hdiv ⊢
  generalize n % d = r at hdiv hlt ⊢
  subst hdiv
  split
  · next hr =>
    have heq : d * q + r + d - 1 = (r - 1) + d * (q + 1) := by
      rw [Nat.mul_add, Nat.mul_one]
      omega
    rw [heq, Nat.add_mul_div_left _ _ hd, Nat.div_eq_of_lt (by omega)]
    omega
  · next hr =>
    have heq : d * q + r + d - 1 = (d - 1) + d * q := by omega
    rw [heq, Nat.add_mul_div_left _ _ hd, Nat.div_eq_of_lt (by omega)]
    omega

theorem ceilDiv_mul_le (n d : Nat) : (n ⌈/⌉ d) * d ≤ n + d - 1 :=
  Nat.div_mul_le_self _ _

/-- **An addition rounded up, read back rounded down.**  With `W ≤ P`, the read after adding
`c` units is at most `c` above the read before, rounded up. -/
theorem rescale_add_ceilDiv_le {v c W P : Nat} (hW : W ≤ P) :
    (v + c * P ⌈/⌉ W) * W / P ≤ v * W ⌈/⌉ P + c := by
  rcases Nat.eq_zero_or_pos P with rfl | hP
  · simp
  have hq := ceilDiv_mul_le (c * P) W
  have hsum : (v + c * P ⌈/⌉ W) * W ≤ v * W + P - 1 + c * P := by
    rw [Nat.add_mul]
    omega
  calc (v + c * P ⌈/⌉ W) * W / P ≤ (v * W + P - 1 + c * P) / P := Nat.div_le_div_right hsum
    _ = v * W ⌈/⌉ P + c := by rw [Nat.add_mul_div_right _ _ hP, Nat.ceilDiv_eq_add_pred_div]

end FixedPoint


namespace Eos.Resource

open Machine Table

/-- `config::rate_limiting_precision` -/
def rateLimitingPrecision : Nat := 1000 * 1000

def uint64Max : Nat := 2 ^ 64 - 1
def int64Max : Nat := 2 ^ 63 - 1

/-- `a - b` in `uint64_t` -/
def uint64Sub (a b : Nat) : Nat := (a + 2 ^ 64 - b) % 2 ^ 64

/-- `ratio<uint64_t>` -/
structure Ratio where
  numerator : Nat
  denominator : Nat
  deriving DecidableEq, Repr

/-- `value * ratio` -/
def mulRatio (value : Nat) (r : Ratio) : Except String Nat := do
  assert (r.numerator == 0 || decide (value ≤ uint64Max / r.numerator))
    "Usage exceeds maximum value representable after extending for precision"
  pure (value * r.numerator / r.denominator)

/-- `integer_divide_ceil` -/
def integerDivideCeil (num den : Nat) : Nat := num / den + if 0 < num % den then 1 else 0

theorem integerDivideCeil_eq {num den : Nat} (hden : 0 < den) :
    integerDivideCeil num den = num ⌈/⌉ den :=
  FixedPoint.div_add_ite_mod_pos hden

def downgradeCastError : String :=
  "Casting a higher bit integer value ${v} to a lower bit integer value which cannot contain the value, valid range is [${min}, ${max}]"

/-- `downgrade_cast` of a `uint128_t` to a type whose largest value is `max` -/
def downgradeCast (max val : Nat) : Except String Nat := do
  assert (decide (val ≤ max)) downgradeCastError
  pure val

/-! ## The accumulator -/

/-- `exponential_moving_average_accumulator<>` -/
structure UsageAccumulator where
  lastOrdinal : Nat := 0
  valueEx : Nat := 0
  consumed : Nat := 0
  deriving DecidableEq, Repr

namespace UsageAccumulator

def maxRawValue : Nat := uint64Max / rateLimitingPrecision

/-- `average()` -/
def average (a : UsageAccumulator) : Nat := integerDivideCeil a.valueEx rateLimitingPrecision

/-- the branch of `add` for a later `ordinal`: the value decays by the periods passed, or is
gone past the window, and `consumed` restarts from the average -/
def advance (a : UsageAccumulator) (ordinal windowSize : Nat) : Except String UsageAccumulator := do
  assert (decide (a.lastOrdinal < ordinal)) "new ordinal cannot be less than the previous ordinal"
  let valueEx ← (if ordinal < a.lastOrdinal + windowSize then
      mulRatio a.valueEx ⟨windowSize - (ordinal - a.lastOrdinal), windowSize⟩
    else pure 0 : Except String Nat)
  let a : UsageAccumulator := { a with lastOrdinal := ordinal, valueEx }
  pure { a with consumed := a.average }

/-- `add(units, ordinal, window_size)`: the bounds are checked before anything changes -/
def add (a : UsageAccumulator) (units ordinal windowSize : Nat) : Except String UsageAccumulator := do
  assert (decide (units ≤ maxRawValue))
    "Usage exceeds maximum value representable after extending for precision"
  assert (decide (units ≤ uint64Max - a.consumed)) "Overflow in tracked usage when adding usage!"
  let valueExContrib ←
    downgradeCast uint64Max (integerDivideCeil (units * rateLimitingPrecision) windowSize)
  assert (decide (valueExContrib ≤ uint64Max - a.valueEx))
    "Overflow in accumulated value when adding usage!"
  let a ← (if a.lastOrdinal = ordinal then pure a else a.advance ordinal windowSize :
    Except String UsageAccumulator)
  pure { a with consumed := a.consumed + units, valueEx := a.valueEx + valueExContrib }

end UsageAccumulator

/-! ## The tables -/

/-- `resource_limits_object`; a negative limit is no limit -/
structure ResourceLimitsObject where
  owner : Nat
  pending : Bool := false
  netWeight : Int := -1
  cpuWeight : Int := -1
  ramBytes : Int := -1
  deriving DecidableEq, Repr

/-- the key of the `by_owner` index -/
def ResourceLimitsObject.byOwner (o : ResourceLimitsObject) : Bool × Nat := (o.pending, o.owner)

/-- `resource_usage_object` -/
structure ResourceUsageObject where
  owner : Nat
  netUsage : UsageAccumulator := {}
  cpuUsage : UsageAccumulator := {}
  ramUsage : Nat := 0
  deriving DecidableEq, Repr

/-- `elastic_limit_parameters` -/
structure ElasticLimitParameters where
  target : Nat
  max : Nat
  periods : Nat
  maxMultiplier : Nat
  contractRate : Ratio
  expandRate : Ratio
  deriving DecidableEq, Repr

def ElasticLimitParameters.validate (p : ElasticLimitParameters) : Except String Unit := do
  assert (p.periods != 0) "elastic limit parameter 'periods' cannot be zero"
  assert (p.contractRate.denominator != 0)
    "elastic limit parameter 'contract_rate' is not a well-defined ratio"
  assert (p.expandRate.denominator != 0)
    "elastic limit parameter 'expand_rate' is not a well-defined ratio"

/-- `EOS_PERCENT` -/
def eosPercent (value percentage : Nat) : Nat := value * percentage / 10000

/-- `resource_limits_config_object`, with the defaults of config.hpp -/
structure ResourceLimitsConfig where
  cpuLimitParameters : ElasticLimitParameters :=
    ⟨eosPercent 200000 1000, 200000, 60 * 1000 / 500, 1000, ⟨99, 100⟩, ⟨1000, 999⟩⟩
  netLimitParameters : ElasticLimitParameters :=
    ⟨eosPercent (1024 * 1024) 1000, 1024 * 1024, 60 * 1000 / 500, 1000, ⟨99, 100⟩, ⟨1000, 999⟩⟩
  accountCpuUsageAverageWindow : Nat := 24 * 60 * 60 * 1000 / 500
  accountNetUsageAverageWindow : Nat := 24 * 60 * 60 * 1000 / 500
  deriving DecidableEq, Repr

/-- `resource_limits_state_object` -/
structure ResourceLimitsState where
  averageBlockNetUsage : UsageAccumulator := {}
  averageBlockCpuUsage : UsageAccumulator := {}
  pendingNetUsage : Nat := 0
  pendingCpuUsage : Nat := 0
  totalNetWeight : Nat := 0
  totalCpuWeight : Nat := 0
  totalRamBytes : Nat := 0
  virtualNetLimit : Nat := 0
  virtualCpuLimit : Nat := 0
  deriving DecidableEq, Repr

/-- the tables of the manager -/
structure ResourceLimitsManager where
  limits : List ResourceLimitsObject := []
  usage : List ResourceUsageObject := []
  config : ResourceLimitsConfig := {}
  state : ResourceLimitsState := {}
  deriving DecidableEq, Repr

/-- `update_elastic_limit` -/
def updateElasticLimit (currentLimit averageUsage : Nat) (params : ElasticLimitParameters) :
    Except String Nat := do
  let result ← mulRatio currentLimit
    (if params.target < averageUsage then params.contractRate else params.expandRate)
  pure (min (max result params.max) (params.max * params.maxMultiplier % 2 ^ 64))

/-- `max_user_use_in_window`: the share `weight / totalWeight` of the capacity over the window,
computed in `uint128_t` -/
def maxUserUseInWindow (capacity windowSize weight totalWeight : Nat) : Nat :=
  capacity * windowSize * weight % 2 ^ 128 / totalWeight

/-- `account_resource_limit` -/
structure AccountResourceLimit where
  used : Int := 0
  available : Int := 0
  max : Int := 0
  deriving DecidableEq, Repr

/-- the body of `get_account_cpu_limit_ex` and `get_account_net_limit_ex`: what the usage
leaves of the account's share, its use rounded up -/
def accountLimitEx (usage : UsageAccumulator) (weight : Int)
    (totalWeight capacity windowSize : Nat) : Except String AccountResourceLimit :=
  if weight < 0 ∨ totalWeight = 0 then pure ⟨-1, -1, -1⟩
  else do
    let maxUserUse := maxUserUseInWindow capacity windowSize weight.toNat totalWeight
    let usedInWindow := integerDivideCeil (usage.valueEx * windowSize) rateLimitingPrecision
    let available ← (if maxUserUse ≤ usedInWindow then pure 0
      else downgradeCast int64Max (maxUserUse - usedInWindow) : Except String Nat)
    let used ← downgradeCast int64Max usedInWindow
    let max ← downgradeCast int64Max maxUserUse
    pure ⟨used, available, max⟩

/-- the check of `add_transaction_usage` on one resource: the usage, rounded down, within the
account's share -/
def checkWindow (usage : UsageAccumulator) (weight : Int) (totalWeight capacity windowSize : Nat)
    (msg : String) : Except String Unit :=
  if 0 ≤ weight ∧ 0 < totalWeight then
    assert (decide (usage.valueEx * windowSize / rateLimitingPrecision
      ≤ maxUserUseInWindow capacity windowSize weight.toNat totalWeight)) msg
  else pure ()

/-- the `modify` of an account's usage in `update_account_usage` and `add_transaction_usage` -/
def ResourceUsageObject.addUsage (u : ResourceUsageObject) (config : ResourceLimitsConfig)
    (cpuUsage netUsage timeSlot : Nat) : Except String ResourceUsageObject := do
  let netUsage ← u.netUsage.add netUsage timeSlot config.accountNetUsageAverageWindow
  let cpuUsage ← u.cpuUsage.add cpuUsage timeSlot config.accountCpuUsageAverageWindow
  pure { u with netUsage, cpuUsage }

/-- `update_state_and_value`, taking the old value out of the total -/
def revertOld (total : Nat) (value : Int) : Except String Nat :=
  if 0 < value then do
    assert (decide (value.toNat ≤ total)) "underflow when reverting old value to ${which}"
    pure (total - value.toNat)
  else pure total

/-- `update_state_and_value`, putting the new value in the total -/
def applyNew (total : Nat) (pendingValue : Int) : Except String Nat :=
  if 0 < pendingValue then do
    assert (decide (pendingValue.toNat ≤ uint64Max - total))
      "overflow when applying new value to ${which}"
    pure (total + pendingValue.toNat)
  else pure total

/-- `update_state_and_value`: the total with the old value replaced by the pending one -/
def updateStateAndValue (total : Nat) (value pendingValue : Int) : Except String Nat := do
  let total ← revertOld total value
  applyNew total pendingValue

/-- `by_owner_index.lower_bound(boost::make_tuple(true))` when it is pending: the pending row of
the least owner, with its position -/
def firstPending : List ResourceLimitsObject → Option (Nat × ResourceLimitsObject)
  | [] => none
  | o :: os =>
    let rest := (firstPending os).map fun q => (q.1 + 1, q.2)
    if o.pending then
      match rest with
      | some (i, q) => if q.owner < o.owner then some (i, q) else some (0, o)
      | none => some (0, o)
    else rest

namespace ResourceLimitsManager

variable (m : ResourceLimitsManager)

/-- `initialize_database` -/
def initializeDatabase : ResourceLimitsManager :=
  let config : ResourceLimitsConfig := {}
  { config
    state := { virtualCpuLimit := config.cpuLimitParameters.max
               virtualNetLimit := config.netLimitParameters.max } }

/-- `initialize_account` -/
def initializeAccount (account : Nat) : Except String ResourceLimitsManager := do
  assert (findKey ResourceLimitsObject.byOwner (false, account) m.limits).isNone insertViolation
  assert (!(m.usage.any (·.owner == account))) insertViolation
  pure { m with limits := m.limits ++ [{ owner := account }], usage := m.usage ++ [{ owner := account }] }

/-- `set_block_parameters` -/
def setBlockParameters (cpuLimitParameters netLimitParameters : ElasticLimitParameters) :
    Except String ResourceLimitsManager := do
  cpuLimitParameters.validate
  netLimitParameters.validate
  pure { m with config := { m.config with cpuLimitParameters, netLimitParameters } }

/-- the usage row of an account -/
def getUsage (account : Nat) : Except String (Nat × ResourceUsageObject) :=
  getKey (·.owner) account m.usage unknownKeyError

/-- `get_account_limits`: the pending limits if there are, else the limits in force; as
`(ram_bytes, net_weight, cpu_weight)` -/
def getAccountLimits (account : Nat) : Except String (Int × Int × Int) :=
  match findKey ResourceLimitsObject.byOwner (true, account) m.limits with
  | some (_, p) => pure (p.ramBytes, p.netWeight, p.cpuWeight)
  | none => do
    let (_, o) ← getKey ResourceLimitsObject.byOwner (false, account) m.limits unknownKeyError
    pure (o.ramBytes, o.netWeight, o.cpuWeight)

/-- `update_account_usage` for one account: no usage, at `timeSlot` -/
def touchUsage (account timeSlot : Nat) : Except String ResourceLimitsManager := do
  let (i, usage) ← m.getUsage account
  let usage ← usage.addUsage m.config 0 0 timeSlot
  pure { m with usage := m.usage.set i usage }

/-- `update_account_usage` -/
def updateAccountUsage (accounts : List Nat) (timeSlot : Nat) : Except String ResourceLimitsManager :=
  accounts.foldlM (fun m a => m.touchUsage a timeSlot) m

/-- the loop body of `add_transaction_usage` for one account -/
def billAccount (account cpuUsage netUsage timeSlot : Nat) : Except String ResourceLimitsManager := do
  let (i, usage) ← m.getUsage account
  let (_, netWeight, cpuWeight) ← m.getAccountLimits account
  let usage ← usage.addUsage m.config cpuUsage netUsage timeSlot
  checkWindow usage.cpuUsage cpuWeight m.state.totalCpuWeight m.state.virtualCpuLimit
    m.config.accountCpuUsageAverageWindow
    "authorizing account '${n}' has insufficient cpu resources for this transaction"
  checkWindow usage.netUsage netWeight m.state.totalNetWeight m.state.virtualNetLimit
    m.config.accountNetUsageAverageWindow
    "authorizing account '${n}' has insufficient net resources for this transaction"
  pure { m with usage := m.usage.set i usage }

/-- `add_transaction_usage` -/
def addTransactionUsage (accounts : List Nat) (cpuUsage netUsage timeSlot : Nat) :
    Except String ResourceLimitsManager := do
  let m ← accounts.foldlM (fun m a => m.billAccount a cpuUsage netUsage timeSlot) m
  let m : ResourceLimitsManager :=
    { m with state := { m.state with
        pendingCpuUsage := (m.state.pendingCpuUsage + cpuUsage) % 2 ^ 64
        pendingNetUsage := (m.state.pendingNetUsage + netUsage) % 2 ^ 64 } }
  assert (decide (m.state.pendingCpuUsage ≤ m.config.cpuLimitParameters.max))
    "Block has insufficient cpu resources"
  assert (decide (m.state.pendingNetUsage ≤ m.config.netLimitParameters.max))
    "Block has insufficient net resources"
  pure m

/-- `add_pending_ram_usage` -/
def addPendingRamUsage (account : Nat) (ramDelta : Int) : Except String ResourceLimitsManager :=
  if ramDelta = 0 then pure m
  else do
    let (i, usage) ← m.getUsage account
    assert (decide (ramDelta ≤ 0) || decide (ramDelta.toNat ≤ uint64Max - usage.ramUsage))
      "Ram usage delta would overflow UINT64_MAX"
    assert (decide (0 ≤ ramDelta) || decide ((-ramDelta).toNat ≤ usage.ramUsage))
      "Ram usage delta would underflow UINT64_MAX"
    pure { m with usage := m.usage.set i { usage with ramUsage := (usage.ramUsage + ramDelta).toNat } }

/-- `verify_account_ram_usage` -/
def verifyAccountRamUsage (account : Nat) : Except String Unit := do
  let (ramBytes, _, _) ← m.getAccountLimits account
  let (_, usage) ← m.getUsage account
  if 0 ≤ ramBytes then
    assert (decide ((usage.ramUsage : Int) ≤ ramBytes))
      "account ${account} has insufficient ram; needs ${needs} bytes has ${available} bytes"
  else pure ()

/-- `find_or_create_pending_limits`: the pending row of the account, made from its limits in
force if there is none; with its position -/
def findOrCreatePendingLimits (account : Nat) :
    Except String (ResourceLimitsManager × Nat × ResourceLimitsObject) :=
  match findKey ResourceLimitsObject.byOwner (true, account) m.limits with
  | some (i, p) => pure (m, i, p)
  | none => do
    let (_, limits) ← getKey ResourceLimitsObject.byOwner (false, account) m.limits unknownKeyError
    let p : ResourceLimitsObject := { limits with pending := true }
    pure ({ m with limits := m.limits ++ [p] }, m.limits.length, p)

/-- `set_account_limits`: the new limits in the pending row; whether the ram limit decreased -/
def setAccountLimits (account : Nat) (ramBytes netWeight cpuWeight : Int) :
    Except String (ResourceLimitsManager × Bool) := do
  let (m, i, limits) ← m.findOrCreatePendingLimits account
  let decreasedLimit := decide (0 ≤ ramBytes) && (decide (limits.ramBytes < 0) || decide (ramBytes < limits.ramBytes))
  pure ({ m with limits := m.limits.set i { limits with ramBytes, netWeight, cpuWeight } },
    decreasedLimit)

/-- one iteration of `process_account_limit_updates`: the pending row `p`, at position `pi`,
replaces the limits in force, in the totals too, and is removed -/
def applyPending (p : ResourceLimitsObject) (pi : Nat) : Except String ResourceLimitsManager := do
  let (j, actual) ← getKey ResourceLimitsObject.byOwner (false, p.owner) m.limits unknownKeyError
  let totalRamBytes ← updateStateAndValue m.state.totalRamBytes actual.ramBytes p.ramBytes
  let totalCpuWeight ← updateStateAndValue m.state.totalCpuWeight actual.cpuWeight p.cpuWeight
  let totalNetWeight ← updateStateAndValue m.state.totalNetWeight actual.netWeight p.netWeight
  let limits := m.limits.set j
    { actual with ramBytes := p.ramBytes, cpuWeight := p.cpuWeight, netWeight := p.netWeight }
  pure { m with limits := limits.eraseIdx pi,
                state := { m.state with totalRamBytes, totalCpuWeight, totalNetWeight } }

/-- the loop of `process_account_limit_updates`, one iteration per unit of `fuel` -/
def processLoop : Nat → ResourceLimitsManager → Except String ResourceLimitsManager
  | 0, m => pure m
  | fuel + 1, m =>
    match firstPending m.limits with
    | none => pure m
    | some (i, p) => do
      let m ← m.applyPending p i
      processLoop fuel m

/-- `process_account_limit_updates`: each iteration removes a row -/
def processAccountLimitUpdates : Except String ResourceLimitsManager :=
  processLoop m.limits.length m

/-- `process_block_usage` -/
def processBlockUsage (blockNum : Nat) : Except String ResourceLimitsManager := do
  let s := m.state
  let config := m.config
  let averageBlockCpuUsage ←
    s.averageBlockCpuUsage.add s.pendingCpuUsage blockNum config.cpuLimitParameters.periods
  let virtualCpuLimit ←
    updateElasticLimit s.virtualCpuLimit averageBlockCpuUsage.average config.cpuLimitParameters
  let averageBlockNetUsage ←
    s.averageBlockNetUsage.add s.pendingNetUsage blockNum config.netLimitParameters.periods
  let virtualNetLimit ←
    updateElasticLimit s.virtualNetLimit averageBlockNetUsage.average config.netLimitParameters
  pure { m with state := { s with averageBlockCpuUsage, virtualCpuLimit, pendingCpuUsage := 0,
                                  averageBlockNetUsage, virtualNetLimit, pendingNetUsage := 0 } }

/-- `get_block_cpu_limit` -/
def getBlockCpuLimit : Nat := uint64Sub m.config.cpuLimitParameters.max m.state.pendingCpuUsage

/-- `get_block_net_limit` -/
def getBlockNetLimit : Nat := uint64Sub m.config.netLimitParameters.max m.state.pendingNetUsage

/-- `get_account_cpu_limit_ex`; the capacity is the virtual limit when `elastic` -/
def getAccountCpuLimitEx (name : Nat) (elastic : Bool) : Except String AccountResourceLimit := do
  let (_, usage) ← m.getUsage name
  let (_, _, cpuWeight) ← m.getAccountLimits name
  accountLimitEx usage.cpuUsage cpuWeight m.state.totalCpuWeight
    (if elastic then m.state.virtualCpuLimit else m.config.cpuLimitParameters.max)
    m.config.accountCpuUsageAverageWindow

/-- `get_account_net_limit_ex` -/
def getAccountNetLimitEx (name : Nat) (elastic : Bool) : Except String AccountResourceLimit := do
  let (_, usage) ← m.getUsage name
  let (_, netWeight, _) ← m.getAccountLimits name
  accountLimitEx usage.netUsage netWeight m.state.totalNetWeight
    (if elastic then m.state.virtualNetLimit else m.config.netLimitParameters.max)
    m.config.accountNetUsageAverageWindow

/-- `get_account_cpu_limit` -/
def getAccountCpuLimit (name : Nat) (elastic : Bool) : Except String Int :=
  (·.available) <$> m.getAccountCpuLimitEx name elastic

/-- `get_account_net_limit` -/
def getAccountNetLimit (name : Nat) (elastic : Bool) : Except String Int :=
  (·.available) <$> m.getAccountNetLimitEx name elastic

end ResourceLimitsManager

/-! ## What the pieces compute -/

theorem firstPending_get :
    ∀ {rows : List ResourceLimitsObject} {i : Nat} {p : ResourceLimitsObject},
      firstPending rows = some (i, p) → rows[i]? = some p ∧ p.pending = true
  | [], _, _, h => nomatch h
  | o :: os, i, p, h => by
    have hrest : ∀ {j q}, (firstPending os).map (fun q => (q.1 + 1, q.2)) = some (j, q) →
        (o :: os)[j]? = some q ∧ q.pending = true := by
      intro j q hj
      obtain ⟨⟨k, q'⟩, hk, hkq⟩ := Option.map_eq_some_iff.mp hj
      cases hkq
      have hos := firstPending_get hk
      simpa using hos
    unfold firstPending at h
    dsimp only at h
    split at h
    · next ho =>
      split at h
      · next j q hq =>
        split at h
        · cases h
          exact hrest hq
        · cases h
          exact ⟨rfl, ho⟩
      · cases h
        exact ⟨rfl, ho⟩
    · exact hrest h

theorem firstPending_eq_none :
    ∀ {rows : List ResourceLimitsObject}, firstPending rows = none → ∀ o ∈ rows, o.pending = false
  | [], _, _, ho => nomatch ho
  | o :: os, h, r, hr => by
    unfold firstPending at h
    dsimp only at h
    split at h
    · split at h
      · split at h <;> cases h
      · cases h
    · next ho =>
      rcases List.mem_cons.mp hr with rfl | hr
      · simpa using ho
      · exact firstPending_eq_none (Option.map_eq_none_iff.mp h) r hr

theorem revertOld_eq_ok {total t : Nat} {value : Int} (h : revertOld total value = .ok t) :
    (t : Int) = total - max value 0 := by
  unfold revertOld at h
  split at h
  · next hv =>
    obtain ⟨hle, h⟩ := assert_bind_eq_ok.mp h
    cases h
    have hle' : value.toNat ≤ total := of_decide_eq_true hle
    rw [max_eq_left hv.le]
    omega
  · next hv =>
    cases h
    rw [max_eq_right (not_lt.mp hv)]
    omega

theorem revertOld_ok {total : Nat} {value : Int} (hle : max value 0 ≤ (total : Int)) :
    ∃ t, revertOld total value = .ok t := by
  unfold revertOld
  split
  · next hv =>
    have hle' : value.toNat ≤ total := by
      rw [max_eq_left hv.le] at hle
      omega
    exact ⟨_, assert_bind_eq_ok.mpr ⟨decide_eq_true hle', rfl⟩⟩
  · exact ⟨total, rfl⟩

theorem applyNew_eq_ok {total t : Nat} {pendingValue : Int} (h : applyNew total pendingValue = .ok t) :
    (t : Int) = total + max pendingValue 0 := by
  unfold applyNew at h
  split at h
  · next hv =>
    obtain ⟨-, h⟩ := assert_bind_eq_ok.mp h
    cases h
    rw [max_eq_left hv.le]
    omega
  · next hv =>
    cases h
    rw [max_eq_right (not_lt.mp hv)]
    omega

theorem applyNew_error {total : Nat} {pendingValue : Int} {e : String}
    (h : applyNew total pendingValue = .error e) : e = "overflow when applying new value to ${which}" := by
  unfold applyNew at h
  split at h
  · rcases bind_eq_error.mp h with h | ⟨_, -, h⟩
    · unfold assert at h
      split at h
      · cases h
      · cases h
        rfl
    · cases h
  · cases h

/-- **`update_state_and_value`**: the total less the old value's positive part, plus the new
one's -/
theorem updateStateAndValue_eq_ok {total t : Nat} {value pendingValue : Int}
    (h : updateStateAndValue total value pendingValue = .ok t) :
    (t : Int) = total - max value 0 + max pendingValue 0 := by
  obtain ⟨t1, h1, h⟩ := bind_eq_ok.mp h
  rw [applyNew_eq_ok h, revertOld_eq_ok h1]

theorem updateStateAndValue_error {total : Nat} {value pendingValue : Int} {e : String}
    (hle : max value 0 ≤ (total : Int)) (h : updateStateAndValue total value pendingValue = .error e) :
    e = "overflow when applying new value to ${which}" := by
  obtain ⟨t1, h1⟩ := revertOld_ok hle
  rcases bind_eq_error.mp h with h | ⟨t, ht, h⟩
  · rw [h1] at h
    cases h
  · exact applyNew_error h

theorem applyPending_eq_ok {m m' : ResourceLimitsManager} {p : ResourceLimitsObject} {pi : Nat}
    (h : m.applyPending p pi = .ok m') :
    ∃ j actual, m.limits[j]? = some actual ∧ actual.byOwner = (false, p.owner) ∧
      updateStateAndValue m.state.totalRamBytes actual.ramBytes p.ramBytes
        = .ok m'.state.totalRamBytes ∧
      updateStateAndValue m.state.totalCpuWeight actual.cpuWeight p.cpuWeight
        = .ok m'.state.totalCpuWeight ∧
      updateStateAndValue m.state.totalNetWeight actual.netWeight p.netWeight
        = .ok m'.state.totalNetWeight ∧
      m'.limits = (m.limits.set j
        { actual with ramBytes := p.ramBytes, cpuWeight := p.cpuWeight, netWeight := p.netWeight }).eraseIdx
        pi := by
  unfold ResourceLimitsManager.applyPending at h
  obtain ⟨⟨j, actual⟩, hget, h⟩ := bind_eq_ok.mp h
  obtain ⟨ram, hram, h⟩ := bind_eq_ok.mp h
  obtain ⟨cpu, hcpu, h⟩ := bind_eq_ok.mp h
  obtain ⟨net, hnet, h⟩ := bind_eq_ok.mp h
  cases h
  obtain ⟨hj, hkey⟩ := getKey_eq_ok hget
  exact ⟨j, actual, hj, hkey, hram, hcpu, hnet, rfl⟩

/-- a mutating call of the manager -/
inductive ResourceRequest
  | initializeAccount (account : Nat)
  | setBlockParameters (cpu net : ElasticLimitParameters)
  | updateAccountUsage (accounts : List Nat) (timeSlot : Nat)
  | addTransactionUsage (accounts : List Nat) (cpuUsage netUsage timeSlot : Nat)
  | addPendingRamUsage (account : Nat) (ramDelta : Int)
  | setAccountLimits (account : Nat) (ramBytes netWeight cpuWeight : Int)
  | processAccountLimitUpdates
  | processBlockUsage (blockNum : Nat)
  deriving DecidableEq, Repr

/-- the manager after one call; an exception rolls the call back -/
def step (m : ResourceLimitsManager) : ResourceRequest → Except String ResourceLimitsManager
  | .initializeAccount a => m.initializeAccount a
  | .setBlockParameters cpu net => m.setBlockParameters cpu net
  | .updateAccountUsage accounts slot => m.updateAccountUsage accounts slot
  | .addTransactionUsage accounts cpu net slot => m.addTransactionUsage accounts cpu net slot
  | .addPendingRamUsage a delta => m.addPendingRamUsage a delta
  | .setAccountLimits a ram net cpu => Prod.fst <$> m.setAccountLimits a ram net cpu
  | .processAccountLimitUpdates => m.processAccountLimitUpdates
  | .processBlockUsage blockNum => m.processBlockUsage blockNum

end Eos.Resource
