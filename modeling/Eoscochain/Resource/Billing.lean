import Eoscochain.Resource.Limits
import Eoscochain.Lib.Run

/-!
# Billing after admission

`transaction_context::finalize` bills a transaction with `add_transaction_usage` once it has
run, within the limits that `get_account_cpu_limit` and `get_account_net_limit` gave each
billed account after `update_account_usage`.  The limit rounds the account's use up and the
check of `add_transaction_usage` rounds the new use down; with a window no longer than
`rate_limiting_precision` the rounding of the addition fits between the two
(`checkWindow_of_accountLimitEx`, from `FixedPoint.rescale_add_ceilDiv_le`).

That is not enough for an account already over its share: its limit is `0`, a bill of `0`
keeps within it, and the check still fails (`overdrawn_account_billing_fails`).  With a
positive limit that covers the bill, room in the accumulators and a block within its limits,
billing succeeds (`billing_succeeds_within_limits`).
-/

set_option linter.unusedSectionVars false

namespace Eos.Resource

open Machine Table ResourceLimitsManager

namespace UsageAccumulator

/-- none of the bounds of `add` trips for `units` more -/
def Room (a : UsageAccumulator) (units windowSize : Nat) : Prop :=
  units ≤ maxRawValue ∧ units ≤ uint64Max - a.consumed ∧
    integerDivideCeil (units * rateLimitingPrecision) windowSize ≤ uint64Max - a.valueEx

instance (a : UsageAccumulator) (units windowSize : Nat) : Decidable (a.Room units windowSize) :=
  inferInstanceAs (Decidable (units ≤ maxRawValue ∧ units ≤ uint64Max - a.consumed ∧
    integerDivideCeil (units * rateLimitingPrecision) windowSize ≤ uint64Max - a.valueEx))

theorem add_lastOrdinal {a a' : UsageAccumulator} {units ordinal windowSize : Nat}
    (h : a.add units ordinal windowSize = .ok a') : a'.lastOrdinal = ordinal := by
  unfold add at h
  obtain ⟨-, h⟩ := assert_bind_eq_ok.mp h
  obtain ⟨-, h⟩ := assert_bind_eq_ok.mp h
  obtain ⟨_, -, h⟩ := bind_eq_ok.mp h
  obtain ⟨-, h⟩ := assert_bind_eq_ok.mp h
  obtain ⟨a1, h1, h⟩ := bind_eq_ok.mp h
  cases h
  split at h1
  · next hord =>
    cases h1
    exact hord
  · -- a later period: `advance` moves to it
    unfold advance at h1
    obtain ⟨-, h1⟩ := assert_bind_eq_ok.mp h1
    obtain ⟨_, -, h1⟩ := bind_eq_ok.mp h1
    cases h1
    rfl

theorem add_same_ordinal {a : UsageAccumulator} {units ordinal windowSize : Nat}
    (hord : a.lastOrdinal = ordinal) (hroom : a.Room units windowSize) :
    ∃ a', a.add units ordinal windowSize = .ok a' ∧
      a'.valueEx = a.valueEx + integerDivideCeil (units * rateLimitingPrecision) windowSize := by
  obtain ⟨h1, h2, h3⟩ := hroom
  have hcast : downgradeCast uint64Max (integerDivideCeil (units * rateLimitingPrecision) windowSize)
      = .ok (integerDivideCeil (units * rateLimitingPrecision) windowSize) := by
    unfold downgradeCast
    rw [decide_eq_true (by omega)]
    rfl
  refine ⟨{ a with
      consumed := a.consumed + units
      valueEx := a.valueEx + integerDivideCeil (units * rateLimitingPrecision) windowSize }, ?_, rfl⟩
  unfold add
  simp only [decide_eq_true h1, decide_eq_true h2, assert_true, pure_bind]
  rw [hcast, ok_bind]
  simp only [decide_eq_true h3, assert_true, pure_bind, hord, if_true]
  rfl

end UsageAccumulator

theorem downgradeCast_eq_ok {max val r : Nat} (h : downgradeCast max val = .ok r) :
    r = val ∧ val ≤ max := by
  unfold downgradeCast at h
  obtain ⟨hle, h⟩ := assert_bind_eq_ok.mp h
  cases h
  exact ⟨rfl, of_decide_eq_true hle⟩

/-- **The check of `add_transaction_usage` passes where the limit of `get_account_*_limit`
covered the bill.** -/
theorem checkWindow_of_accountLimitEx {u u' : UsageAccumulator} {weight : Int}
    {totalWeight capacity windowSize units : Nat} {l : AccountResourceLimit} (msg : String)
    (hwin : 0 < windowSize ∧ windowSize ≤ rateLimitingPrecision)
    (hl : accountLimitEx u weight totalWeight capacity windowSize = .ok l)
    (hcover : 0 ≤ l.available → 0 < l.available ∧ (units : Int) ≤ l.available)
    (hu' : u'.valueEx = u.valueEx + integerDivideCeil (units * rateLimitingPrecision) windowSize) :
    checkWindow u' weight totalWeight capacity windowSize msg = .ok () := by
  unfold checkWindow
  split
  · next hpos =>
    obtain ⟨hw, hT⟩ := hpos
    unfold accountLimitEx at hl
    rw [if_neg (by omega)] at hl
    obtain ⟨available, havail, hl⟩ := bind_eq_ok.mp hl
    obtain ⟨_, -, hl⟩ := bind_eq_ok.mp hl
    obtain ⟨_, -, hl⟩ := bind_eq_ok.mp hl
    cases hl
    dsimp only at hcover
    set maxUserUse := maxUserUseInWindow capacity windowSize weight.toNat totalWeight
    set used := integerDivideCeil (u.valueEx * windowSize) rateLimitingPrecision with hused
    split at havail
    · -- a limit of `0` covers no bill, and `Billable` excludes it
      cases havail
      exact absurd (hcover le_rfl).1 (lt_irrefl 0)
    · next hlt =>
      obtain ⟨rfl, -⟩ := downgradeCast_eq_ok havail
      have hcover' := (hcover (by omega)).2
      have hP : 0 < rateLimitingPrecision := by decide
      have hread : u'.valueEx * windowSize / rateLimitingPrecision ≤ used + units := by
        rw [hu', integerDivideCeil_eq hwin.1, hused, integerDivideCeil_eq hP]
        exact FixedPoint.rescale_add_ceilDiv_le hwin.2
      have hfit : used + units ≤ maxUserUse := by omega
      rw [decide_eq_true (hread.trans hfit)]
      rfl
  · rfl

/-! ## One account -/

/-- the billing windows of the configuration are no longer than the precision -/
def WindowsWithinPrecision (config : ResourceLimitsConfig) : Prop :=
  (0 < config.accountCpuUsageAverageWindow ∧ config.accountCpuUsageAverageWindow ≤ rateLimitingPrecision) ∧
    (0 < config.accountNetUsageAverageWindow ∧ config.accountNetUsageAverageWindow ≤ rateLimitingPrecision)

instance (config : ResourceLimitsConfig) : Decidable (WindowsWithinPrecision config) :=
  inferInstanceAs (Decidable ((0 < config.accountCpuUsageAverageWindow ∧
    config.accountCpuUsageAverageWindow ≤ rateLimitingPrecision) ∧
    (0 < config.accountNetUsageAverageWindow ∧ config.accountNetUsageAverageWindow ≤ rateLimitingPrecision)))

/-- what a billed account needs for its bill to pass: where it is limited, a positive limit
that covers the bill, and room for the bill in its accumulators -/
def Billable (m : ResourceLimitsManager) (account cpuUsage netUsage : Nat) : Prop :=
  (∃ l, m.getAccountCpuLimit account true = .ok l ∧ (0 ≤ l → 0 < l ∧ (cpuUsage : Int) ≤ l)) ∧
  (∃ l, m.getAccountNetLimit account true = .ok l ∧ (0 ≤ l → 0 < l ∧ (netUsage : Int) ≤ l)) ∧
  ∀ i u, m.getUsage account = .ok (i, u) →
    u.cpuUsage.Room cpuUsage m.config.accountCpuUsageAverageWindow ∧
      u.netUsage.Room netUsage m.config.accountNetUsageAverageWindow

/-- the usage row of an account, stamped with the period of `update_account_usage` -/
def Stamped (m : ResourceLimitsManager) (account timeSlot : Nat) : Prop :=
  ∃ i u, m.getUsage account = .ok (i, u) ∧
    u.cpuUsage.lastOrdinal = timeSlot ∧ u.netUsage.lastOrdinal = timeSlot

section Account
variable {s m : ResourceLimitsManager} {account cpuUsage netUsage timeSlot : Nat}

theorem getAccountLimits_congr (hl : s.limits = m.limits) :
    s.getAccountLimits account = m.getAccountLimits account := by
  unfold getAccountLimits
  rw [hl]

theorem Billable.congr (hb : Billable m account cpuUsage netUsage)
    (hu : s.getUsage account = m.getUsage account) (hl : s.limits = m.limits)
    (hs : s.state = m.state) (hc : s.config = m.config) : Billable s account cpuUsage netUsage := by
  have hlim : s.getAccountLimits account = m.getAccountLimits account := getAccountLimits_congr hl
  obtain ⟨hcpu, hnet, hroom⟩ := hb
  refine ⟨?_, ?_, ?_⟩
  · unfold getAccountCpuLimit getAccountCpuLimitEx
    rw [hu, hlim, hs, hc]
    exact hcpu
  · unfold getAccountNetLimit getAccountNetLimitEx
    rw [hu, hlim, hs, hc]
    exact hnet
  · rw [hu, hc]
    exact hroom

theorem addUsage_eq_ok {u u' : ResourceUsageObject} {config : ResourceLimitsConfig}
    (h : u.addUsage config cpuUsage netUsage timeSlot = .ok u') :
    u'.owner = u.owner ∧ u'.cpuUsage.lastOrdinal = timeSlot ∧ u'.netUsage.lastOrdinal = timeSlot := by
  unfold ResourceUsageObject.addUsage at h
  obtain ⟨net, hnet, h⟩ := bind_eq_ok.mp h
  obtain ⟨cpu, hcpu, h⟩ := bind_eq_ok.mp h
  cases h
  exact ⟨rfl, UsageAccumulator.add_lastOrdinal hcpu, UsageAccumulator.add_lastOrdinal hnet⟩

theorem getUsage_set_of_ne {i : Nat} {u u' : ResourceUsageObject} {other : Nat}
    (hget : s.getUsage account = .ok (i, u)) (howner : u'.owner = u.owner) (hne : account ≠ other) :
    ({ s with usage := s.usage.set i u' } : ResourceLimitsManager).getUsage other = s.getUsage other := by
  obtain ⟨hi, hkey⟩ := getKey_eq_ok hget
  obtain ⟨hlt, hiu⟩ := List.getElem?_eq_some_iff.mp hi
  unfold getUsage getKey
  dsimp only
  rw [findKey_set_of_ne hlt (by rw [hiu]; exact howner) (by rw [hiu, hkey]; exact hne)]

theorem getUsage_set_self {i : Nat} {u u' : ResourceUsageObject}
    (hget : s.getUsage account = .ok (i, u)) (howner : u'.owner = u.owner) :
    ({ s with usage := s.usage.set i u' } : ResourceLimitsManager).getUsage account = .ok (i, u') := by
  unfold getUsage getKey at hget ⊢
  split at hget
  · next q hq =>
    cases hget
    obtain ⟨-, hkey⟩ := findKey_get hq
    dsimp only
    rw [findKey_set_self hq (howner.trans hkey)]
    rfl
  · cases hget

theorem touchUsage_stamped (h : s.touchUsage account timeSlot = .ok m) : Stamped m account timeSlot := by
  unfold touchUsage at h
  obtain ⟨⟨i, u⟩, hget, h⟩ := bind_eq_ok.mp h
  obtain ⟨u', hadd, h⟩ := bind_eq_ok.mp h
  cases h
  obtain ⟨howner, hcpu, hnet⟩ := addUsage_eq_ok hadd
  exact ⟨i, u', getUsage_set_self hget howner, hcpu, hnet⟩

theorem touchUsage_keeps_stamp {other : Nat} (h : s.touchUsage account timeSlot = .ok m)
    (hst : Stamped s other timeSlot) : Stamped m other timeSlot := by
  by_cases ho : account = other
  · subst ho
    exact touchUsage_stamped h
  · unfold touchUsage at h
    obtain ⟨⟨i, u⟩, hget, h⟩ := bind_eq_ok.mp h
    obtain ⟨u', hadd, h⟩ := bind_eq_ok.mp h
    cases h
    obtain ⟨j, v, hv, hvc, hvn⟩ := hst
    exact ⟨j, v, (getUsage_set_of_ne hget (addUsage_eq_ok hadd).1 ho).trans hv, hvc, hvn⟩

theorem updateAccountUsage_stamped :
    ∀ (accounts : List Nat) {s m : ResourceLimitsManager},
      s.updateAccountUsage accounts timeSlot = .ok m →
        (∀ a, Stamped s a timeSlot → Stamped m a timeSlot) ∧ ∀ a ∈ accounts, Stamped m a timeSlot
  | [], s, m, h => by
    cases h
    exact ⟨fun _ h => h, fun _ ha => nomatch ha⟩
  | b :: rest, s, m, h => by
    unfold updateAccountUsage at h
    rw [List.foldlM_cons] at h
    obtain ⟨s1, h1, h⟩ := bind_eq_ok.mp h
    obtain ⟨hkeep, hrest⟩ := updateAccountUsage_stamped rest h
    refine ⟨fun a ha => hkeep a (touchUsage_keeps_stamp h1 ha), fun a ha => ?_⟩
    rcases List.mem_cons.mp ha with rfl | ha
    · exact hkeep a (touchUsage_stamped h1)
    · exact hrest a ha

/-- **One account billed.**  Stamped with the period, and billable, it is billed; only its usage
row changes. -/
theorem billAccount_ok (hwin : WindowsWithinPrecision s.config) {i : Nat} {u : ResourceUsageObject}
    (hget : s.getUsage account = .ok (i, u))
    (hord : u.cpuUsage.lastOrdinal = timeSlot ∧ u.netUsage.lastOrdinal = timeSlot)
    (hbill : Billable s account cpuUsage netUsage) :
    ∃ u', s.billAccount account cpuUsage netUsage timeSlot = .ok { s with usage := s.usage.set i u' } ∧
      u'.owner = u.owner := by
  obtain ⟨⟨lc, hlc, hcoverc⟩, ⟨ln, hln, hcovern⟩, hroom⟩ := hbill
  obtain ⟨roomCpu, roomNet⟩ := hroom i u hget
  obtain ⟨L, hL, rfl⟩ := map_eq_ok.mp hlc
  unfold getAccountCpuLimitEx at hL
  rw [hget, ok_bind] at hL
  dsimp only at hL
  obtain ⟨⟨ram, netWeight, cpuWeight⟩, hlim, hL⟩ := bind_eq_ok.mp hL
  rw [if_pos rfl] at hL
  obtain ⟨N, hN, rfl⟩ := map_eq_ok.mp hln
  unfold getAccountNetLimitEx at hN
  rw [hget, ok_bind] at hN
  dsimp only at hN
  rw [hlim, ok_bind, if_pos rfl] at hN
  dsimp only at hN
  obtain ⟨net', hnet', hnetV⟩ := UsageAccumulator.add_same_ordinal hord.2 roomNet
  obtain ⟨cpu', hcpu', hcpuV⟩ := UsageAccumulator.add_same_ordinal hord.1 roomCpu
  have hadd : u.addUsage s.config cpuUsage netUsage timeSlot = .ok { u with netUsage := net', cpuUsage := cpu' } := by
    unfold ResourceUsageObject.addUsage
    rw [hnet', ok_bind, hcpu', ok_bind]
    rfl
  have hcheckCpu := checkWindow_of_accountLimitEx
    "authorizing account '${n}' has insufficient cpu resources for this transaction" hwin.1 hL hcoverc
    hcpuV
  have hcheckNet := checkWindow_of_accountLimitEx
    "authorizing account '${n}' has insufficient net resources for this transaction" hwin.2 hN hcovern
    hnetV
  refine ⟨{ u with netUsage := net', cpuUsage := cpu' }, ?_, rfl⟩
  unfold billAccount
  rw [hget, ok_bind]
  dsimp only
  rw [hlim, ok_bind]
  dsimp only
  rw [hadd, ok_bind, hcheckCpu, ok_bind, hcheckNet, ok_bind]
  rfl

end Account

/-! ## The transaction -/

/-- the block's usage within its limits, which are 64-bit values -/
def BlockWithinLimits (m : ResourceLimitsManager) : Prop :=
  (m.state.pendingCpuUsage ≤ m.config.cpuLimitParameters.max ∧ m.config.cpuLimitParameters.max ≤ uint64Max) ∧
    (m.state.pendingNetUsage ≤ m.config.netLimitParameters.max ∧ m.config.netLimitParameters.max ≤ uint64Max)

instance (m : ResourceLimitsManager) : Decidable (BlockWithinLimits m) :=
  inferInstanceAs (Decidable ((m.state.pendingCpuUsage ≤ m.config.cpuLimitParameters.max ∧
    m.config.cpuLimitParameters.max ≤ uint64Max) ∧ (m.state.pendingNetUsage ≤ m.config.netLimitParameters.max ∧
    m.config.netLimitParameters.max ≤ uint64Max)))

theorem pending_add_le {pending max usage : Nat} (hpending : pending ≤ max) (hmax : max ≤ uint64Max)
    (husage : usage ≤ uint64Sub max pending) : (pending + usage) % 2 ^ 64 ≤ max := by
  unfold uint64Sub at husage
  unfold uint64Max at hmax
  have hsub : max + 2 ^ 64 - pending = (max - pending) + 2 ^ 64 := by omega
  rw [hsub, Nat.add_mod_right, Nat.mod_eq_of_lt (by omega)] at husage
  rw [Nat.mod_eq_of_lt (by omega)]
  omega

theorem billAccounts_ok {m : ResourceLimitsManager} {cpuUsage netUsage timeSlot : Nat}
    (hwin : WindowsWithinPrecision m.config) :
    ∀ (accounts : List Nat) (s : ResourceLimitsManager), accounts.Nodup →
      s.limits = m.limits → s.state = m.state → s.config = m.config →
      (∀ a ∈ accounts, s.getUsage a = m.getUsage a) →
      (∀ a ∈ accounts, Stamped m a timeSlot) → (∀ a ∈ accounts, Billable m a cpuUsage netUsage) →
      ∃ s', accounts.foldlM (fun s a => s.billAccount a cpuUsage netUsage timeSlot) s = .ok s' ∧
        s'.state = m.state ∧ s'.config = m.config
  | [], s, _, _, hs, hc, _, _, _ => ⟨s, rfl, hs, hc⟩
  | a :: rest, s, hnodup, hl, hs, hc, hu, hstamp, hbill => by
    obtain ⟨hnotin, hnodup⟩ := List.nodup_cons.mp hnodup
    obtain ⟨i, u, hget, hord⟩ := hstamp a List.mem_cons_self
    have hgets : s.getUsage a = .ok (i, u) := (hu a List.mem_cons_self).trans hget
    obtain ⟨u', hs1, howner⟩ := billAccount_ok (hc ▸ hwin) hgets (hord)
      ((hbill a List.mem_cons_self).congr (hu a List.mem_cons_self) hl hs hc)
    rw [List.foldlM_cons, hs1, ok_bind]
    refine billAccounts_ok hwin rest _ hnodup hl hs hc (fun b hb => ?_)
      (fun b hb => hstamp b (List.mem_cons_of_mem a hb)) (fun b hb => hbill b (List.mem_cons_of_mem a hb))
    have hne : a ≠ b := fun hab => hnotin (hab ▸ hb)
    exact (getUsage_set_of_ne hgets howner hne).trans (hu b (List.mem_cons_of_mem a hb))

/-- **Billing succeeds within the limits.**  After `update_account_usage`, a transaction whose
bill is within the positive elastic limits of its accounts, within the block's limits and
within the room of the accumulators is billed. -/
theorem billing_succeeds_within_limits {m0 m : ResourceLimitsManager} {accounts : List Nat}
    {cpuUsage netUsage timeSlot : Nat} (hwin : WindowsWithinPrecision m.config)
    (hblock : BlockWithinLimits m) (hnodup : accounts.Nodup)
    (hupdate : m0.updateAccountUsage accounts timeSlot = .ok m)
    (haccounts : ∀ a ∈ accounts, Billable m a cpuUsage netUsage)
    (hcpu : cpuUsage ≤ m.getBlockCpuLimit) (hnet : netUsage ≤ m.getBlockNetLimit) :
    ∃ m', m.addTransactionUsage accounts cpuUsage netUsage timeSlot = .ok m' := by
  obtain ⟨s, hs, hss, hsc⟩ := billAccounts_ok hwin accounts m hnodup rfl rfl rfl (fun _ _ => rfl)
    (updateAccountUsage_stamped accounts hupdate).2 haccounts
  obtain ⟨⟨hpc, hmc⟩, ⟨hpn, hmn⟩⟩ := hblock
  have hcpuBlock := pending_add_le hpc hmc hcpu
  have hnetBlock := pending_add_le hpn hmn hnet
  rw [← hss, ← hsc] at hcpuBlock hnetBlock
  unfold addTransactionUsage
  rw [hs, ok_bind]
  dsimp only
  rw [decide_eq_true hcpuBlock, decide_eq_true hnetBlock]
  exact ⟨_, rfl⟩

/-- account `1` with a cpu weight of `1`, the change processed -/
def sampleBillingRun : List ResourceRequest :=
  [.initializeAccount 1, .setAccountLimits 1 (-1) (-1) 1, .processAccountLimitUpdates]

/-- the tables after `sampleBillingRun` and `update_account_usage` of `1` in slot `1` -/
def sampleBillingState : ResourceLimitsManager :=
  { initializeDatabase with
    limits := [{ owner := 1, cpuWeight := 1 }]
    usage := [{ owner := 1, netUsage := { lastOrdinal := 1 }, cpuUsage := { lastOrdinal := 1 } }]
    state := { initializeDatabase.state with totalCpuWeight := 1 } }

theorem sample_billing_succeeds : ∃ m', sampleBillingState.addTransactionUsage [1] 100 0 1 = .ok m' := by
  have hupdate : (exec step initializeDatabase sampleBillingRun).updateAccountUsage [1] 1
      = .ok sampleBillingState := by decide +kernel
  have hbillable : ∀ a ∈ [1], Billable sampleBillingState a 100 0 := by
    intro a ha
    rw [List.mem_singleton.mp ha]
    have husage : sampleBillingState.getUsage 1 = .ok (0, sampleBillingState.usage[0]) := by decide +kernel
    refine ⟨⟨34560000000, by decide +kernel, by decide⟩, ⟨-1, by decide +kernel, by decide⟩, ?_⟩
    intro i u h
    rw [husage] at h
    cases h
    decide
  exact billing_succeeds_within_limits (by decide) (by decide) (by decide) hupdate hbillable
    (by decide) (by decide)

/-! ## An account over its share -/

/-- accounts `1` and `2`; `1` gets a cpu weight of `1` and is billed `1000` µs in slot `1`; then
`2` gets a weight of `10^8`, and once the change is processed the share of `1` is below what it
used -/
def sampleOverdrawRun : List ResourceRequest := [
  .initializeAccount 1, .initializeAccount 2,
  .setAccountLimits 1 (-1) (-1) 1, .processAccountLimitUpdates,
  .updateAccountUsage [1] 1, .addTransactionUsage [1] 1000 0 1,
  .setAccountLimits 2 (-1) (-1) 100000000, .processAccountLimitUpdates]

/-- the tables then, after `update_account_usage` of `1` in slot `1`: `1` has used `1000` µs
(`5788` scaled by the precision over the window), and its share of the window is
`200000 * 172800 / (10^8 + 1) = 345` µs -/
def sampleOverdrawn : ResourceLimitsManager :=
  { initializeDatabase with
    limits := [{ owner := 1, cpuWeight := 1 }, { owner := 2, cpuWeight := 100000000 }]
    usage := [{ owner := 1, netUsage := { lastOrdinal := 1 },
                cpuUsage := { lastOrdinal := 1, valueEx := 5788, consumed := 1000 } },
              { owner := 2 }]
    state := { initializeDatabase.state with pendingCpuUsage := 1000, totalCpuWeight := 100000001 } }

theorem overdrawn_account_billing_fails :
    ∃ m0, Reachable step initializeDatabase m0 ∧ m0.updateAccountUsage [1] 1 = .ok sampleOverdrawn ∧
      WindowsWithinPrecision sampleOverdrawn.config ∧ BlockWithinLimits sampleOverdrawn ∧
      sampleOverdrawn.getAccountCpuLimit 1 true = .ok 0 ∧ sampleOverdrawn.getAccountCpuLimit 1 false = .ok 0 ∧
      sampleOverdrawn.getAccountNetLimit 1 true = .ok (-1) ∧
      sampleOverdrawn.getAccountNetLimit 1 false = .ok (-1) ∧
      sampleOverdrawn.addTransactionUsage [1] 0 0 1
        = .error "authorizing account '${n}' has insufficient cpu resources for this transaction" :=
  ⟨_, reachable_exec sampleOverdrawRun, by decide +kernel, by decide, by decide, by decide +kernel,
    by decide +kernel, by decide +kernel, by decide +kernel, by decide +kernel⟩

end Eos.Resource
