import Mathlib.Algebra.Order.BigOperators.Group.List
import Mathlib.Algebra.Order.Group.Int
import Eoscochain.Resource.Limits
import Eoscochain.Lib.Run

/-!
# The resource totals

`total_ram_bytes`, `total_cpu_weight` and `total_net_weight` of the state are the sums of the
positive limits in force (`TotalsInv`).  A change of limits waits in a pending row, one an
account at most, which counts for nothing until `process_account_limit_updates` folds it in;
the loop then takes out of a total a value the total holds, so only an overflow can stop it,
and it ends with no pending row (`processLoop_no_pending`).  Every call of the manager keeps
the invariant (`step_totalsInv`), from the initial tables on.
-/

set_option linter.unusedSectionVars false

namespace Eos.Resource

open Machine Table ResourceLimitsManager

/-- what a row adds to the total of `field`: a limit in force that is not unlimited -/
def contribution (field : ResourceLimitsObject → Int) (o : ResourceLimitsObject) : Int :=
  if o.pending then 0 else max (field o) 0

def totalOf (field : ResourceLimitsObject → Int) (rows : List ResourceLimitsObject) : Int :=
  (rows.map (contribution field)).sum

theorem contribution_nonneg (field : ResourceLimitsObject → Int) (o : ResourceLimitsObject) :
    0 ≤ contribution field o := by
  unfold contribution
  split
  · exact le_rfl
  · exact le_max_right _ _

theorem contribution_pending {field : ResourceLimitsObject → Int} {o : ResourceLimitsObject}
    (h : o.pending = true) : contribution field o = 0 := by
  simp [contribution, h]

theorem contribution_inForce {field : ResourceLimitsObject → Int} {o : ResourceLimitsObject}
    (h : o.pending = false) : contribution field o = max (field o) 0 := by
  simp [contribution, h]

theorem contribution_le_totalOf (field : ResourceLimitsObject → Int) {rows : List ResourceLimitsObject}
    {o : ResourceLimitsObject} (ho : o ∈ rows) : contribution field o ≤ totalOf field rows := by
  refine List.single_le_sum (fun x hx => ?_) _ (List.mem_map_of_mem ho)
  obtain ⟨y, -, rfl⟩ := List.mem_map.mp hx
  exact contribution_nonneg field y

theorem totalOf_append (field : ResourceLimitsObject → Int) (rows : List ResourceLimitsObject)
    (o : ResourceLimitsObject) : totalOf field (rows ++ [o]) = totalOf field rows + contribution field o := by
  simp [totalOf]

theorem totalOf_set_eraseIdx (field : ResourceLimitsObject → Int) {rows : List ResourceLimitsObject}
    {j i : Nat} (x : ResourceLimitsObject) (hj : j < rows.length) (hi : i < rows.length) (hji : j ≠ i)
    (hpending : rows[i].pending = true) :
    totalOf field ((rows.set j x).eraseIdx i)
      = totalOf field rows - contribution field rows[j] + contribution field x := by
  have hi' : i < (rows.set j x).length := by simpa using hi
  have herase := sum_map_eraseIdx (contribution field) (rows.set j x) i hi'
  rw [List.getElem_set_ne hji, contribution_pending hpending, sub_zero] at herase
  unfold totalOf
  rw [herase, sum_map_set (contribution field) rows j x hj]

/-- the tables of the limits: each total the sum of the limits in force, each key once, and a
pending row only beside a row in force of its owner -/
structure TotalsInv (m : ResourceLimitsManager) : Prop where
  ram : (m.state.totalRamBytes : Int) = totalOf (·.ramBytes) m.limits
  cpu : (m.state.totalCpuWeight : Int) = totalOf (·.cpuWeight) m.limits
  net : (m.state.totalNetWeight : Int) = totalOf (·.netWeight) m.limits
  keysUnique : (m.limits.map ResourceLimitsObject.byOwner).Nodup
  inForce : ∀ p ∈ m.limits, p.pending = true → ∃ o ∈ m.limits, o.pending = false ∧ o.owner = p.owner

/-- a call that leaves the limits and the totals as they were -/
def LimitsFrame (m m' : ResourceLimitsManager) : Prop :=
  m'.limits = m.limits ∧ m'.state.totalRamBytes = m.state.totalRamBytes ∧
    m'.state.totalCpuWeight = m.state.totalCpuWeight ∧ m'.state.totalNetWeight = m.state.totalNetWeight

namespace LimitsFrame

theorem refl (m : ResourceLimitsManager) : LimitsFrame m m := ⟨rfl, rfl, rfl, rfl⟩

theorem trans {m m1 m2 : ResourceLimitsManager} (h1 : LimitsFrame m m1) (h2 : LimitsFrame m1 m2) :
    LimitsFrame m m2 :=
  ⟨h2.1.trans h1.1, h2.2.1.trans h1.2.1, h2.2.2.1.trans h1.2.2.1, h2.2.2.2.trans h1.2.2.2⟩

theorem usage (m : ResourceLimitsManager) (usage : List ResourceUsageObject) :
    LimitsFrame m { m with usage } :=
  refl m

end LimitsFrame

namespace TotalsInv

variable {m m' : ResourceLimitsManager}

theorem frame (hinv : TotalsInv m) (h : LimitsFrame m m') : TotalsInv m' := by
  obtain ⟨hl, hram, hcpu, hnet⟩ := h
  refine ⟨?_, ?_, ?_, ?_, ?_⟩
  · rw [hram, hl]
    exact hinv.ram
  · rw [hcpu, hl]
    exact hinv.cpu
  · rw [hnet, hl]
    exact hinv.net
  · rw [hl]
    exact hinv.keysUnique
  · rw [hl]
    exact hinv.inForce

theorem pending_unique (hinv : TotalsInv m) {p q : ResourceLimitsObject} (hp : p ∈ m.limits)
    (hq : q ∈ m.limits) (hpp : p.pending = true) (hqp : q.pending = true) (howner : p.owner = q.owner) :
    p = q := by
  apply List.inj_on_of_nodup_map hinv.keysUnique hp hq
  simp [ResourceLimitsObject.byOwner, hpp, hqp, howner]

theorem getKey_inForce (hinv : TotalsInv m) {p : ResourceLimitsObject} (hp : p ∈ m.limits)
    (hpp : p.pending = true) (msg : String) :
    ∃ j o, getKey ResourceLimitsObject.byOwner (false, p.owner) m.limits msg = .ok (j, o) := by
  obtain ⟨o, ho, hop, hoo⟩ := hinv.inForce p hp hpp
  unfold getKey
  split
  · next q _ => exact ⟨q.1, q.2, rfl⟩
  · next hnone =>
    have hne := findKey_eq_none hnone o ho
    simp [ResourceLimitsObject.byOwner, hop, hoo] at hne

end TotalsInv

theorem initial_totalsInv : TotalsInv initializeDatabase :=
  ⟨rfl, rfl, rfl, List.nodup_nil, fun _ hp => nomatch hp⟩

/-! ## The calls on the limits -/

section Limits
variable {m m' : ResourceLimitsManager}

theorem TotalsInv.initializeAccount (hinv : TotalsInv m) {account : Nat}
    (h : m.initializeAccount account = .ok m') : TotalsInv m' := by
  unfold ResourceLimitsManager.initializeAccount at h
  obtain ⟨hnew, h⟩ := assert_bind_eq_ok.mp h
  obtain ⟨-, h⟩ := assert_bind_eq_ok.mp h
  cases h
  have hnone := findKey_eq_none (Option.isNone_iff_eq_none.mp hnew)
  have hzero : ∀ field : ResourceLimitsObject → Int, field { owner := account } = -1 →
      contribution field { owner := account } = 0 := fun field hf => by
    rw [contribution_inForce rfl, hf]
    rfl
  refine ⟨?_, ?_, ?_, ?_, ?_⟩
  · rw [totalOf_append, hzero _ rfl, add_zero]
    exact hinv.ram
  · rw [totalOf_append, hzero _ rfl, add_zero]
    exact hinv.cpu
  · rw [totalOf_append, hzero _ rfl, add_zero]
    exact hinv.net
  · exact nodup_map_append hinv.keysUnique hnone
  · intro p hp hpp
    rcases List.mem_append.mp hp with hp | hp
    · obtain ⟨o, ho, hoo⟩ := hinv.inForce p hp hpp
      exact ⟨o, List.mem_append_left _ ho, hoo⟩
    · rw [List.mem_singleton.mp hp] at hpp
      cases hpp

theorem findOrCreatePendingLimits_eq_ok (hinv : TotalsInv m) {account i : Nat}
    {p : ResourceLimitsObject} (h : m.findOrCreatePendingLimits account = .ok (m', i, p)) :
    TotalsInv m' ∧ m'.state = m.state ∧ m'.limits[i]? = some p ∧ p.pending = true ∧ p.owner = account := by
  unfold ResourceLimitsManager.findOrCreatePendingLimits at h
  split at h
  · next i' p' hfind =>
    cases h
    obtain ⟨hget, hkey⟩ := findKey_get hfind
    simp only [ResourceLimitsObject.byOwner, Prod.mk.injEq] at hkey
    exact ⟨hinv, rfl, hget, hkey.1, hkey.2⟩
  · next hnone =>
    obtain ⟨⟨j, limits⟩, hget, h⟩ := bind_eq_ok.mp h
    cases h
    obtain ⟨hj, hkey⟩ := getKey_eq_ok hget
    simp only [ResourceLimitsObject.byOwner, Prod.mk.injEq] at hkey
    have hmem : limits ∈ m.limits := List.mem_of_getElem? hj
    have hnew := findKey_eq_none hnone
    refine ⟨⟨?_, ?_, ?_, ?_, ?_⟩, rfl, by simp, rfl, hkey.2⟩
    · rw [totalOf_append, contribution_pending rfl, add_zero]
      exact hinv.ram
    · rw [totalOf_append, contribution_pending rfl, add_zero]
      exact hinv.cpu
    · rw [totalOf_append, contribution_pending rfl, add_zero]
      exact hinv.net
    · refine nodup_map_append hinv.keysUnique fun r hr hkr => hnew r hr (hkr.trans ?_)
      simp [ResourceLimitsObject.byOwner, hkey.2]
    · intro q hq hqp
      rcases List.mem_append.mp hq with hq | hq
      · obtain ⟨o, ho, hoo⟩ := hinv.inForce q hq hqp
        exact ⟨o, List.mem_append_left _ ho, hoo⟩
      · rw [List.mem_singleton.mp hq]
        exact ⟨limits, List.mem_append_left _ hmem, hkey.1, rfl⟩

theorem TotalsInv.setAccountLimits (hinv : TotalsInv m) {account : Nat} {ramBytes netWeight cpuWeight : Int}
    {decreased : Bool} (h : m.setAccountLimits account ramBytes netWeight cpuWeight = .ok (m', decreased)) :
    TotalsInv m' := by
  unfold ResourceLimitsManager.setAccountLimits at h
  obtain ⟨⟨m1, i, p⟩, h1, h⟩ := bind_eq_ok.mp h
  cases h
  obtain ⟨hinv1, -, hget, hpp, -⟩ := findOrCreatePendingLimits_eq_ok hinv h1
  obtain ⟨hi, hpi⟩ := List.getElem?_eq_some_iff.mp hget
  set x : ResourceLimitsObject := { p with ramBytes, netWeight, cpuWeight } with hx
  have hxp : x.pending = true := hpp
  have hsum : ∀ field, totalOf field (m1.limits.set i x) = totalOf field m1.limits := fun field => by
    unfold totalOf
    rw [sum_map_set _ m1.limits i x hi, hpi, contribution_pending hpp, contribution_pending hxp]
    abel
  have hkeep : ∀ o ∈ m1.limits, o.pending = false → o ∈ m1.limits.set i x := fun o ho hop =>
    mem_set_of_ne x ho fun _ heq => by rw [heq, hpi, hpp] at hop; cases hop
  refine ⟨?_, ?_, ?_, ?_, ?_⟩
  · rw [hsum]
    exact hinv1.ram
  · rw [hsum]
    exact hinv1.cpu
  · rw [hsum]
    exact hinv1.net
  · rw [map_set_of_key hi (by rw [hpi]; rfl)]
    exact hinv1.keysUnique
  · intro q hq hqp
    rcases List.mem_or_eq_of_mem_set hq with hq | rfl
    · obtain ⟨o, ho, hop, hoo⟩ := hinv1.inForce q hq hqp
      exact ⟨o, hkeep o ho hop, hop, hoo⟩
    · obtain ⟨o, ho, hop, hoo⟩ := hinv1.inForce p (List.mem_of_getElem? hget) hpp
      exact ⟨o, hkeep o ho hop, hop, hoo⟩

theorem TotalsInv.applyPending (hinv : TotalsInv m) {pi : Nat} {p : ResourceLimitsObject}
    (hfirst : firstPending m.limits = some (pi, p)) (h : m.applyPending p pi = .ok m') :
    TotalsInv m' ∧ m'.limits.length + 1 = m.limits.length := by
  obtain ⟨hgetp, hpp⟩ := firstPending_get hfirst
  obtain ⟨hpi, hpip⟩ := List.getElem?_eq_some_iff.mp hgetp
  obtain ⟨j, actual, hgetj, hkey, hram, hcpu, hnet, hlimits⟩ := applyPending_eq_ok h
  obtain ⟨hj, hja⟩ := List.getElem?_eq_some_iff.mp hgetj
  simp only [ResourceLimitsObject.byOwner, Prod.mk.injEq] at hkey
  have hji : j ≠ pi := fun hji => by
    subst hji
    rw [hja] at hpip
    rw [hpip, hpp] at hkey
    cases hkey.1
  set x : ResourceLimitsObject :=
    { actual with ramBytes := p.ramBytes, cpuWeight := p.cpuWeight, netWeight := p.netWeight } with hx
  have hxp : x.pending = false := hkey.1
  have hpip' : m.limits[pi].pending = true := by rw [hpip]; exact hpp
  have htotal : ∀ (field : ResourceLimitsObject → Int) (t t' : Nat),
      (t : Int) = totalOf field m.limits → (t' : Int) = t - max (field actual) 0 + max (field x) 0 →
      (t' : Int) = totalOf field m'.limits := fun field t t' ht ht' => by
    rw [hlimits, totalOf_set_eraseIdx field x hj hpi hji hpip', hja, contribution_inForce hkey.1,
      contribution_inForce hxp, ← ht, ht']
  have hkeep : ∀ o ∈ m.limits, o.pending = false → o.owner ≠ p.owner → o ∈ m'.limits :=
    fun o ho hop hoo => by
      rw [hlimits]
      apply mem_eraseIdx_of_ne (mem_set_of_ne x ho fun _ heq => by rw [heq, hja] at hoo; exact hoo hkey.2)
      intro _ heq
      rw [heq, List.getElem_set_ne hji, hpip, hpp] at hop
      cases hop
  refine ⟨⟨?_, ?_, ?_, ?_, ?_⟩, ?_⟩
  · exact htotal _ _ _ hinv.ram (updateStateAndValue_eq_ok hram)
  · exact htotal _ _ _ hinv.cpu (updateStateAndValue_eq_ok hcpu)
  · exact htotal _ _ _ hinv.net (updateStateAndValue_eq_ok hnet)
  · rw [hlimits]
    apply List.Nodup.sublist ((List.eraseIdx_sublist _ pi).map _)
    rw [map_set_of_key hj (by rw [hja]; rfl)]
    exact hinv.keysUnique
  · intro q hq hqp
    have hq' : q ∈ m.limits.set j x := by
      rw [hlimits] at hq
      exact (List.eraseIdx_sublist _ pi).subset hq
    rcases List.mem_or_eq_of_mem_set hq' with hq' | rfl
    · by_cases hqo : q.owner = p.owner
      · -- the owner's row in force stays, with the pending values
        refine ⟨x, ?_, hxp, hkey.2.trans hqo.symm⟩
        rw [hlimits]
        apply mem_eraseIdx_of_ne (List.mem_set hj x)
        intro _ heq
        rw [List.getElem_set_ne hji, hpip] at heq
        rw [heq, hpp] at hxp
        cases hxp
      · obtain ⟨o, ho, hop, hoo⟩ := hinv.inForce q hq' hqp
        exact ⟨o, hkeep o ho hop (hoo.trans_ne hqo), hop, hoo⟩
    · rw [hxp] at hqp
      cases hqp
  · rw [hlimits, List.length_eraseIdx_of_lt (by simpa using hpi), List.length_set]
    omega

theorem applyPending_error (hinv : TotalsInv m) {pi : Nat} {p : ResourceLimitsObject}
    (hfirst : firstPending m.limits = some (pi, p)) {e : String} (h : m.applyPending p pi = .error e) :
    e = "overflow when applying new value to ${which}" := by
  obtain ⟨hgetp, hpp⟩ := firstPending_get hfirst
  obtain ⟨j, o, hget⟩ := hinv.getKey_inForce (List.mem_of_getElem? hgetp) hpp unknownKeyError
  obtain ⟨hj, hkey⟩ := getKey_eq_ok hget
  have ho := List.mem_of_getElem? hj
  have hop : o.pending = false := by
    simp only [ResourceLimitsObject.byOwner, Prod.mk.injEq] at hkey
    exact hkey.1
  have hle : ∀ (field : ResourceLimitsObject → Int) (t : Nat), (t : Int) = totalOf field m.limits →
      max (field o) 0 ≤ (t : Int) := fun field t ht => by
    rw [ht, ← contribution_inForce hop]
    exact contribution_le_totalOf field ho
  unfold ResourceLimitsManager.applyPending at h
  rw [hget, ok_bind] at h
  rcases bind_eq_error.mp h with h | ⟨_, -, h⟩
  · exact updateStateAndValue_error (hle _ _ hinv.ram) h
  rcases bind_eq_error.mp h with h | ⟨_, -, h⟩
  · exact updateStateAndValue_error (hle _ _ hinv.cpu) h
  rcases bind_eq_error.mp h with h | ⟨_, -, h⟩
  · exact updateStateAndValue_error (hle _ _ hinv.net) h
  cases h

theorem processLoop_totalsInv :
    ∀ (fuel : Nat) {m m' : ResourceLimitsManager}, TotalsInv m → processLoop fuel m = .ok m' →
      TotalsInv m'
  | 0, _, _, hinv, h => by
    cases h
    exact hinv
  | fuel + 1, m, m', hinv, h => by
    unfold processLoop at h
    split at h
    · cases h
      exact hinv
    · next pi p hfirst =>
      obtain ⟨m1, h1, h⟩ := bind_eq_ok.mp h
      exact processLoop_totalsInv fuel (hinv.applyPending hfirst h1).1 h

theorem processLoop_no_pending :
    ∀ (fuel : Nat) {m m' : ResourceLimitsManager}, TotalsInv m → m.limits.length ≤ fuel →
      processLoop fuel m = .ok m' → ∀ o ∈ m'.limits, o.pending = false
  | 0, m, _, _, hlen, h => by
    cases h
    intro o ho
    have hnil : m.limits = [] := List.eq_nil_of_length_eq_zero (Nat.le_zero.mp hlen)
    rw [hnil] at ho
    cases ho
  | fuel + 1, m, m', hinv, hlen, h => by
    unfold processLoop at h
    split at h
    · next hnone =>
      cases h
      exact firstPending_eq_none hnone
    · next pi p hfirst =>
      obtain ⟨m1, h1, h⟩ := bind_eq_ok.mp h
      obtain ⟨hinv1, hlen1⟩ := hinv.applyPending hfirst h1
      exact processLoop_no_pending fuel hinv1 (by omega) h

theorem processLoop_error :
    ∀ (fuel : Nat) {m : ResourceLimitsManager} {e : String}, TotalsInv m →
      processLoop fuel m = .error e → e = "overflow when applying new value to ${which}"
  | 0, _, _, _, h => nomatch h
  | fuel + 1, m, e, hinv, h => by
    unfold processLoop at h
    split at h
    · cases h
    · next pi p hfirst =>
      rcases bind_eq_error.mp h with h | ⟨m1, h1, h⟩
      · exact applyPending_error hinv hfirst h
      · exact processLoop_error fuel (hinv.applyPending hfirst h1).1 h

end Limits

/-! ## The other calls leave the limits -/

section Frame
variable {m m' : ResourceLimitsManager}

theorem touchUsage_frame {account timeSlot : Nat} (h : m.touchUsage account timeSlot = .ok m') :
    LimitsFrame m m' := by
  unfold ResourceLimitsManager.touchUsage at h
  obtain ⟨_, -, h⟩ := bind_eq_ok.mp h
  obtain ⟨_, -, h⟩ := bind_eq_ok.mp h
  cases h
  exact LimitsFrame.usage m _

theorem updateAccountUsage_frame {accounts : List Nat} {timeSlot : Nat}
    (h : m.updateAccountUsage accounts timeSlot = .ok m') : LimitsFrame m m' :=
  foldlM_inv (LimitsFrame m) (fun _ _ _ hs h1 => hs.trans (touchUsage_frame h1)) accounts m m'
    (LimitsFrame.refl m) h

theorem billAccount_frame {account cpuUsage netUsage timeSlot : Nat}
    (h : m.billAccount account cpuUsage netUsage timeSlot = .ok m') : LimitsFrame m m' := by
  unfold ResourceLimitsManager.billAccount at h
  obtain ⟨_, -, h⟩ := bind_eq_ok.mp h
  obtain ⟨_, -, h⟩ := bind_eq_ok.mp h
  obtain ⟨_, -, h⟩ := bind_eq_ok.mp h
  obtain ⟨-, -, h⟩ := bind_eq_ok.mp h
  obtain ⟨-, -, h⟩ := bind_eq_ok.mp h
  cases h
  exact LimitsFrame.usage m _

theorem addTransactionUsage_frame {accounts : List Nat} {cpuUsage netUsage timeSlot : Nat}
    (h : m.addTransactionUsage accounts cpuUsage netUsage timeSlot = .ok m') : LimitsFrame m m' := by
  unfold ResourceLimitsManager.addTransactionUsage at h
  obtain ⟨m1, h1, h⟩ := bind_eq_ok.mp h
  obtain ⟨-, h⟩ := assert_bind_eq_ok.mp h
  obtain ⟨-, h⟩ := assert_bind_eq_ok.mp h
  cases h
  exact foldlM_inv (LimitsFrame m) (fun _ _ _ hs h1 => hs.trans (billAccount_frame h1)) accounts m m1
    (LimitsFrame.refl m) h1

theorem addPendingRamUsage_frame {account : Nat} {ramDelta : Int}
    (h : m.addPendingRamUsage account ramDelta = .ok m') : LimitsFrame m m' := by
  unfold ResourceLimitsManager.addPendingRamUsage at h
  split at h
  · cases h
    exact LimitsFrame.refl m
  · obtain ⟨_, -, h⟩ := bind_eq_ok.mp h
    obtain ⟨-, h⟩ := assert_bind_eq_ok.mp h
    obtain ⟨-, h⟩ := assert_bind_eq_ok.mp h
    cases h
    exact LimitsFrame.usage m _

theorem setBlockParameters_frame {cpu net : ElasticLimitParameters}
    (h : m.setBlockParameters cpu net = .ok m') : LimitsFrame m m' := by
  unfold ResourceLimitsManager.setBlockParameters at h
  obtain ⟨-, -, h⟩ := bind_eq_ok.mp h
  obtain ⟨-, -, h⟩ := bind_eq_ok.mp h
  cases h
  exact LimitsFrame.refl m

theorem processBlockUsage_frame {blockNum : Nat} (h : m.processBlockUsage blockNum = .ok m') :
    LimitsFrame m m' := by
  unfold ResourceLimitsManager.processBlockUsage at h
  obtain ⟨_, -, h⟩ := bind_eq_ok.mp h
  obtain ⟨_, -, h⟩ := bind_eq_ok.mp h
  obtain ⟨_, -, h⟩ := bind_eq_ok.mp h
  obtain ⟨_, -, h⟩ := bind_eq_ok.mp h
  cases h
  exact LimitsFrame.refl m

end Frame

/-! ## Runs -/

theorem step_totalsInv {m m' : ResourceLimitsManager} {r : ResourceRequest} (hinv : TotalsInv m)
    (h : step m r = .ok m') : TotalsInv m' := by
  cases r with
  | initializeAccount a => exact hinv.initializeAccount h
  | setBlockParameters cpu net => exact hinv.frame (setBlockParameters_frame h)
  | updateAccountUsage accounts slot => exact hinv.frame (updateAccountUsage_frame h)
  | addTransactionUsage accounts cpu net slot => exact hinv.frame (addTransactionUsage_frame h)
  | addPendingRamUsage a delta => exact hinv.frame (addPendingRamUsage_frame h)
  | setAccountLimits a ram net cpu =>
    obtain ⟨⟨m1, decreased⟩, h1, rfl⟩ := map_eq_ok.mp h
    exact hinv.setAccountLimits h1
  | processAccountLimitUpdates => exact processLoop_totalsInv _ hinv h
  | processBlockUsage blockNum => exact hinv.frame (processBlockUsage_frame h)

theorem totalsInv_reachable {m : ResourceLimitsManager} (h : Reachable step initializeDatabase m) :
    TotalsInv m :=
  Reachable.inv TotalsInv initial_totalsInv (fun _ _ _ hinv hstep => step_totalsInv hinv hstep) h

theorem resource_weight_totals {m : ResourceLimitsManager} (h : Reachable step initializeDatabase m) :
    ((m.state.totalRamBytes : Int) = totalOf (·.ramBytes) m.limits ∧
      (m.state.totalCpuWeight : Int) = totalOf (·.cpuWeight) m.limits ∧
      (m.state.totalNetWeight : Int) = totalOf (·.netWeight) m.limits) ∧
    (∀ p ∈ m.limits, ∀ q ∈ m.limits, p.pending = true → q.pending = true → p.owner = q.owner → p = q) ∧
    (∀ m', m.processAccountLimitUpdates = .ok m' → ∀ o ∈ m'.limits, o.pending = false) ∧
    (∀ e, m.processAccountLimitUpdates = .error e → e = "overflow when applying new value to ${which}") := by
  have hinv := totalsInv_reachable h
  refine ⟨⟨hinv.ram, hinv.cpu, hinv.net⟩, fun p hp q hq => hinv.pending_unique hp hq, ?_, ?_⟩
  · intro m' hm'
    exact processLoop_no_pending _ hinv le_rfl hm'
  · intro e he
    exact processLoop_error _ hinv he

/-- two accounts; limits set, processed, and set again -/
def sampleLimitsRun : List ResourceRequest := [
  .initializeAccount 1, .initializeAccount 2, .setAccountLimits 1 1000 10 20,
  .setAccountLimits 2 (-1) 5 (-1), .processAccountLimitUpdates, .setAccountLimits 1 500 10 10]

theorem sample_limits_totals :
    ((exec step initializeDatabase sampleLimitsRun).state.totalCpuWeight : Int)
      = totalOf (·.cpuWeight) (exec step initializeDatabase sampleLimitsRun).limits :=
  (resource_weight_totals (reachable_exec sampleLimitsRun)).1.2.1

end Eos.Resource
