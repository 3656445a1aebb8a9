import Eoscochain.Token.Supply

/-!
# Deposits of icp.token

contracts/icp.token icp.token.cpp: tokens of this chain sent to the contract with a memo that is
not an icp call are deposited in the table `deposit` scoped by their token contract, and
`icptransfer` spends the deposit of its sender, found through the index `accountasset`.  The
deposit branch finds and creates its row through the primary key and sets only the row's
balance: the new row's `pk` and `account` keep the zero of the new object.

* `recordedDeposit`     the deposit of an account in a symbol, read as `icptransfer` reads it;
* `Unowned`             every row of `deposit` has account and primary key `0`;
* `apply_deposits`      what a successful request does to `deposit`: nothing, the deposit
                        branch, or the debit of `icptransfer`;
* `unowned_reachable`   every reachable state keeps its deposits unowned;
* `recordedDeposit_eq_zero`, `icptransfer_no_deposit`   hence no account but `0` ever has a
                        deposit, and `icptransfer` from any other account fails.
-/

set_option linter.unusedSectionVars false

namespace Eos.Token

open Machine Table

/-- the deposit of `account` in the symbol `sym` in the deposits scoped by `contract`: the balance
of the row that `icptransfer` finds on `accountasset`, or nothing -/
def recordedDeposit (st : TokenState) (contract account sym : UInt64) : Int :=
  match findKey Account.byAccountAsset (accountAssetKey account ⟨0, sym⟩) (st.deposits contract) with
  | some (_, dp) => dp.balance.amount
  | none => 0

/-- a row of `deposit` as the deposit branch creates it: no owner, primary key `0` -/
def Account.Unowned (dp : AccountDeposit) : Prop := dp.account = 0 ∧ dp.pk = 0

/-- every deposit is unowned -/
def Unowned (st : TokenState) : Prop := ∀ c, ∀ dp ∈ st.deposits c, dp.Unowned

theorem Unowned.of_deposits {st st' : TokenState} (hu : Unowned st)
    (h : st'.deposits = st.deposits) : Unowned st' := by
  intro c dp hdp
  rw [h] at hdp
  exact hu c dp hdp

theorem Unowned.update {st : TokenState} (hu : Unowned st) {c : UInt64} {rows : List Account}
    (hrows : ∀ dp ∈ rows, dp.Unowned) :
    Unowned { st with deposits := Function.update st.deposits c rows } := by
  intro c' dp hdp
  change dp ∈ Function.update st.deposits c rows c' at hdp
  by_cases hc : c' = c
  · subst hc
    rw [Function.update_self] at hdp
    exact hrows dp hdp
  · rw [Function.update_of_ne hc] at hdp
    exact hu c' dp hdp

/-! ## What the actions do to `deposit` -/

section Actions
variable {env : TokenEnv} {st st' : TokenState} {contract : UInt64} {quantity : Asset}

theorem debit_rows {rows rows' : List Account} {owner : UInt64} {msg : String}
    (h : debit rows owner quantity msg = .ok rows') :
    ∀ x ∈ rows', ∃ y ∈ rows, x.account = y.account ∧ x.pk = y.pk := by
  unfold debit at h
  obtain ⟨⟨i, a⟩, hget, h⟩ := bind_eq_ok.mp h
  have ha : a ∈ rows := List.mem_of_getElem? (getKey_eq_ok hget).1
  obtain ⟨-, h⟩ := assert_bind_eq_ok.mp h
  split at h
  · cases h
    exact fun x hx => ⟨x, List.mem_of_mem_eraseIdx hx, rfl, rfl⟩
  · obtain ⟨b, -, h⟩ := bind_eq_ok.mp h
    cases h
    intro x hx
    rcases List.mem_or_eq_of_mem_set hx with hx | rfl
    · exact ⟨x, hx, rfl, rfl⟩
    · exact ⟨a, ha, rfl, rfl⟩

theorem deposit_rows (h : deposit st contract quantity = .ok st') :
    ∃ rows, st' = { st with deposits := Function.update st.deposits contract rows } ∧
      ∀ x ∈ rows, x = { pk := 0, account := 0, balance := quantity } ∨
        ∃ y ∈ st.deposits contract, x.account = y.account ∧ x.pk = y.pk := by
  unfold deposit at h
  dsimp only at h
  split at h
  · obtain ⟨rows, hemp, h⟩ := bind_eq_ok.mp h
    cases h
    refine ⟨rows, rfl, fun x hx => ?_⟩
    rw [Icp.emplace_eq_ok hemp] at hx
    rcases List.mem_cons.mp ((perm_insertByPk _ _ _).mem_iff.mp hx) with rfl | hx
    · exact .inl rfl
    · exact .inr ⟨x, hx, rfl, rfl⟩
  · next i dp hfind =>
    obtain ⟨b, -, h⟩ := bind_eq_ok.mp h
    cases h
    have hdp : dp ∈ st.deposits contract := List.mem_of_getElem? (findKey_get hfind).1
    refine ⟨_, rfl, fun x hx => .inr ?_⟩
    rcases List.mem_or_eq_of_mem_set hx with hx | rfl
    · exact ⟨x, hx, rfl, rfl⟩
    · exact ⟨dp, hdp, rfl, rfl⟩

theorem icpTransfer_deposits {from' icpTo : UInt64} {memo : String} {expiration : UInt32}
    {refund : Bool} {r : TokenState × List TokenSend}
    (h : icpTransfer env st contract from' icpTo quantity memo expiration refund = .ok r) :
    r.1.deposits = st.deposits := by
  unfold icpTransfer at h
  obtain ⟨-, h⟩ := assert_bind_eq_ok.mp h
  obtain ⟨-, h⟩ := assert_bind_eq_ok.mp h
  obtain ⟨seq, -, h⟩ := bind_eq_ok.mp h
  obtain ⟨locked, -, h⟩ := bind_eq_ok.mp h
  cases h
  rfl

theorem mint_deposits {to' : UInt64} (h : mint env st contract to' quantity = .ok st') :
    st'.deposits = st.deposits := by
  obtain ⟨i, s, rows, -, -, -, rfl⟩ := mint_eq_ok h
  rfl

theorem burn_deposits {from' : UInt64} (h : burn env st contract from' quantity = .ok st') :
    st'.deposits = st.deposits := by
  obtain ⟨i, s, rows, -, -, -, rfl⟩ := burn_eq_ok h
  rfl

theorem transfer_deposits {from' to' : UInt64} {memo : String}
    (h : transfer env st contract from' to' quantity memo = .ok st') :
    st'.deposits = st.deposits := by
  unfold transfer at h
  obtain ⟨-, h⟩ := assert_bind_eq_ok.mp h
  obtain ⟨-, -, h⟩ := bind_eq_ok.mp h
  obtain ⟨-, h⟩ := assert_bind_eq_ok.mp h
  obtain ⟨⟨j, s⟩, -, h⟩ := bind_eq_ok.mp h
  obtain ⟨-, h⟩ := assert_bind_eq_ok.mp h
  obtain ⟨-, h⟩ := assert_bind_eq_ok.mp h
  obtain ⟨-, h⟩ := assert_bind_eq_ok.mp h
  obtain ⟨-, h⟩ := assert_bind_eq_ok.mp h
  obtain ⟨st1, h1, h⟩ := bind_eq_ok.mp h
  unfold subBalance at h1
  obtain ⟨rows1, -, h1⟩ := bind_eq_ok.mp h1
  cases h1
  unfold addBalance at h
  obtain ⟨rows2, -, h⟩ := bind_eq_ok.mp h
  cases h
  rfl

theorem icpreceipt_deposits {seq status : Nat} {r : TokenState × List TokenSend}
    (h : icpreceipt env st seq status = .ok r) : r.1.deposits = st.deposits := by
  unfold icpreceipt at h
  obtain ⟨-, -, h⟩ := bind_eq_ok.mp h
  split at h
  · cases h
    rfl
  · next l _ =>
    obtain ⟨⟨st1, sends⟩, hrel, h⟩ := bind_eq_ok.mp h
    cases h
    show st1.deposits = st.deposits
    unfold releaseLocked at hrel
    split at hrel
    · split at hrel
      · obtain ⟨st2, hmint, hr⟩ := map_eq_ok.mp hrel
        cases hr
        exact mint_deposits hmint
      · cases hrel
        rfl
    · cases hrel
      rfl

/-- **What a successful request does to `deposit`**: nothing; or the deposit branch of a
notifying `transfer`; or the debit of `icptransfer` -/
theorem apply_deposits {req : TokenRequest} {r : TokenState × List TokenSend}
    (h : apply env st req = .ok r) :
    r.1.deposits = st.deposits ∨ (∃ c q, deposit st c q = .ok r.1) ∨
      ∃ c from' q rows, debit (st.deposits c) from' q "no deposit object found" = .ok rows ∧
        r.1.deposits = Function.update st.deposits c rows := by
  cases req with
  | setcontracts icp peer =>
    obtain ⟨st1, h1, rfl⟩ := map_eq_ok.mp h
    unfold setcontracts at h1
    obtain ⟨-, -, h1⟩ := bind_eq_ok.mp h1
    obtain ⟨-, h1⟩ := assert_bind_eq_ok.mp h1
    cases h1
    exact .inl rfl
  | create contract symbol =>
    obtain ⟨st1, h1, rfl⟩ := map_eq_ok.mp h
    unfold create at h1
    obtain ⟨-, -, h1⟩ := bind_eq_ok.mp h1
    obtain ⟨-, h1⟩ := assert_bind_eq_ok.mp h1
    obtain ⟨-, h1⟩ := assert_bind_eq_ok.mp h1
    obtain ⟨rows, -, h1⟩ := bind_eq_ok.mp h1
    cases h1
    exact .inl rfl
  | transfer contract from' to' quantity memo =>
    obtain ⟨st1, h1, rfl⟩ := map_eq_ok.mp h
    exact .inl (transfer_deposits h1)
  | icpreceive contract icpFrom to' quantity memo refund =>
    unfold apply icpreceive at h
    obtain ⟨-, -, h⟩ := bind_eq_ok.mp h
    obtain ⟨-, h⟩ := assert_bind_eq_ok.mp h
    split at h
    · cases h
      exact .inl rfl
    · obtain ⟨st1, hmint, rfl⟩ := map_eq_ok.mp h
      exact .inl (mint_deposits hmint)
  | icpreceipt seq status data => exact .inl (icpreceipt_deposits h)
  | icptransfer contract from' icpTo quantity memo expiration =>
    unfold apply icptransfer at h
    obtain ⟨-, -, h⟩ := bind_eq_ok.mp h
    obtain ⟨rows, hdebit, h⟩ := bind_eq_ok.mp h
    exact .inr (.inr ⟨contract, from', quantity, rows, hdebit, icpTransfer_deposits h⟩)
  | icprefund contract from' icpTo quantity memo expiration =>
    unfold apply icprefund at h
    obtain ⟨-, -, h⟩ := bind_eq_ok.mp h
    obtain ⟨-, h⟩ := assert_bind_eq_ok.mp h
    obtain ⟨st1, hburn, h⟩ := bind_eq_ok.mp h
    exact .inl ((icpTransfer_deposits h).trans (burn_deposits hburn))
  | tokenTransfer code from' to' quantity memo =>
    simp only [apply] at h
    split at h
    · -- the notification of another token contract
      unfold icpTransferOrDeposit at h
      split at h
      · cases h
        exact .inl rfl
      · split at h
        · split at h
          · cases h
          · obtain ⟨expiration, -, h⟩ := bind_eq_ok.mp h
            exact .inl (icpTransfer_deposits h)
        · obtain ⟨st1, hdep, rfl⟩ := map_eq_ok.mp h
          exact .inr (.inl ⟨code, quantity, hdep⟩)
    · cases h
      exact .inl rfl

end Actions

/-! ## Runs -/

theorem apply_unowned {env : TokenEnv} {st : TokenState} {req : TokenRequest}
    {r : TokenState × List TokenSend} (hu : Unowned st) (h : apply env st req = .ok r) :
    Unowned r.1 := by
  rcases apply_deposits h with hsame | ⟨c, q, hdep⟩ | ⟨c, from', q, rows, hdebit, hrows⟩
  · exact hu.of_deposits hsame
  · -- a new row is unowned, a raised one keeps its owner and key
    obtain ⟨rows, heq, hrows⟩ := deposit_rows hdep
    rw [heq]
    refine hu.update fun x hx => ?_
    rcases hrows x hx with rfl | ⟨y, hy, hacc, hpk⟩
    · exact ⟨rfl, rfl⟩
    · obtain ⟨hy0, hypk⟩ := hu c y hy
      exact ⟨hacc.trans hy0, hpk.trans hypk⟩
  · have hu' : Unowned { st with deposits := Function.update st.deposits c rows } := by
      refine hu.update fun x hx => ?_
      obtain ⟨y, hy, hacc, hpk⟩ := debit_rows hdebit x hx
      obtain ⟨hy0, hypk⟩ := hu c y hy
      exact ⟨hacc.trans hy0, hpk.trans hypk⟩
    exact hu'.of_deposits hrows

/-- **Deposits have no owner**: in every reachable state every row of `deposit` has account and
primary key `0` -/
theorem unowned_reachable {st : TokenState} (h : Reachable step {} st) : Unowned st :=
  Reachable.inv Unowned (fun _ _ hdp => absurd hdp List.not_mem_nil) (fun _ _ _ hu hstep => by
    obtain ⟨r, hr, rfl⟩ := map_eq_ok.mp hstep
    exact apply_unowned hu hr) h

theorem recordedDeposit_eq_zero {st : TokenState} (hu : Unowned st) {contract account : UInt64}
    (ha : account ≠ 0) (sym : UInt64) : recordedDeposit st contract account sym = 0 := by
  unfold recordedDeposit
  split
  · next i dp hfind =>
    obtain ⟨hget, hkey⟩ := findKey_get hfind
    have hacc : dp.account = account := (accountAssetKey_inj hkey).1
    exact absurd (hacc.symm.trans (hu contract dp (List.mem_of_getElem? hget)).1) ha
  · rfl

theorem icptransfer_no_deposit {env : TokenEnv} {st : TokenState} (hu : Unowned st)
    {contract from' icpTo : UInt64} (hauth : env.auth.contains from' = true) (ha : from' ≠ 0)
    (quantity : Asset) (memo : String) (expiration : UInt32) :
    icptransfer env st contract from' icpTo quantity memo expiration =
      .error "no deposit object found" := by
  have hnone : findKey Account.byAccountAsset (accountAssetKey from' quantity)
      (st.deposits contract) = none := by
    cases hfind : findKey Account.byAccountAsset (accountAssetKey from' quantity)
        (st.deposits contract) with
    | none => rfl
    | some p =>
      obtain ⟨hget, hkey⟩ := findKey_get hfind
      have hacc : p.2.account = from' := (accountAssetKey_inj hkey).1
      exact absurd (hacc.symm.trans (hu contract p.2 (List.mem_of_getElem? hget)).1) ha
  simp only [icptransfer, requireAuth, hauth, assert_true, debit, getKey, hnone]
  rfl

/-! ## A deposit -/

/-- `9` sends ten `SYS` of the token contract `5` to the contract with an empty memo -/
def sampleDepositRun : List (TokenEnv × TokenRequest) :=
  [(sampleTokenEnv, .setcontracts 2 3),
   (sampleTokenEnv, .tokenTransfer 5 9 1 ⟨10, sampleSymbol⟩ "")]

def sampleDeposited : TokenState := exec step {} sampleDepositRun

/-- the deposit is stored with no owner: `9`'s recorded deposit is none, and its `icptransfer`
of the ten `SYS` fails -/
theorem deposit_not_credited_to_depositor :
    Reachable step {} sampleDeposited ∧
      sampleDeposited.deposits 5 = [{ pk := 0, account := 0, balance := ⟨10, sampleSymbol⟩ }] ∧
      recordedDeposit sampleDeposited 5 9 sampleSymbol = 0 ∧
      apply sampleTokenEnv sampleDeposited (.icptransfer 5 9 4 ⟨10, sampleSymbol⟩ "" 100) =
        .error "no deposit object found" := by
  have hreach : Reachable step {} sampleDeposited := reachable_exec sampleDepositRun
  have hu := unowned_reachable hreach
  exact ⟨hreach, by decide, recordedDeposit_eq_zero hu (by decide) _,
    icptransfer_no_deposit hu (by decide) (by decide) _ _ _⟩

end Eos.Token
