import Mathlib
import Eoscochain.Lib.Run
import Eoscochain.Icp.Contract
import Eoscochain.Token.Asset

/-!
# The eosio.token contract

contracts/eosio.token eosio.token.cpp, each action under its own name.  The supply of a token is
the one row of `stat` in the scope of the symbol's name; what an account holds is in
`accounts` in the scope of the account, one row a symbol name.

* `TokenState`     the tables of all scopes, a function of the scope each;
* `subBalance`, `addBalance`   `token::sub_balance` and `token::add_balance`;
* `create`, `issue`, `transfer`, `apply`   the actions; the `transfer` that `issue` sends
                   inline runs in the same transaction, with the issuer's authority;
* `SupplyInv`      the supply of every token is what all the accounts hold of it, within
                   `[0, max_supply]`, and every balance row is positive;
* `supplyInv_reachable`   every reachable state keeps it.

`require_recipient` and the RAM payer of each row change no table and are left out; so is the
primary key check of `modify`, which the symbol checks of `+=` and `-=` make hold.
-/

set_option linter.unusedSectionVars false

namespace Eos.EosioToken

open Machine Table
open Token (Asset symbolName isValidSymbol)

/-- `token::account`, a row of `accounts` -/
structure Account where
  balance : Asset
  deriving DecidableEq, Repr

def Account.primaryKey (a : Account) : Nat := (symbolName a.balance.symbol).toNat

/-- `token::currency_stats`, a row of `stat` -/
structure CurrencyStats where
  supply : Asset
  maxSupply : Asset
  issuer : UInt64
  deriving DecidableEq, Repr

def CurrencyStats.primaryKey (s : CurrencyStats) : Nat := (symbolName s.supply.symbol).toNat

/-- the tables of the contract, by scope -/
structure TokenState where
  stats : UInt64 → List CurrencyStats := fun _ => []
  accounts : UInt64 → List Account := fun _ => []

/-- what a transaction gives an action: the contract's account, the accounts whose authority
the action carries, and the accounts that exist -/
structure TokenEnv where
  self : UInt64
  auth : List UInt64
  isAccount : UInt64 → Bool

/-- `require_auth(account)` -/
def requireAuth (env : TokenEnv) (account : UInt64) : Except String Unit :=
  assert (env.auth.contains account) "missing authority of ${account}"

/-- the `stat` table of a scope replaced -/
def TokenState.setStats (st : TokenState) (scope : UInt64) (rows : List CurrencyStats) :
    TokenState :=
  { st with stats := Function.update st.stats scope rows }

/-- the `accounts` table of a scope replaced -/
def TokenState.setAccounts (st : TokenState) (owner : UInt64) (rows : List Account) : TokenState :=
  { st with accounts := Function.update st.accounts owner rows }

/-! ## The actions -/

/-- `token::sub_balance` -/
def subBalance (st : TokenState) (owner : UInt64) (value : Asset) : Except String TokenState := do
  let (i, a) ← getKey Account.primaryKey (symbolName value.symbol).toNat (st.accounts owner)
    "no balance object found"
  assert (decide (a.balance.amount ≥ value.amount)) "overdrawn balance"
  if a.balance.amount = value.amount then
    pure (st.setAccounts owner ((st.accounts owner).eraseIdx i))
  else do
    let b ← a.balance.sub value
    pure (st.setAccounts owner ((st.accounts owner).set i { a with balance := b }))

/-- `token::add_balance` -/
def addBalance (st : TokenState) (owner : UInt64) (value : Asset) : Except String TokenState :=
  match findKey Account.primaryKey (symbolName value.symbol).toNat (st.accounts owner) with
  | none => do
    let rows ← Icp.emplace Account.primaryKey { balance := value } (st.accounts owner)
    pure (st.setAccounts owner rows)
  | some (i, a) => do
    let b ← a.balance.add value
    pure (st.setAccounts owner ((st.accounts owner).set i { a with balance := b }))

/-- `token::create`: a new token, or a new maximum supply for one of the same issuer -/
def create (env : TokenEnv) (st : TokenState) (issuer : UInt64) (maximumSupply : Asset) :
    Except String TokenState := do
  requireAuth env env.self
  let sym := maximumSupply.symbol
  assert (isValidSymbol sym) "invalid symbol name"
  assert maximumSupply.isValid "invalid supply"
  assert (decide (maximumSupply.amount > 0)) "max-supply must be positive"
  let scope := symbolName sym
  match findKey CurrencyStats.primaryKey scope.toNat (st.stats scope) with
  | none => do
    let rows ← Icp.emplace CurrencyStats.primaryKey
      { supply := { amount := 0, symbol := sym }, maxSupply := maximumSupply, issuer := issuer }
      (st.stats scope)
    pure (st.setStats scope rows)
  | some (i, existing) => do
    assert (existing.issuer == issuer) "issuer mismatch"
    -- `maximum_supply >= existing->supply` compares assets of one symbol only
    assert (maximumSupply.symbol == existing.supply.symbol)
      "comparison of assets with different symbols is not allowed"
    assert (decide (maximumSupply.amount ≥ existing.supply.amount)) "max-supply must be >= supply"
    pure (st.setStats scope ((st.stats scope).set i { existing with maxSupply := maximumSupply }))

/-- `token::transfer` -/
def transfer (env : TokenEnv) (st : TokenState) (from' to' : UInt64) (quantity : Asset)
    (memo : String) : Except String TokenState := do
  assert (from' != to') "cannot transfer to self"
  requireAuth env from'
  assert (env.isAccount to') "to account does not exist"
  let sym := symbolName quantity.symbol
  let (_, st0) ← getKey CurrencyStats.primaryKey sym.toNat (st.stats sym) "unable to find key"
  assert quantity.isValid "invalid quantity"
  assert (decide (quantity.amount > 0)) "must transfer positive quantity"
  assert (quantity.symbol == st0.supply.symbol) "symbol precision mismatch"
  assert (decide (memo.utf8ByteSize ≤ 256)) "memo has more than 256 bytes"
  let st ← subBalance st from' quantity
  addBalance st to' quantity

/-- `token::issue`, then the inline `transfer` from the issuer when `to` is another account -/
def issue (env : TokenEnv) (st : TokenState) (to' : UInt64) (quantity : Asset) (memo : String) :
    Except String TokenState := do
  let sym := quantity.symbol
  assert (isValidSymbol sym) "invalid symbol name"
  assert (decide (memo.utf8ByteSize ≤ 256)) "memo has more than 256 bytes"
  let symName := symbolName sym
  let (i, st0) ← getKey CurrencyStats.primaryKey symName.toNat (st.stats symName)
    "token with symbol does not exist, create token before issue"
  requireAuth env st0.issuer
  assert quantity.isValid "invalid quantity"
  assert (decide (quantity.amount > 0)) "must issue positive quantity"
  assert (quantity.symbol == st0.supply.symbol) "symbol precision mismatch"
  assert (decide (quantity.amount ≤ st0.maxSupply.amount - st0.supply.amount))
    "quantity exceeds available supply"
  let supply ← st0.supply.add quantity
  let st := st.setStats symName ((st.stats symName).set i { st0 with supply := supply })
  let st ← addBalance st st0.issuer quantity
  -- `SEND_INLINE_ACTION( *this, transfer, {st.issuer,N(active)}, ... )`
  if to' ≠ st0.issuer then transfer { env with auth := [st0.issuer] } st st0.issuer to' quantity memo
  else pure st

inductive TokenAction
  | create (issuer : UInt64) (maximumSupply : Asset)
  | issue (to' : UInt64) (quantity : Asset) (memo : String)
  | transfer (from' to' : UInt64) (quantity : Asset) (memo : String)
  deriving DecidableEq, Repr

/-- `EOSIO_ABI( eosio::token, (create)(issue)(transfer) )` -/
def apply (env : TokenEnv) (st : TokenState) : TokenAction → Except String TokenState
  | .create issuer maximumSupply => create env st issuer maximumSupply
  | .issue to' quantity memo => issue env st to' quantity memo
  | .transfer from' to' quantity memo => transfer env st from' to' quantity memo

def step (st : TokenState) (e : TokenEnv × TokenAction) : Except String TokenState :=
  apply e.1 st e.2

/-! ## What the accounts hold -/

/-- what a row of `accounts` holds of the token named `n` -/
def heldOf (n : UInt64) (a : Account) : Int :=
  if symbolName a.balance.symbol = n then a.balance.amount else 0

/-- what one `accounts` table holds of the token named `n` -/
def heldIn (rows : List Account) (n : UInt64) : Int := (rows.map (heldOf n)).sum

/-- what all the `accounts` tables hold of the token named `n` -/
def totalHeld (st : TokenState) (n : UInt64) : Int := ∑ o : UInt64, heldIn (st.accounts o) n

theorem sum_update_univ {ι : Type} [Fintype ι] [DecidableEq ι] (f : ι → Int) (i : ι) (b : Int) :
    ∑ x, Function.update f i b x = ∑ x, f x - f i + b := by
  rw [Finset.sum_update_of_mem (Finset.mem_univ i), ← Finset.add_sum_erase _ f (Finset.mem_univ i),
    Finset.sdiff_singleton_eq_erase]
  ring

theorem totalHeld_setAccounts (st : TokenState) (owner : UInt64) (rows : List Account)
    (n : UInt64) : totalHeld (st.setAccounts owner rows) n =
      totalHeld st n - heldIn (st.accounts owner) n + heldIn rows n := by
  have hfun : (fun o => heldIn (Function.update st.accounts owner rows o) n) =
      Function.update (fun o => heldIn (st.accounts o) n) owner (heldIn rows n) := by
    funext o
    by_cases ho : o = owner
    · subst ho
      simp
    · simp [ho]
  unfold totalHeld TokenState.setAccounts
  dsimp only
  rw [hfun, sum_update_univ]

@[simp] theorem totalHeld_setStats (st : TokenState) (scope : UInt64) (rows : List CurrencyStats)
    (n : UInt64) : totalHeld (st.setStats scope rows) n = totalHeld st n := rfl

theorem heldIn_set {rows : List Account} {i : Nat} (hi : i < rows.length) (x : Account)
    (n : UInt64) : heldIn (rows.set i x) n = heldIn rows n - heldOf n rows[i] + heldOf n x :=
  sum_map_set _ rows i x hi

theorem heldIn_eraseIdx {rows : List Account} {i : Nat} (hi : i < rows.length) (n : UInt64) :
    heldIn (rows.eraseIdx i) n = heldIn rows n - heldOf n rows[i] :=
  sum_map_eraseIdx _ rows i hi

theorem heldIn_insertByPk (x : Account) (rows : List Account) (n : UInt64) :
    heldIn (insertByPk Account.primaryKey x rows) n = heldOf n x + heldIn rows n :=
  sum_map_insertByPk _ _ x rows

/-! ## `sub_balance` and `add_balance` -/

section Balances
variable {st st' : TokenState} {owner : UInt64} {value : Asset}

theorem subBalance_spec (h : subBalance st owner value = .ok st') :
    ∃ rows, st' = st.setAccounts owner rows ∧
      ∀ n, heldIn rows n = heldIn (st.accounts owner) n - heldOf n ⟨value⟩ := by
  unfold subBalance at h
  obtain ⟨⟨i, a⟩, hget, h⟩ := bind_eq_ok.mp h
  obtain ⟨hai, hkey⟩ := getKey_eq_ok hget
  obtain ⟨hi, rfl⟩ := List.getElem?_eq_some_iff.mp hai
  have hname : symbolName (st.accounts owner)[i].balance.symbol = symbolName value.symbol :=
    UInt64.toNat_inj.mp hkey
  obtain ⟨-, h⟩ := assert_bind_eq_ok.mp h
  split at h
  · next heq =>
    cases h
    refine ⟨_, rfl, fun n => ?_⟩
    rw [heldIn_eraseIdx hi]
    simp only [heldOf, hname, heq]
  · obtain ⟨b, hb, h⟩ := bind_eq_ok.mp h
    cases h
    obtain ⟨-, rfl⟩ := Asset.sub_eq_ok hb
    refine ⟨_, rfl, fun n => ?_⟩
    rw [heldIn_set hi]
    simp only [heldOf, hname]
    split_ifs <;> omega

theorem addBalance_spec (h : addBalance st owner value = .ok st') :
    ∃ rows, st' = st.setAccounts owner rows ∧
      ∀ n, heldIn rows n = heldIn (st.accounts owner) n + heldOf n ⟨value⟩ := by
  unfold addBalance at h
  split at h
  · obtain ⟨rows, hrows, h⟩ := bind_eq_ok.mp h
    cases h
    rw [Icp.emplace_eq_ok hrows]
    refine ⟨_, rfl, fun n => ?_⟩
    rw [heldIn_insertByPk]
    omega
  · next i a hfind =>
    obtain ⟨b, hb, h⟩ := bind_eq_ok.mp h
    cases h
    obtain ⟨hai, hkey⟩ := findKey_get hfind
    obtain ⟨hi, rfl⟩ := List.getElem?_eq_some_iff.mp hai
    have hname : symbolName (st.accounts owner)[i].balance.symbol = symbolName value.symbol :=
      UInt64.toNat_inj.mp hkey
    obtain ⟨-, rfl⟩ := Asset.add_eq_ok hb
    refine ⟨_, rfl, fun n => ?_⟩
    rw [heldIn_set hi]
    simp only [heldOf, hname]
    split_ifs <;> omega

theorem subBalance_eq_ok (h : subBalance st owner value = .ok st') :
    st'.stats = st.stats ∧ ∀ n, totalHeld st' n = totalHeld st n - heldOf n ⟨value⟩ := by
  obtain ⟨rows, rfl, hrows⟩ := subBalance_spec h
  refine ⟨rfl, fun n => ?_⟩
  rw [totalHeld_setAccounts, hrows]
  omega

theorem addBalance_eq_ok (h : addBalance st owner value = .ok st') :
    st'.stats = st.stats ∧ ∀ n, totalHeld st' n = totalHeld st n + heldOf n ⟨value⟩ := by
  obtain ⟨rows, rfl, hrows⟩ := addBalance_spec h
  refine ⟨rfl, fun n => ?_⟩
  rw [totalHeld_setAccounts, hrows]
  omega

/-! ## What one account holds -/

@[simp] theorem setStats_accounts (st : TokenState) (scope : UInt64) (rows : List CurrencyStats) :
    (st.setStats scope rows).accounts = st.accounts := rfl

theorem heldIn_setAccounts (st : TokenState) (owner : UInt64) (rows : List Account) (o n : UInt64) :
    heldIn ((st.setAccounts owner rows).accounts o) n =
      if o = owner then heldIn rows n else heldIn (st.accounts o) n := by
  unfold TokenState.setAccounts
  by_cases ho : o = owner
  · subst ho
    simp
  · simp [ho]

variable {env : TokenEnv}

theorem transfer_spec {from' to' : UInt64} {quantity : Asset} {memo : String}
    (h : transfer env st from' to' quantity memo = .ok st') :
    from' ≠ to' ∧ 0 < quantity.amount ∧ st'.stats = st.stats ∧
      ∀ o n, heldIn (st'.accounts o) n = heldIn (st.accounts o) n -
        (if o = from' then heldOf n ⟨quantity⟩ else 0) + if o = to' then heldOf n ⟨quantity⟩ else 0 := by
  unfold EosioToken.transfer at h
  obtain ⟨hne, h⟩ := assert_bind_eq_ok.mp h
  obtain ⟨-, -, h⟩ := bind_eq_ok.mp h
  obtain ⟨-, h⟩ := assert_bind_eq_ok.mp h
  obtain ⟨_, -, h⟩ := bind_eq_ok.mp h
  obtain ⟨-, h⟩ := assert_bind_eq_ok.mp h
  obtain ⟨hpos, h⟩ := assert_bind_eq_ok.mp h
  obtain ⟨-, h⟩ := assert_bind_eq_ok.mp h
  obtain ⟨-, h⟩ := assert_bind_eq_ok.mp h
  obtain ⟨st1, h1, h2⟩ := bind_eq_ok.mp h
  obtain ⟨rows1, rfl, hrows1⟩ := subBalance_spec h1
  obtain ⟨rows2, rfl, hrows2⟩ := addBalance_spec h2
  have hne : from' ≠ to' := by simpa using hne
  refine ⟨hne, of_decide_eq_true hpos, rfl, fun o n => ?_⟩
  have h1n := hrows1 n
  have h2n := hrows2 n
  simp only [heldIn_setAccounts] at h2n ⊢
  split_ifs at h2n ⊢ <;> subst_vars <;> first | omega | contradiction

theorem issue_spec {to' : UInt64} {quantity : Asset} {memo : String}
    (h : issue env st to' quantity memo = .ok st') :
    0 < quantity.amount ∧
      ∀ o n, heldIn (st'.accounts o) n = heldIn (st.accounts o) n + if o = to' then heldOf n ⟨quantity⟩ else 0 := by
  unfold EosioToken.issue at h
  obtain ⟨-, h⟩ := assert_bind_eq_ok.mp h
  obtain ⟨-, h⟩ := assert_bind_eq_ok.mp h
  obtain ⟨⟨i, st0⟩, -, h⟩ := bind_eq_ok.mp h
  obtain ⟨-, -, h⟩ := bind_eq_ok.mp h
  obtain ⟨-, h⟩ := assert_bind_eq_ok.mp h
  obtain ⟨hpos, h⟩ := assert_bind_eq_ok.mp h
  obtain ⟨-, h⟩ := assert_bind_eq_ok.mp h
  obtain ⟨-, h⟩ := assert_bind_eq_ok.mp h
  obtain ⟨supply, -, h⟩ := bind_eq_ok.mp h
  dsimp only at h
  obtain ⟨st2, h2, hrest⟩ := bind_eq_ok.mp h
  obtain ⟨rows2, rfl, hrows2⟩ := addBalance_spec h2
  refine ⟨of_decide_eq_true hpos, fun o n => ?_⟩
  have h2n := hrows2 n
  split at hrest
  · next hto =>
    have h3 := (transfer_spec hrest).2.2.2 o n
    simp only [heldIn_setAccounts, setStats_accounts] at h2n h3
    split_ifs at h2n h3 ⊢ <;> subst_vars <;> omega
  · next hto =>
    cases hrest
    obtain rfl : to' = st0.issuer := not_not.mp hto
    simp only [heldIn_setAccounts, setStats_accounts] at h2n ⊢
    split_ifs with ho
    · subst ho
      omega
    · omega

theorem create_accounts {issuer : UInt64} {maximumSupply : Asset}
    (h : create env st issuer maximumSupply = .ok st') : st'.accounts = st.accounts := by
  unfold EosioToken.create at h
  obtain ⟨-, -, h⟩ := bind_eq_ok.mp h
  obtain ⟨-, h⟩ := assert_bind_eq_ok.mp h
  obtain ⟨-, h⟩ := assert_bind_eq_ok.mp h
  obtain ⟨-, h⟩ := assert_bind_eq_ok.mp h
  dsimp only at h
  split at h
  · obtain ⟨rows, -, h⟩ := bind_eq_ok.mp h
    cases h
    rfl
  · obtain ⟨-, h⟩ := assert_bind_eq_ok.mp h
    obtain ⟨-, h⟩ := assert_bind_eq_ok.mp h
    obtain ⟨-, h⟩ := assert_bind_eq_ok.mp h
    cases h
    rfl

end Balances

/-- the rows of `accounts`: one a token name in a table, each positive, each of a token created
with its symbol -/
structure BalancesOk (st : TokenState) : Prop where
  nodup : ∀ o, ((st.accounts o).map Account.primaryKey).Nodup
  positive : ∀ o, ∀ a ∈ st.accounts o, 0 < a.balance.amount
  created : ∀ o, ∀ a ∈ st.accounts o,
    ∃ s ∈ st.stats (symbolName a.balance.symbol), s.supply.symbol = a.balance.symbol

/-- a row that `BalancesOk` allows in the tables of `st` -/
def RowOk (st : TokenState) (a : Account) : Prop :=
  0 < a.balance.amount ∧ ∃ s ∈ st.stats (symbolName a.balance.symbol), s.supply.symbol = a.balance.symbol

section BalancesOk
variable {st st' : TokenState} {owner : UInt64} {value : Asset}

theorem BalancesOk.rowOk (hb : BalancesOk st) {o : UInt64} {a : Account} (ha : a ∈ st.accounts o) :
    RowOk st a :=
  ⟨hb.positive o a ha, hb.created o a ha⟩

@[simp] theorem setAccounts_self (st : TokenState) (owner : UInt64) (rows : List Account) :
    (st.setAccounts owner rows).accounts owner = rows := by
  simp [TokenState.setAccounts]

theorem setAccounts_of_ne (st : TokenState) {owner o : UInt64} (rows : List Account) (h : o ≠ owner) :
    (st.setAccounts owner rows).accounts o = st.accounts o := by
  simp [TokenState.setAccounts, h]

@[simp] theorem setAccounts_stats (st : TokenState) (owner : UInt64) (rows : List Account) :
    (st.setAccounts owner rows).stats = st.stats := rfl

theorem BalancesOk.setAccounts (hb : BalancesOk st) {rows : List Account}
    (hnodup : (rows.map Account.primaryKey).Nodup) (hrows : ∀ a ∈ rows, RowOk st a) :
    BalancesOk (st.setAccounts owner rows) := by
  have hrow : ∀ o, ∀ a ∈ (st.setAccounts owner rows).accounts o, RowOk st a := by
    intro o a ha
    by_cases ho : o = owner
    · subst ho
      rw [setAccounts_self] at ha
      exact hrows a ha
    · rw [setAccounts_of_ne st rows ho] at ha
      exact hb.rowOk ha
  refine ⟨fun o => ?_, fun o a ha => (hrow o a ha).1, fun o a ha => (hrow o a ha).2⟩
  by_cases ho : o = owner
  · subst ho
    rw [setAccounts_self]
    exact hnodup
  · rw [setAccounts_of_ne st rows ho]
    exact hb.nodup o

theorem BalancesOk.modify (hb : BalancesOk st) {i : Nat} (hi : i < (st.accounts owner).length)
    {b : Asset} (hsym : b.symbol = (st.accounts owner)[i].balance.symbol) (hpos : 0 < b.amount) :
    BalancesOk (st.setAccounts owner ((st.accounts owner).set i { balance := b })) := by
  have hkey : Account.primaryKey { balance := b } = (st.accounts owner)[i].primaryKey := by
    unfold Account.primaryKey
    rw [hsym]
  refine hb.setAccounts ?_ fun x hx => ?_
  · rw [map_set_of_key hi hkey]
    exact hb.nodup owner
  · rcases List.mem_or_eq_of_mem_set hx with hx | rfl
    · exact hb.rowOk hx
    · exact ⟨hpos, hsym ▸ (hb.rowOk (List.getElem_mem hi)).2⟩

theorem BalancesOk.subBalance (hb : BalancesOk st) (h : subBalance st owner value = .ok st') :
    BalancesOk st' := by
  unfold EosioToken.subBalance at h
  obtain ⟨⟨i, a⟩, hget, h⟩ := bind_eq_ok.mp h
  obtain ⟨hai, -⟩ := getKey_eq_ok hget
  obtain ⟨hi, rfl⟩ := List.getElem?_eq_some_iff.mp hai
  obtain ⟨hge, h⟩ := assert_bind_eq_ok.mp h
  have hge : (st.accounts owner)[i].balance.amount ≥ value.amount := of_decide_eq_true hge
  split at h
  · -- the row goes: what is left are rows of the table
    cases h
    exact hb.setAccounts ((hb.nodup owner).sublist ((List.eraseIdx_sublist _ _).map _))
      (fun a ha => hb.rowOk (List.mem_of_mem_eraseIdx ha))
  · next hne =>
    obtain ⟨b, hbal, h⟩ := bind_eq_ok.mp h
    cases h
    obtain ⟨-, rfl⟩ := Asset.sub_eq_ok hbal
    exact hb.modify hi rfl (by dsimp only; omega)

theorem BalancesOk.addBalance (hb : BalancesOk st) (hvalue : RowOk st ⟨value⟩)
    (h : addBalance st owner value = .ok st') : BalancesOk st' := by
  unfold EosioToken.addBalance at h
  split at h
  · next hfind =>
    obtain ⟨rows, hrows, h⟩ := bind_eq_ok.mp h
    cases h
    rw [Icp.emplace_eq_ok hrows]
    have hperm := perm_insertByPk Account.primaryKey ⟨value⟩ (st.accounts owner)
    refine hb.setAccounts ((hperm.map _).nodup_iff.mpr ?_) fun x hx => ?_
    · -- the key is new in the table
      refine List.nodup_cons.mpr ⟨fun hmem => ?_, hb.nodup owner⟩
      obtain ⟨r, hr, hkey⟩ := List.mem_map.mp hmem
      exact findKey_eq_none hfind r hr hkey
    · rcases List.mem_cons.mp (hperm.subset hx) with rfl | hx
      · exact hvalue
      · exact hb.rowOk hx
  · next i a hfind =>
    obtain ⟨b, hbal, h⟩ := bind_eq_ok.mp h
    cases h
    obtain ⟨hai, -⟩ := findKey_get hfind
    obtain ⟨hi, rfl⟩ := List.getElem?_eq_some_iff.mp hai
    obtain ⟨-, rfl⟩ := Asset.add_eq_ok hbal
    have hv : 0 < value.amount := hvalue.1
    have hrow := (hb.rowOk (List.getElem_mem hi)).1
    exact hb.modify hi rfl (by dsimp only; omega)

theorem BalancesOk.setStats (hb : BalancesOk st) {scope : UInt64} {rows : List CurrencyStats}
    (hkeep : ∀ s ∈ st.stats scope, ∃ s' ∈ rows, s'.supply.symbol = s.supply.symbol) :
    BalancesOk (st.setStats scope rows) := by
  refine ⟨hb.nodup, hb.positive, fun o a ha => ?_⟩
  obtain ⟨s, hs, hsym⟩ := hb.created o a ha
  unfold TokenState.setStats
  by_cases hsc : symbolName a.balance.symbol = scope
  · rw [hsc] at hs ⊢
    obtain ⟨s', hs', hsym'⟩ := hkeep s hs
    exact ⟨s', by simpa using hs', hsym'.trans hsym⟩
  · exact ⟨s, by simpa [hsc] using hs, hsym⟩

end BalancesOk

/-! ## Supply and balances -/

/-- the `stat` table of the scope `sc`, against what the accounts hold of the token `sc`: its
rows have the scope's name, one row at most, each with the supply `held`, within
`[0, max_supply]` -/
structure StatsOk (held : Int) (sc : UInt64) (rows : List CurrencyStats) : Prop where
  scope : ∀ s ∈ rows, symbolName s.supply.symbol = sc
  nodup : (rows.map CurrencyStats.primaryKey).Nodup
  supply : ∀ s ∈ rows, s.supply.amount = held
  bounded : ∀ s ∈ rows, 0 ≤ s.supply.amount ∧ s.supply.amount ≤ s.maxSupply.amount

/-- **the invariant of the contract**: the supply of every token is what all the accounts hold
of it, and the balance rows are as `BalancesOk` says -/
structure SupplyInv (st : TokenState) : Prop where
  stats : ∀ sc, StatsOk (totalHeld st sc) sc (st.stats sc)
  balances : BalancesOk st

@[simp] theorem setStats_self (st : TokenState) (sc : UInt64) (rows : List CurrencyStats) :
    (st.setStats sc rows).stats sc = rows := by
  simp [TokenState.setStats]

theorem setStats_of_ne (st : TokenState) {sc sc' : UInt64} (rows : List CurrencyStats)
    (h : sc' ≠ sc) : (st.setStats sc rows).stats sc' = st.stats sc' := by
  simp [TokenState.setStats, h]

theorem StatsOk.set {held held' : Int} {sc : UInt64} {rows : List CurrencyStats}
    (h : StatsOk held sc rows) {i : Nat} {r x : CurrencyStats} (hi : rows[i]? = some r)
    (hsym : x.supply.symbol = r.supply.symbol) (hx : x.supply.amount = held')
    (hbound : 0 ≤ x.supply.amount ∧ x.supply.amount ≤ x.maxSupply.amount) :
    StatsOk held' sc (rows.set i x) := by
  obtain ⟨hlt, rfl⟩ := List.getElem?_eq_some_iff.mp hi
  have hr := List.getElem_mem hlt
  have hkey : x.primaryKey = rows[i].primaryKey := by
    unfold CurrencyStats.primaryKey
    rw [hsym]
  have honly : ∀ s ∈ rows.set i x, s = x := fun s hs =>
    eq_of_mem_set_of_key h.nodup hi hs (by
      unfold CurrencyStats.primaryKey
      rw [h.scope rows[i] hr, (List.mem_or_eq_of_mem_set hs).elim (h.scope s) (fun hsx => by
        rw [hsx, hsym, h.scope rows[i] hr])])
  refine ⟨fun s hs => ?_, ?_, fun s hs => ?_, fun s hs => ?_⟩
  · rw [honly s hs, hsym]
    exact h.scope _ hr
  · rw [map_set_of_key hlt hkey]
    exact h.nodup
  · rw [honly s hs]
    exact hx
  · rw [honly s hs]
    exact hbound

theorem keep_set {rows : List CurrencyStats} {i : Nat} {x : CurrencyStats} (hi : i < rows.length)
    (hsym : x.supply.symbol = rows[i].supply.symbol) :
    ∀ s ∈ rows, ∃ s' ∈ rows.set i x, s'.supply.symbol = s.supply.symbol := by
  intro s hs
  by_cases hsi : s = rows[i]
  · subst hsi
    exact ⟨x, List.mem_set hi x, hsym⟩
  · exact ⟨s, mem_set_of_ne x hs fun _ h => hsi h, rfl⟩

theorem totalHeld_eq_zero {st : TokenState} (hb : BalancesOk st) {n : UInt64}
    (hempty : st.stats n = []) : totalHeld st n = 0 := by
  apply Finset.sum_eq_zero
  intro o _
  apply List.sum_eq_zero
  intro v hv
  obtain ⟨a, ha, rfl⟩ := List.mem_map.mp hv
  unfold heldOf
  split
  · next hn =>
    obtain ⟨s, hs, -⟩ := hb.created o a ha
    rw [hn, hempty] at hs
    exact absurd hs List.not_mem_nil
  · rfl

section Actions
variable {env : TokenEnv} {st st' : TokenState}

theorem supplyInv_init : SupplyInv {} where
  stats _ := ⟨fun _ h => absurd h List.not_mem_nil, List.nodup_nil,
    fun _ h => absurd h List.not_mem_nil, fun _ h => absurd h List.not_mem_nil⟩
  balances := ⟨fun _ => List.nodup_nil, fun _ _ h => absurd h List.not_mem_nil,
    fun _ _ h => absurd h List.not_mem_nil⟩

theorem SupplyInv.setStats (hinv : SupplyInv st) {sc : UInt64} {rows : List CurrencyStats}
    (hok : StatsOk (totalHeld st sc) sc rows)
    (hkeep : ∀ s ∈ st.stats sc, ∃ s' ∈ rows, s'.supply.symbol = s.supply.symbol) :
    SupplyInv (st.setStats sc rows) := by
  refine ⟨fun sc' => ?_, hinv.balances.setStats hkeep⟩
  rw [totalHeld_setStats]
  by_cases hsc : sc' = sc
  · subst hsc
    rw [setStats_self]
    exact hok
  · rw [setStats_of_ne st rows hsc]
    exact hinv.stats sc'

theorem SupplyInv.of_move (hinv : SupplyInv st) (hs : st'.stats = st.stats)
    (ht : ∀ n, totalHeld st' n = totalHeld st n) (hb : BalancesOk st') : SupplyInv st' :=
  ⟨fun sc => by rw [hs, ht]; exact hinv.stats sc, hb⟩

theorem SupplyInv.transfer (hinv : SupplyInv st) {from' to' : UInt64} {quantity : Asset}
    {memo : String} (h : transfer env st from' to' quantity memo = .ok st') : SupplyInv st' := by
  unfold EosioToken.transfer at h
  obtain ⟨-, h⟩ := assert_bind_eq_ok.mp h
  obtain ⟨-, -, h⟩ := bind_eq_ok.mp h
  obtain ⟨-, h⟩ := assert_bind_eq_ok.mp h
  obtain ⟨⟨j, st0⟩, hget, h⟩ := bind_eq_ok.mp h
  obtain ⟨-, h⟩ := assert_bind_eq_ok.mp h
  obtain ⟨hpos, h⟩ := assert_bind_eq_ok.mp h
  obtain ⟨hsym, h⟩ := assert_bind_eq_ok.mp h
  obtain ⟨-, h⟩ := assert_bind_eq_ok.mp h
  obtain ⟨st1, h1, h2⟩ := bind_eq_ok.mp h
  obtain ⟨hs1, ht1⟩ := subBalance_eq_ok h1
  obtain ⟨hs2, ht2⟩ := addBalance_eq_ok h2
  have hst0 : st0 ∈ st1.stats (symbolName quantity.symbol) := by
    rw [hs1]
    exact List.mem_of_getElem? (getKey_eq_ok hget).1
  have hrow : RowOk st1 ⟨quantity⟩ := ⟨of_decide_eq_true hpos, st0, hst0, (eq_of_beq hsym).symm⟩
  refine hinv.of_move (hs2.trans hs1) (fun n => ?_) ((hinv.balances.subBalance h1).addBalance hrow h2)
  rw [ht2, ht1]
  omega

theorem SupplyInv.mint (hinv : SupplyInv st) {n : UInt64} {i : Nat} {st0 : CurrencyStats}
    {quantity : Asset} {owner : UInt64} (hi : (st.stats n)[i]? = some st0)
    (hn : symbolName quantity.symbol = n) (hsym : quantity.symbol = st0.supply.symbol)
    (hpos : 0 < quantity.amount) (hle : quantity.amount ≤ st0.maxSupply.amount - st0.supply.amount)
    (h : addBalance (st.setStats n ((st.stats n).set i
      { st0 with supply := { st0.supply with amount := st0.supply.amount + quantity.amount } }))
      owner quantity = .ok st') : SupplyInv st' := by
  obtain ⟨hlt, hst0⟩ := List.getElem?_eq_some_iff.mp hi
  obtain ⟨hs', ht'⟩ := addBalance_eq_ok h
  have hbound := (hinv.stats n).bounded _ (List.getElem_mem hlt)
  have hsupply := (hinv.stats n).supply _ (List.getElem_mem hlt)
  rw [hst0] at hbound hsupply
  have hstats : ∀ sc, StatsOk (totalHeld st' sc) sc (st'.stats sc) := by
    intro sc
    rw [hs', ht', totalHeld_setStats]
    by_cases hsc : sc = n
    · subst hsc
      rw [setStats_self]
      have hheld : heldOf sc ⟨quantity⟩ = quantity.amount := if_pos hn
      refine (hinv.stats sc).set hi rfl ?_ ⟨by dsimp only; omega, by dsimp only; omega⟩
      rw [hheld, ← hsupply]
    · rw [setStats_of_ne st _ hsc]
      have hheld : heldOf sc ⟨quantity⟩ = 0 := if_neg (fun h => hsc (hn ▸ h).symm)
      rw [hheld, Int.add_zero]
      exact hinv.stats sc
  have hb : BalancesOk (st.setStats n ((st.stats n).set i
      { st0 with supply := { st0.supply with amount := st0.supply.amount + quantity.amount } })) :=
    hinv.balances.setStats (keep_set hlt (by rw [hst0]))
  refine ⟨hstats, hb.addBalance ⟨hpos, { st0 with supply := { st0.supply with
    amount := st0.supply.amount + quantity.amount } }, ?_, hsym.symm⟩ h⟩
  rw [hn, setStats_self]
  exact List.mem_set hlt _

theorem SupplyInv.issue (hinv : SupplyInv st) {to' : UInt64} {quantity : Asset} {memo : String}
    (h : issue env st to' quantity memo = .ok st') : SupplyInv st' := by
  unfold EosioToken.issue at h
  obtain ⟨-, h⟩ := assert_bind_eq_ok.mp h
  obtain ⟨-, h⟩ := assert_bind_eq_ok.mp h
  obtain ⟨⟨i, st0⟩, hget, h⟩ := bind_eq_ok.mp h
  obtain ⟨-, -, h⟩ := bind_eq_ok.mp h
  obtain ⟨-, h⟩ := assert_bind_eq_ok.mp h
  obtain ⟨hpos, h⟩ := assert_bind_eq_ok.mp h
  obtain ⟨hsym, h⟩ := assert_bind_eq_ok.mp h
  obtain ⟨hle, h⟩ := assert_bind_eq_ok.mp h
  obtain ⟨supply, hsupply, h⟩ := bind_eq_ok.mp h
  obtain ⟨-, rfl⟩ := Asset.add_eq_ok hsupply
  dsimp only at h
  obtain ⟨st2, h2, hrest⟩ := bind_eq_ok.mp h
  have hinv2 := hinv.mint (getKey_eq_ok hget).1 rfl (eq_of_beq hsym) (of_decide_eq_true hpos)
    (of_decide_eq_true hle) h2
  split at hrest
  · exact hinv2.transfer hrest
  · cases hrest
    exact hinv2

theorem SupplyInv.create (hinv : SupplyInv st) {issuer : UInt64} {maximumSupply : Asset}
    (h : create env st issuer maximumSupply = .ok st') : SupplyInv st' := by
  unfold EosioToken.create at h
  obtain ⟨-, -, h⟩ := bind_eq_ok.mp h
  obtain ⟨-, h⟩ := assert_bind_eq_ok.mp h
  obtain ⟨-, h⟩ := assert_bind_eq_ok.mp h
  obtain ⟨hpos, h⟩ := assert_bind_eq_ok.mp h
  have hpos : 0 < maximumSupply.amount := of_decide_eq_true hpos
  set n := symbolName maximumSupply.symbol
  dsimp only at h
  split at h
  · next hfind =>
    obtain ⟨rows, hrows, h⟩ := bind_eq_ok.mp h
    cases h
    rw [Icp.emplace_eq_ok hrows]
    have hempty : st.stats n = [] := List.eq_nil_iff_forall_not_mem.mpr fun s hs =>
      findKey_eq_none hfind s hs (congrArg UInt64.toNat ((hinv.stats n).scope s hs))
    have hheld := totalHeld_eq_zero hinv.balances hempty
    refine hinv.setStats ⟨?_, ?_, ?_, ?_⟩ (by rw [hempty]; exact fun _ h => absurd h List.not_mem_nil)
    all_goals rw [hempty]
    · exact fun s hs => by rw [List.mem_singleton.mp hs]
    · exact List.nodup_singleton _
    · exact fun s hs => by rw [List.mem_singleton.mp hs, hheld]
    · exact fun s hs => by rw [List.mem_singleton.mp hs]; exact ⟨le_refl 0, hpos.le⟩
  · next i existing hfind =>
    obtain ⟨-, h⟩ := assert_bind_eq_ok.mp h
    obtain ⟨-, h⟩ := assert_bind_eq_ok.mp h
    obtain ⟨hge, h⟩ := assert_bind_eq_ok.mp h
    cases h
    have hge : maximumSupply.amount ≥ existing.supply.amount := of_decide_eq_true hge
    obtain ⟨hi, -⟩ := findKey_get hfind
    obtain ⟨hlt, hex⟩ := List.getElem?_eq_some_iff.mp hi
    have hsupply := (hinv.stats n).supply _ (List.getElem_mem hlt)
    have hbound := (hinv.stats n).bounded _ (List.getElem_mem hlt)
    rw [hex] at hsupply hbound
    exact hinv.setStats ((hinv.stats n).set hi rfl hsupply ⟨hbound.1, hge⟩)
      (keep_set hlt (by rw [hex]))

theorem SupplyInv.step (hinv : SupplyInv st) {e : TokenEnv × TokenAction} (h : step st e = .ok st') :
    SupplyInv st' := by
  obtain ⟨env, act⟩ := e
  cases act with
  | create issuer maximumSupply => exact hinv.create h
  | issue to' quantity memo => exact hinv.issue h
  | transfer from' to' quantity memo => exact hinv.transfer h

end Actions

theorem supplyInv_reachable {st : TokenState} (h : Reachable step {} st) : SupplyInv st :=
  h.inv SupplyInv supplyInv_init (fun _ _ _ hinv hstep => hinv.step hstep)

theorem token_supply_conservation {st : TokenState} (h : Reachable step {} st) :
    (∀ sc, ∀ s ∈ st.stats sc, s.supply.amount = ∑ o : UInt64, heldIn (st.accounts o) sc ∧
      0 ≤ s.supply.amount ∧ s.supply.amount ≤ s.maxSupply.amount) ∧
    (∀ o, ∀ a ∈ st.accounts o, 0 < a.balance.amount ∧
      ∃ s ∈ st.stats (symbolName a.balance.symbol), s.supply.symbol = a.balance.symbol) := by
  have hinv := supplyInv_reachable h
  exact ⟨fun sc s hs => ⟨(hinv.stats sc).supply s hs, (hinv.stats sc).bounded s hs⟩,
    fun o a ha => hinv.balances.rowOk ha⟩

/-- `4,SYS` -/
def sampleSymbol : UInt64 := 4 + 83 * 256 + 89 * 256 ^ 2 + 83 * 256 ^ 3

/-- the contract at account 1 creates `SYS` for issuer 2, which issues 500 to account 3; then 3
sends 200 to 4 -/
def sampleTokenRun : List (TokenEnv × TokenAction) :=
  let env : TokenEnv := { self := 1, auth := [1, 2], isAccount := fun _ => true }
  [(env, .create 2 ⟨10000, sampleSymbol⟩), (env, .issue 3 ⟨500, sampleSymbol⟩ ""),
   ({ env with auth := [3] }, .transfer 3 4 ⟨200, sampleSymbol⟩ "")]

theorem sample_token_supply :
    let st := exec step {} sampleTokenRun
    ((st.stats (symbolName sampleSymbol)).map (·.supply.amount) = [500] ∧
      (st.accounts 3).map (·.balance.amount) = [300] ∧ st.accounts 2 = []) ∧
    (∀ sc, ∀ s ∈ st.stats sc, s.supply.amount = ∑ o : UInt64, heldIn (st.accounts o) sc ∧
      0 ≤ s.supply.amount ∧ s.supply.amount ≤ s.maxSupply.amount) ∧
    (∀ o, ∀ a ∈ st.accounts o, 0 < a.balance.amount ∧
      ∃ s ∈ st.stats (symbolName a.balance.symbol), s.supply.symbol = a.balance.symbol) :=
  ⟨by decide, token_supply_conservation (reachable_exec sampleTokenRun)⟩

end Eos.EosioToken
