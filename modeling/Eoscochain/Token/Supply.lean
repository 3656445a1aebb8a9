import Eoscochain.Token.Contract
import Eoscochain.Lib.Run

/-!
# Supply and balances of the mirrored tokens

In every scope, the supply of a token in `stat` should be what its holders hold in `accounts`.
`SupplyInv` says so, with the two facts that keep it true: one supply row a name, and a supply
row for every name held.

* `debit_eq_ok`, `credit_eq_ok`   what `sub_balance` and `add_balance` do to the balances;
* `mint_eq_ok`, `burn_eq_ok`      the rows they touch: `mint` the supply of the scope `contract`,
                                  `burn` the supply of the scope named by the symbol, both the
                                  balances of the scope `contract`;
* `apply_supplyInv`               every action keeps the invariant, an `icprefund` when its
                                  contract is the token's name;
* `sampleSymbol`, `sampleTokenEnv`   the token `SYS` and a transaction of the contract.
-/

set_option linter.unusedSectionVars false

namespace Eos.Token

open Machine Table

/-- what an asset counts for the token named `n` -/
def heldOf (n : UInt64) (b : Asset) : Int := if symbolName b.symbol = n then b.amount else 0

/-- the amount of the token named `n` held in a table of balances -/
def balanceOf (rows : List Account) (n : UInt64) : Int := (rows.map fun a => heldOf n a.balance).sum

/-- the names of the tokens held in a table of balances -/
def holdingNames (rows : List Account) : List UInt64 :=
  rows.map fun a => symbolName a.balance.symbol

/-- the names of the tokens of a table of supplies -/
def supplyNames (rows : List AccountStats) : List UInt64 :=
  rows.map fun s => symbolName s.supply.symbol

section Tables
variable {rows : List Account} {i : Nat}

theorem balanceOf_set (hi : i < rows.length) (x : Account) (n : UInt64) :
    balanceOf (rows.set i x) n = balanceOf rows n - heldOf n rows[i].balance + heldOf n x.balance :=
  sum_map_set _ rows i x hi

theorem balanceOf_eraseIdx (hi : i < rows.length) (n : UInt64) :
    balanceOf (rows.eraseIdx i) n = balanceOf rows n - heldOf n rows[i].balance :=
  sum_map_eraseIdx _ rows i hi

theorem balanceOf_insertByPk (pk : Account → Nat) (x : Account) (rows : List Account) (n : UInt64) :
    balanceOf (insertByPk pk x rows) n = heldOf n x.balance + balanceOf rows n :=
  sum_map_insertByPk _ pk x rows

theorem balanceOf_eq_zero {n : UInt64} (h : n ∉ holdingNames rows) : balanceOf rows n = 0 := by
  apply List.sum_eq_zero
  intro v hv
  obtain ⟨a, ha, rfl⟩ := List.mem_map.mp hv
  have hne : symbolName a.balance.symbol ≠ n := fun heq => h (List.mem_map.mpr ⟨a, ha, heq⟩)
  simp [heldOf, hne]

theorem holdingNames_set (hi : i < rows.length) (x : Account)
    (hx : symbolName x.balance.symbol = symbolName rows[i].balance.symbol) :
    holdingNames (rows.set i x) = holdingNames rows := by
  apply List.ext_getElem (by simp [holdingNames])
  intro j hj _
  simp only [holdingNames, List.getElem_map, List.getElem_set]
  split
  · next hij =>
    subst hij
    exact hx
  · rfl

theorem supplyNames_set {stats : List AccountStats} (hi : i < stats.length) (x : AccountStats)
    (hx : symbolName x.supply.symbol = symbolName stats[i].supply.symbol) :
    supplyNames (stats.set i x) = supplyNames stats := by
  apply List.ext_getElem (by simp [supplyNames])
  intro j hj _
  simp only [supplyNames, List.getElem_map, List.getElem_set]
  split
  · next hij =>
    subst hij
    exact hx
  · rfl

end Tables

/-! ## Balances -/

theorem debit_eq_ok {rows rows' : List Account} {owner : UInt64} {value : Asset} {msg : String}
    (h : debit rows owner value msg = .ok rows') :
    (∀ n, balanceOf rows' n = balanceOf rows n - heldOf n value) ∧
      holdingNames rows' ⊆ holdingNames rows := by
  unfold debit at h
  obtain ⟨⟨i, a⟩, hget, h⟩ := bind_eq_ok.mp h
  obtain ⟨hai, hkey⟩ := getKey_eq_ok hget
  obtain ⟨hi, rfl⟩ := List.getElem?_eq_some_iff.mp hai
  have hname : symbolName rows[i].balance.symbol = symbolName value.symbol :=
    (accountAssetKey_inj hkey).2
  obtain ⟨-, h⟩ := assert_bind_eq_ok.mp h
  split at h
  · next heq =>
    cases h
    refine ⟨fun n => ?_, List.map_subset _ (List.eraseIdx_subset)⟩
    rw [balanceOf_eraseIdx hi]
    simp only [heldOf, hname, heq]
  · obtain ⟨b, hb, h⟩ := bind_eq_ok.mp h
    cases h
    obtain ⟨-, hbeq⟩ := Asset.sub_eq_ok hb
    have hbname : symbolName ({ rows[i] with balance := b } : Account).balance.symbol
        = symbolName rows[i].balance.symbol := by rw [hbeq]
    refine ⟨fun n => ?_, ?_⟩
    · rw [balanceOf_set hi, hbeq]
      simp only [heldOf, hname]
      split_ifs <;> omega
    · rw [holdingNames_set hi _ hbname]
      exact List.Subset.refl _

theorem credit_eq_ok {rows rows' : List Account} {owner : UInt64} {value : Asset}
    (h : credit rows owner value = .ok rows') :
    (∀ n, balanceOf rows' n = balanceOf rows n + heldOf n value) ∧
      holdingNames rows' ⊆ symbolName value.symbol :: holdingNames rows := by
  unfold credit at h
  split at h
  · -- no row of `owner` holds the token: a new row
    obtain ⟨pk, -, h⟩ := bind_eq_ok.mp h
    rw [Icp.emplace_eq_ok h]
    refine ⟨fun n => ?_, ?_⟩
    · rw [balanceOf_insertByPk, Int.add_comm]
    · exact ((perm_insertByPk _ _ rows).map _).subset
  · next i a hfind =>
    obtain ⟨b, hb, h⟩ := bind_eq_ok.mp h
    cases h
    obtain ⟨hai, hkey⟩ := findKey_get hfind
    obtain ⟨hi, rfl⟩ := List.getElem?_eq_some_iff.mp hai
    have hname : symbolName rows[i].balance.symbol = symbolName value.symbol :=
      (accountAssetKey_inj hkey).2
    obtain ⟨-, hbeq⟩ := Asset.add_eq_ok hb
    have hbname : symbolName ({ rows[i] with balance := b } : Account).balance.symbol
        = symbolName rows[i].balance.symbol := by rw [hbeq]
    refine ⟨fun n => ?_, ?_⟩
    · rw [balanceOf_set hi, hbeq]
      simp only [heldOf, hname]
      split_ifs <;> omega
    · rw [holdingNames_set hi _ hbname]
      exact List.subset_cons_self _ _

/-! ## The invariant -/

/-- the supplies of every scope: one row a name, a row for every name held, and each row's
supply what the holders hold -/
structure SupplyInv (st : TokenState) : Prop where
  unique : ∀ c, (supplyNames (st.stats c)).Nodup
  backed : ∀ c, holdingNames (st.accounts c) ⊆ supplyNames (st.stats c)
  conserved : ∀ c, ∀ s ∈ st.stats c,
    s.supply.amount = balanceOf (st.accounts c) (symbolName s.supply.symbol)

theorem supplyInv_init : SupplyInv {} where
  unique _ := List.nodup_nil
  backed _ := List.nil_subset _
  conserved _ _ hs := nomatch hs

section Preservation
variable {st : TokenState}

theorem SupplyInv.of_eq {st' : TokenState} (hinv : SupplyInv st) (hs : st'.stats = st.stats)
    (ha : st'.accounts = st.accounts) : SupplyInv st' := by
  refine ⟨fun c => ?_, fun c => ?_, fun c => ?_⟩
  · rw [hs]
    exact hinv.unique c
  · rw [hs, ha]
    exact hinv.backed c
  · rw [hs, ha]
    exact hinv.conserved c

theorem SupplyInv.rebalance (hinv : SupplyInv st) {c : UInt64} {rows : List Account}
    (hbal : ∀ n, balanceOf rows n = balanceOf (st.accounts c) n)
    (hnames : holdingNames rows ⊆ supplyNames (st.stats c)) :
    SupplyInv { st with accounts := Function.update st.accounts c rows } := by
  refine ⟨hinv.unique, fun c' => ?_, fun c' s hs => ?_⟩
  · by_cases hc : c' = c
    · subst hc
      simpa using hnames
    · simpa [Function.update_of_ne hc] using hinv.backed c'
  · by_cases hc : c' = c
    · subst hc
      simp only [Function.update_self, hbal]
      exact hinv.conserved c' s hs
    · simpa [Function.update_of_ne hc] using hinv.conserved c' s hs

theorem SupplyInv.create (hinv : SupplyInv st) {c : UInt64} {x : AccountStats}
    (pk : AccountStats → Nat) (hnew : symbolName x.supply.symbol ∉ supplyNames (st.stats c))
    (hzero : x.supply.amount = 0) :
    SupplyInv { st with stats := Function.update st.stats c (insertByPk pk x (st.stats c)) } := by
  have hperm := perm_insertByPk pk x (st.stats c)
  have hnames : (supplyNames (insertByPk pk x (st.stats c))).Perm
      (symbolName x.supply.symbol :: supplyNames (st.stats c)) := hperm.map _
  refine ⟨fun c' => ?_, fun c' => ?_, fun c' s hs => ?_⟩
  · by_cases hc : c' = c
    · subst hc
      simpa [hnames.nodup_iff] using And.intro hnew (hinv.unique c')
    · simpa [Function.update_of_ne hc] using hinv.unique c'
  · by_cases hc : c' = c
    · subst hc
      simp only [Function.update_self]
      exact List.Subset.trans (hinv.backed c') fun n hn => hnames.symm.subset (List.mem_cons_of_mem _ hn)
    · simpa [Function.update_of_ne hc] using hinv.backed c'
  · by_cases hc : c' = c
    · subst hc
      simp only [Function.update_self] at hs ⊢
      rcases List.mem_cons.mp (hperm.subset hs) with rfl | hs
      · -- nobody holds the new token: its name has no supply row yet
        have hheld : symbolName s.supply.symbol ∉ holdingNames (st.accounts c') :=
          fun hn => hnew (hinv.backed c' hn)
        rw [hzero, balanceOf_eq_zero hheld]
      · exact hinv.conserved c' s hs
    · simp only [Function.update_of_ne hc] at hs ⊢
      exact hinv.conserved c' s hs

theorem SupplyInv.move (hinv : SupplyInv st) {c : UInt64} {i : Nat}
    (hi : i < (st.stats c).length) (d : Int) {x : AccountStats} {rows : List Account}
    (hname : symbolName x.supply.symbol = symbolName (st.stats c)[i].supply.symbol)
    (hamount : x.supply.amount = (st.stats c)[i].supply.amount + d)
    (hbal : ∀ n, balanceOf rows n = balanceOf (st.accounts c) n + heldOf n { x.supply with amount := d })
    (hnames : holdingNames rows ⊆ symbolName x.supply.symbol :: holdingNames (st.accounts c)) :
    SupplyInv { st with
      stats := Function.update st.stats c ((st.stats c).set i x)
      accounts := Function.update st.accounts c rows } := by
  have hset := supplyNames_set hi x hname
  have hmem : (st.stats c)[i] ∈ st.stats c := List.getElem_mem hi
  refine ⟨fun c' => ?_, fun c' => ?_, fun c' s hs => ?_⟩
  · by_cases hc : c' = c
    · subst hc
      simpa [hset] using hinv.unique c'
    · simpa [Function.update_of_ne hc] using hinv.unique c'
  · by_cases hc : c' = c
    · subst hc
      simp only [Function.update_self, hset]
      intro n hn
      rcases List.mem_cons.mp (hnames hn) with rfl | hn
      · rw [hname]
        exact List.mem_map_of_mem hmem
      · exact hinv.backed c' hn
    · simpa [Function.update_of_ne hc] using hinv.backed c'
  · by_cases hc : c' = c
    · subst hc
      simp only [Function.update_self] at hs ⊢
      by_cases hsx : symbolName s.supply.symbol = symbolName x.supply.symbol
      · -- the moved row: the only row of its name
        have hx : x ∈ (st.stats c').set i x := List.mem_set hi x
        have hnodup : (supplyNames ((st.stats c').set i x)).Nodup := by
          rw [hset]
          exact hinv.unique c'
        obtain rfl : s = x := List.inj_on_of_nodup_map hnodup hs hx hsx
        have hheld : heldOf (symbolName s.supply.symbol) { s.supply with amount := d } = d := by
          simp [heldOf]
        rw [hamount, hbal, hheld, hname, ← hinv.conserved c' _ hmem]
      · have hs' : s ∈ st.stats c' :=
          (List.mem_or_eq_of_mem_set hs).resolve_right fun heq => hsx (heq ▸ rfl)
        rw [hbal, ← hinv.conserved c' s hs']
        simp [heldOf, Ne.symm hsx]
    · simp only [Function.update_of_ne hc] at hs ⊢
      exact hinv.conserved c' s hs

end Preservation

/-! ## The actions -/

section Actions
variable {env : TokenEnv} {st st' : TokenState} {contract : UInt64} {quantity : Asset}

theorem mint_eq_ok {to' : UInt64} (h : mint env st contract to' quantity = .ok st') :
    ∃ i s rows, (st.stats contract)[i]? = some s ∧ quantity.symbol = s.supply.symbol ∧
      credit (st.accounts contract) to' quantity = .ok rows ∧
      st' = { st with
        stats := Function.update st.stats contract ((st.stats contract).set i
          { supply := { s.supply with amount := s.supply.amount + quantity.amount } })
        accounts := Function.update st.accounts contract rows } := by
  unfold mint at h
  obtain ⟨-, -, h⟩ := bind_eq_ok.mp h
  obtain ⟨-, h⟩ := assert_bind_eq_ok.mp h
  obtain ⟨-, h⟩ := assert_bind_eq_ok.mp h
  obtain ⟨-, h⟩ := assert_bind_eq_ok.mp h
  obtain ⟨⟨i, s⟩, hget, h⟩ := bind_eq_ok.mp h
  obtain ⟨-, h⟩ := assert_bind_eq_ok.mp h
  obtain ⟨-, h⟩ := assert_bind_eq_ok.mp h
  obtain ⟨supply, hadd, h⟩ := bind_eq_ok.mp h
  obtain ⟨hsym, rfl⟩ := Asset.add_eq_ok hadd
  unfold addBalance at h
  obtain ⟨rows, hcredit, h⟩ := bind_eq_ok.mp h
  cases h
  exact ⟨i, s, rows, (getKey_eq_ok hget).1, hsym, hcredit, rfl⟩

theorem burn_eq_ok {from' : UInt64} (h : burn env st contract from' quantity = .ok st') :
    ∃ i s rows, (st.stats (symbolName quantity.symbol))[i]? = some s ∧
      quantity.symbol = s.supply.symbol ∧
      debit (st.accounts contract) from' quantity "no balance object found" = .ok rows ∧
      st' = { st with
        stats := Function.update st.stats (symbolName quantity.symbol)
          ((st.stats (symbolName quantity.symbol)).set i
            { supply := { s.supply with amount := s.supply.amount - quantity.amount } })
        accounts := Function.update st.accounts contract rows } := by
  unfold burn at h
  obtain ⟨-, -, h⟩ := bind_eq_ok.mp h
  obtain ⟨-, h⟩ := assert_bind_eq_ok.mp h
  obtain ⟨-, h⟩ := assert_bind_eq_ok.mp h
  obtain ⟨-, h⟩ := assert_bind_eq_ok.mp h
  obtain ⟨⟨i, s⟩, hget, h⟩ := bind_eq_ok.mp h
  obtain ⟨-, h⟩ := assert_bind_eq_ok.mp h
  obtain ⟨-, h⟩ := assert_bind_eq_ok.mp h
  obtain ⟨supply, hsub, h⟩ := bind_eq_ok.mp h
  obtain ⟨hsym, rfl⟩ := Asset.sub_eq_ok hsub
  unfold subBalance at h
  obtain ⟨rows, hdebit, h⟩ := bind_eq_ok.mp h
  cases h
  exact ⟨i, s, rows, (getKey_eq_ok hget).1, hsym, hdebit, rfl⟩

theorem mint_supplyInv {to' : UInt64} (hinv : SupplyInv st)
    (h : mint env st contract to' quantity = .ok st') : SupplyInv st' := by
  obtain ⟨i, s, rows, hs, hsym, hcredit, rfl⟩ := mint_eq_ok h
  obtain ⟨hi, hget⟩ := List.getElem?_eq_some_iff.mp hs
  obtain ⟨hbal, hnames⟩ := credit_eq_ok hcredit
  refine hinv.move hi quantity.amount (by rw [hget]) (by rw [hget]) (fun n => ?_) ?_
  · rw [hbal n]
    simp only [heldOf, hsym]
  · simpa only [hsym] using hnames

theorem burn_supplyInv {from' : UInt64} (hinv : SupplyInv st)
    (hscope : contract = symbolName quantity.symbol)
    (h : burn env st contract from' quantity = .ok st') : SupplyInv st' := by
  obtain ⟨i, s, rows, hs, hsym, hdebit, rfl⟩ := burn_eq_ok h
  subst hscope
  obtain ⟨hi, hget⟩ := List.getElem?_eq_some_iff.mp hs
  obtain ⟨hbal, hnames⟩ := debit_eq_ok hdebit
  refine hinv.move hi (-quantity.amount) (by rw [hget]) (by rw [hget]; dsimp only; omega) (fun n => ?_) ?_
  · rw [hbal n]
    simp only [heldOf, hsym]
    split_ifs <;> omega
  · exact List.Subset.trans hnames (List.subset_cons_self _ _)

theorem create_supplyInv {symbol : UInt64} (hinv : SupplyInv st)
    (h : create env st contract symbol = .ok st') : SupplyInv st' := by
  unfold create at h
  obtain ⟨-, -, h⟩ := bind_eq_ok.mp h
  obtain ⟨-, h⟩ := assert_bind_eq_ok.mp h
  obtain ⟨hnone, h⟩ := assert_bind_eq_ok.mp h
  obtain ⟨rows, hemp, h⟩ := bind_eq_ok.mp h
  cases h
  rw [Icp.emplace_eq_ok hemp]
  apply hinv.create _ _ rfl
  have hfind := findKey_eq_none (Option.isNone_iff_eq_none.mp hnone)
  intro hn
  obtain ⟨s, hs, hsn⟩ := List.mem_map.mp hn
  exact hfind s hs (by rw [AccountStats.primaryKey, hsn])

theorem transfer_supplyInv {from' to' : UInt64} {memo : String} (hinv : SupplyInv st)
    (h : transfer env st contract from' to' quantity memo = .ok st') : SupplyInv st' := by
  unfold transfer at h
  obtain ⟨-, h⟩ := assert_bind_eq_ok.mp h
  obtain ⟨-, -, h⟩ := bind_eq_ok.mp h
  obtain ⟨-, h⟩ := assert_bind_eq_ok.mp h
  obtain ⟨⟨j, s⟩, hget, h⟩ := bind_eq_ok.mp h
  obtain ⟨-, h⟩ := assert_bind_eq_ok.mp h
  obtain ⟨-, h⟩ := assert_bind_eq_ok.mp h
  obtain ⟨-, h⟩ := assert_bind_eq_ok.mp h
  obtain ⟨-, h⟩ := assert_bind_eq_ok.mp h
  obtain ⟨st1, hsub, h⟩ := bind_eq_ok.mp h
  unfold subBalance at hsub
  obtain ⟨rows1, hdebit, hsub⟩ := bind_eq_ok.mp hsub
  cases hsub
  unfold addBalance at h
  obtain ⟨rows2, hcredit, h⟩ := bind_eq_ok.mp h
  cases h
  simp only [Function.update_self] at hcredit
  simp only [Function.update_idem]
  obtain ⟨hbal1, hnames1⟩ := debit_eq_ok hdebit
  obtain ⟨hbal2, hnames2⟩ := credit_eq_ok hcredit
  obtain ⟨hs, hkey⟩ := getKey_eq_ok hget
  have hsn : symbolName quantity.symbol ∈ supplyNames (st.stats contract) := by
    refine List.mem_map.mpr ⟨s, List.mem_of_getElem? hs, ?_⟩
    exact UInt64.toNat_inj.mp hkey
  apply hinv.rebalance
  · intro n
    rw [hbal2, hbal1]
    omega
  · intro n hn
    rcases List.mem_cons.mp (hnames2 hn) with rfl | hn
    · exact hsn
    · exact hinv.backed contract (hnames1 hn)

theorem icpTransfer_tables {from' icpTo : UInt64} {memo : String} {expiration : UInt32}
    {refund : Bool} {r : TokenState × List TokenSend}
    (h : icpTransfer env st contract from' icpTo quantity memo expiration refund = .ok r) :
    r.1.stats = st.stats ∧ r.1.accounts = st.accounts := by
  unfold icpTransfer at h
  obtain ⟨-, h⟩ := assert_bind_eq_ok.mp h
  obtain ⟨-, h⟩ := assert_bind_eq_ok.mp h
  obtain ⟨seq, -, h⟩ := bind_eq_ok.mp h
  obtain ⟨locked, -, h⟩ := bind_eq_ok.mp h
  cases h
  exact ⟨rfl, rfl⟩

theorem icpreceive_supplyInv {to' : UInt64} {memo : String} {refund : Bool}
    {r : TokenState × List TokenSend} (hinv : SupplyInv st)
    (h : icpreceive env st contract to' quantity memo refund = .ok r) : SupplyInv r.1 := by
  unfold icpreceive at h
  obtain ⟨-, -, h⟩ := bind_eq_ok.mp h
  obtain ⟨-, h⟩ := assert_bind_eq_ok.mp h
  split at h
  · cases h
    exact hinv
  · obtain ⟨st1, hmint, rfl⟩ := map_eq_ok.mp h
    exact mint_supplyInv hinv hmint

theorem icpreceipt_supplyInv {seq status : Nat} {r : TokenState × List TokenSend}
    (hinv : SupplyInv st) (h : icpreceipt env st seq status = .ok r) : SupplyInv r.1 := by
  unfold icpreceipt at h
  obtain ⟨-, -, h⟩ := bind_eq_ok.mp h
  split at h
  · cases h
    exact hinv
  · next l _ =>
    obtain ⟨⟨st1, sends⟩, hrel, h⟩ := bind_eq_ok.mp h
    cases h
    have hinv1 : SupplyInv st1 := by
      unfold releaseLocked at hrel
      split at hrel
      · split at hrel
        · obtain ⟨st2, hmint, hr⟩ := map_eq_ok.mp hrel
          cases hr
          exact mint_supplyInv hinv hmint
        · cases hrel
          exact hinv
      · cases hrel
        exact hinv
    exact hinv1.of_eq rfl rfl

theorem icprefund_supplyInv {from' icpTo : UInt64} {memo : String} {expiration : UInt32}
    {r : TokenState × List TokenSend} (hinv : SupplyInv st)
    (hscope : contract = symbolName quantity.symbol)
    (h : icprefund env st contract from' icpTo quantity memo expiration = .ok r) :
    SupplyInv r.1 := by
  unfold icprefund at h
  obtain ⟨-, -, h⟩ := bind_eq_ok.mp h
  obtain ⟨-, h⟩ := assert_bind_eq_ok.mp h
  obtain ⟨st1, hburn, h⟩ := bind_eq_ok.mp h
  obtain ⟨hs, ha⟩ := icpTransfer_tables h
  exact (burn_supplyInv hinv hscope hburn).of_eq hs ha

theorem icptransfer_supplyInv {from' icpTo : UInt64} {memo : String} {expiration : UInt32}
    {r : TokenState × List TokenSend} (hinv : SupplyInv st)
    (h : icptransfer env st contract from' icpTo quantity memo expiration = .ok r) :
    SupplyInv r.1 := by
  unfold icptransfer at h
  obtain ⟨-, -, h⟩ := bind_eq_ok.mp h
  obtain ⟨rows, -, h⟩ := bind_eq_ok.mp h
  obtain ⟨hs, ha⟩ := icpTransfer_tables h
  exact hinv.of_eq hs ha

theorem icpTransferOrDeposit_supplyInv {from' to' : UInt64} {memo : String}
    {r : TokenState × List TokenSend} (hinv : SupplyInv st)
    (h : icpTransferOrDeposit env st contract from' to' quantity memo = .ok r) :
    SupplyInv r.1 := by
  unfold icpTransferOrDeposit at h
  split at h
  · cases h
    exact hinv
  · split at h
    · split at h
      · cases h
      · obtain ⟨expiration, -, h⟩ := bind_eq_ok.mp h
        obtain ⟨hs, ha⟩ := icpTransfer_tables h
        exact hinv.of_eq hs ha
    · -- a deposit touches only `deposit`
      obtain ⟨st1, hdep, rfl⟩ := map_eq_ok.mp h
      unfold deposit at hdep
      dsimp only at hdep
      split at hdep
      · obtain ⟨rows, -, hdep⟩ := bind_eq_ok.mp hdep
        cases hdep
        exact hinv.of_eq rfl rfl
      · obtain ⟨b, -, hdep⟩ := bind_eq_ok.mp hdep
        cases hdep
        exact hinv.of_eq rfl rfl

end Actions

/-! ## Runs -/

/-- the requests whose `burn` lowers the supply in the scope of the balances: all but an
`icprefund` of a token whose name is not its contract -/
def BurnInScope : TokenRequest → Prop
  | .icprefund contract _ _ quantity _ _ => contract = symbolName quantity.symbol
  | _ => True

theorem apply_supplyInv {env : TokenEnv} {st : TokenState} {req : TokenRequest}
    {r : TokenState × List TokenSend} (hinv : SupplyInv st) (hscope : BurnInScope req)
    (h : apply env st req = .ok r) : SupplyInv r.1 := by
  cases req with
  | setcontracts icp peer =>
    obtain ⟨st1, h1, rfl⟩ := map_eq_ok.mp h
    unfold setcontracts at h1
    obtain ⟨-, -, h1⟩ := bind_eq_ok.mp h1
    obtain ⟨-, h1⟩ := assert_bind_eq_ok.mp h1
    cases h1
    exact hinv.of_eq rfl rfl
  | create contract symbol =>
    obtain ⟨st1, h1, rfl⟩ := map_eq_ok.mp h
    exact create_supplyInv hinv h1
  | transfer contract from' to' quantity memo =>
    obtain ⟨st1, h1, rfl⟩ := map_eq_ok.mp h
    exact transfer_supplyInv hinv h1
  | icpreceive contract icpFrom to' quantity memo refund => exact icpreceive_supplyInv hinv h
  | icpreceipt seq status data => exact icpreceipt_supplyInv hinv h
  | icptransfer contract from' icpTo quantity memo expiration => exact icptransfer_supplyInv hinv h
  | icprefund contract from' icpTo quantity memo expiration =>
    exact icprefund_supplyInv hinv hscope h
  | tokenTransfer code from' to' quantity memo =>
    simp only [apply] at h
    split at h
    · exact icpTransferOrDeposit_supplyInv hinv h
    · cases h
      exact hinv

/-! ## Samples -/

/-- the symbol `4,SYS` -/
def sampleSymbol : UInt64 := 4 + 83 * 256 + 89 * 256 ^ 2 + 83 * 256 ^ 3

/-- the contract `1` with the authority of `9` -/
def sampleTokenEnv : TokenEnv where
  self := 1
  auth := [1, 9]
  isAccount _ := true
  icp _ := { peer := some { peer := 3 } }

end Eos.Token
