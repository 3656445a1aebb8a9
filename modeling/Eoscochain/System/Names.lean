import Eoscochain.Chain.Name
import Eoscochain.System.Staking

/-!
# Premium names in eosio.system

contracts/eosio.system eosio.system.cpp: `bidname` and the naming rule of `native::newaccount`.
A name whose first twelve symbols hold a dot (a dotted name, or one shorter than twelve
characters) is created by an account other than `eosio` only by its top-level suffix
(`eosio::name_suffix`), or, when it is its own suffix, only by the winner of its closed auction.
Auctions are the `namebids` table that `bidname` fills.

* `hasDot`                 the loop of `newaccount` over the first twelve symbols;
* `bidname`, `newaccount`  the two actions; `newaccount` ends with the `user_resources` row of the
                           new account;
* `hasDot_iff`, `hasDot_of_dot_mem`   the loop finds the dots of the name's string.

Left out: `last_bid_time` and the `highbid` index, read only by `onblock`, which closes auctions
and is not modelled here; the `print` of `bidname`; `set_resource_limits` of `newaccount`.
-/

namespace Eos.EosioSystem

open Machine Table
open Token (Asset)

/-- `name_bid` -/
structure NameBid where
  newname : UInt64
  highBidder : UInt64
  /-- negative once the auction is closed and waits to be claimed -/
  highBid : Int
  deriving DecidableEq, Repr

def namesAccount : UInt64 := accountName "eosio.names"

/-- `_self` of the system contract -/
def systemAccount : UInt64 := accountName "eosio"

/-- `eosio::name_suffix` on an `account_name` -/
def nameSuffix (n : UInt64) : UInt64 := UInt64.ofNat (Eosiolib.nameSuffix n.toNat)

/-- `(name{n}).to_string()` -/
def nameString (n : UInt64) : String := String.ofList (Eosiolib.toString n.toNat)

/-- `system_contract::bidname` -/
def bidname (env : SystemEnv) (st : SystemState) (bids : List NameBid) (bidder newname : UInt64)
    (bid : Asset) : Except String (SystemState × List NameBid) := do
  requireAuth env bidder
  assert (nameSuffix newname == newname) "you can only bid on top-level suffix"
  assert (newname != 0) "the empty name is not a valid account name to bid on"
  assert (newname &&& 0xF == 0) "13 character names are not valid account names to bid on"
  assert (newname &&& 0x1F0 == 0)
    "accounts with 12 character names and no dots can be created without bidding required"
  assert (!env.isAccount newname) "account already exists"
  assert (bid.symbol == zeroAsset.symbol) "asset must be system token"
  assert (decide (bid.amount > 0)) "insufficient bid"
  let st ← sendTransfer env st bidder bidder namesAccount bid ("bid name " ++ nameString newname)
  match findKey NameBid.newname newname bids with
  | none =>
    let bids ← Icp.emplace (·.newname.toNat) ⟨newname, bidder, bid.amount⟩ bids
    pure (st, bids)
  | some (i, current) =>
    assert (decide (current.highBid > 0)) "this auction has already closed"
    assert (decide (bid.amount - current.highBid > current.highBid.tdiv 10))
      "must increase bid by 10%"
    assert (current.highBidder != bidder) "account is already highest bidder"
    let refund ← coreAsset current.highBid
    let st ← sendTransfer env st namesAccount namesAccount current.highBidder refund
      ("refund bid on name " ++ nameString newname)
    pure (st, bids.set i { current with highBidder := bidder, highBid := bid.amount })

/-- one round of the loop of `native::newaccount`: `has_dot |= !(tmp & 0x1f); tmp >>= 5` -/
def hasDotStep (st : Bool × UInt64) (_ : Nat) : Bool × UInt64 :=
  (st.1 || st.2 &&& 0x1f == 0, st.2 >>> 5)

/-- the loop of `native::newaccount` over the first twelve symbols, from `newact >> 4` up -/
def hasDot (newact : UInt64) : Bool := ((List.range 12).foldl hasDotStep (false, newact >>> 4)).1

/-- `native::newaccount` of eosio.system -/
def newaccount (st : SystemState) (bids : List NameBid) (creator newact : UInt64) :
    Except String (SystemState × List NameBid) := do
  let bids ← if creator != systemAccount && hasDot newact then
      let suffix := nameSuffix newact
      if suffix == newact then do
        let (i, current) ← getKey NameBid.newname newact bids "no active bid for name"
        assert (current.highBidder == creator) "only highest bidder can claim"
        assert (decide (current.highBid < 0)) "auction for name is not closed yet"
        pure (bids.eraseIdx i)
      else do
        assert (creator == suffix) "only suffix may create this account"
        pure bids
    else pure bids
  let userres ← Icp.emplace (·.owner.toNat)
    { owner := newact, netWeight := zeroAsset, cpuWeight := zeroAsset } st.userres
  pure ({ st with userres }, bids)

/-! ## The loop of `newaccount` -/

theorem hasDot_loop (x : UInt64) : ∀ k,
    ((List.range k).foldl hasDotStep (false, x >>> 4)).1 =
        decide (∃ i < k, (x.toNat >>> (4 + 5 * i)) &&& 0x1f = 0) ∧
      ((List.range k).foldl hasDotStep (false, x >>> 4)).2.toNat = x.toNat >>> (4 + 5 * k)
  | 0 => by simp
  | k + 1 => by
    obtain ⟨h1, h2⟩ := hasDot_loop x k
    rw [List.range_succ, List.foldl_append, List.foldl_cons, List.foldl_nil]
    generalize (List.range k).foldl hasDotStep (false, x >>> 4) = st at h1 h2 ⊢
    obtain ⟨seen, tmp⟩ := st
    dsimp only at h1 h2
    refine ⟨?_, ?_⟩
    · -- the symbol read in round `k` is the one `4 + 5 * k` bits up
      have hsym : (tmp &&& 0x1f == 0) = decide ((x.toNat >>> (4 + 5 * k)) &&& 0x1f = 0) := by
        rw [← h2]
        apply Bool.eq_iff_iff.mpr
        rw [beq_iff_eq, decide_eq_true_iff, ← UInt64.toNat_inj, UInt64.toNat_and]
        rfl
      simp only [hasDotStep, h1, hsym]
      rw [← Bool.decide_or]
      apply decide_eq_decide.mpr
      constructor
      · rintro (⟨i, hi, h⟩ | h)
        · exact ⟨i, by omega, h⟩
        · exact ⟨k, by omega, h⟩
      · rintro ⟨i, hi, h⟩
        rcases Nat.lt_succ_iff_lt_or_eq.mp hi with hi | rfl
        · exact .inl ⟨i, hi, h⟩
        · exact .inr h
    · rw [hasDotStep, UInt64.toNat_shiftRight, h2, show (5 : UInt64).toNat % 64 = 5 from rfl,
        ← Nat.shiftRight_add]
      congr 1

theorem hasDot_iff (x : UInt64) : hasDot x = true ↔ ∃ j < 12, Name.symbol x.toNat j = 0 := by
  rw [hasDot, (hasDot_loop x 12).1, decide_eq_true_iff]
  constructor
  · rintro ⟨i, hi, h⟩
    refine ⟨11 - i, by omega, ?_⟩
    rw [Name.symbol, Name.lowBit, Name.width, if_pos (by omega), if_pos (by omega),
      show 59 - 5 * (11 - i) = 4 + 5 * i by omega]
    exact h
  · rintro ⟨j, hj, h⟩
    refine ⟨11 - j, by omega, ?_⟩
    rw [Name.symbol, Name.lowBit, Name.width, if_pos hj, if_pos hj] at h
    rw [show 4 + 5 * (11 - j) = 59 - 5 * j by omega]
    exact h

theorem hasDot_of_dot_mem {x : UInt64} (h : '.' ∈ Eosiolib.toString x.toNat) : hasDot x = true := by
  rw [hasDot_iff]
  by_cases h0 : x.toNat = 0
  · exact ⟨0, by decide, by rw [h0]; rfl⟩
  rw [Eosiolib.toString_eq_of_ne_zero x.toNat_lt h0] at h
  obtain ⟨j, hj, hdot⟩ := List.getElem_of_mem h
  have hj13 : j < 13 := lt_of_lt_of_le hj (Name.length_toString_le _)
  have hchar : charmap.getD (Name.symbol x.toNat j) '.' = '.' := by
    have hget : (Name.toString x.toNat)[j]? = (Name.nameChars x.toNat)[j]? :=
      Trim.getElem?_rdropWhile hj
    rw [List.getElem?_eq_getElem hj, hdot, Name.getElem?_nameChars _ hj13] at hget
    exact (Option.some.inj hget).symm
  refine ⟨j, ?_, (Name.charmap_eq_dot_iff _ (Name.symbol_lt _ _)).mp hchar⟩
  by_contra h12
  have hlen : (Name.toString x.toNat).length = 13 := by
    have := Name.length_toString_le x.toNat
    omega
  have hlast := Eosiolib.toString_last x.toNat '.'
  rw [hlen, show 13 - 1 = j by omega, List.getElem?_eq_getElem hj, hdot] at hlast
  exact hlast rfl rfl

/-! ## What the two actions allow -/

theorem bidname_suffix {env : SystemEnv} {st : SystemState} {bids : List NameBid}
    {bidder newname : UInt64} {bid : Asset} {r : SystemState × List NameBid}
    (h : bidname env st bids bidder newname bid = .ok r) : nameSuffix newname = newname := by
  obtain ⟨-, -, h⟩ := bind_eq_ok.mp h
  exact beq_iff_eq.mp (assert_bind_eq_ok.mp h).1

theorem newaccount_naming {st : SystemState} {bids : List NameBid}
    {creator x : UInt64} {r : SystemState × List NameBid}
    (h : newaccount st bids creator x = .ok r) (hcreator : creator ≠ systemAccount)
    (hdot : hasDot x = true) :
    (nameSuffix x ≠ x ∧ creator = nameSuffix x) ∨
      (nameSuffix x = x ∧ ∃ b ∈ bids, b.newname = x ∧ b.highBidder = creator ∧ b.highBid < 0) := by
  unfold newaccount at h
  dsimp only at h
  rw [if_pos (by simp [hcreator, hdot])] at h
  by_cases hsuffix : nameSuffix x = x
  · -- a name that is its own suffix: the winner of its closed auction
    rw [if_pos (beq_iff_eq.mpr hsuffix)] at h
    obtain ⟨⟨i, current⟩, hget, hrest⟩ := bind_eq_ok.mp h
    obtain ⟨hbidder, hrest⟩ := assert_bind_eq_ok.mp hrest
    obtain ⟨hclosed, -⟩ := assert_bind_eq_ok.mp hrest
    obtain ⟨hi, hkey⟩ := getKey_eq_ok hget
    exact .inr ⟨hsuffix, current, List.mem_of_getElem? hi, hkey, beq_iff_eq.mp hbidder,
      of_decide_eq_true hclosed⟩
  · rw [if_neg (fun h => hsuffix (beq_iff_eq.mp h))] at h
    exact .inl ⟨hsuffix, beq_iff_eq.mp (assert_bind_eq_ok.mp h).1⟩

/-- **premium names**: `name_suffix` gives the name of the part of a name's string after its last
dot that a non-dot follows, and the name itself without one; so `newaccount` lets a creator other
than `eosio` create a dotted name only as its suffix or as the winner of its closed auction, and
`bidname` takes bids only on names that are their own suffix -/
theorem name_suffix_guards_premium_names :
    (∀ n : UInt64, Eosiolib.IsTopLevelSuffix n.toNat (Eosiolib.nameSuffix n.toNat)) ∧
    (∀ st bids creator x r, newaccount st bids creator x = .ok r → creator ≠ systemAccount →
      '.' ∈ Eosiolib.toString x.toNat →
      creator = nameSuffix x ∨ ∃ b ∈ bids, b.newname = x ∧ b.highBidder = creator ∧ b.highBid < 0) ∧
    (∀ env st bids bidder newname bid r, bidname env st bids bidder newname bid = .ok r →
      nameSuffix newname = newname) := by
  refine ⟨fun n => Eosiolib.nameSuffix_spec n.toNat_lt, ?_, fun _ _ _ _ _ _ _ h => bidname_suffix h⟩
  intro st bids creator x r h hcreator hdot
  rcases newaccount_naming h hcreator (hasDot_of_dot_mem hdot) with ⟨-, h⟩ | ⟨-, h⟩
  · exact .inl h
  · exact .inr h

end Eos.EosioSystem
