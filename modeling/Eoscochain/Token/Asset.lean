import Mathlib
import Eoscochain.Lib.Assert

/-!
# Symbols and assets of the contract library

eosiolib symbol.hpp and asset.hpp, as the icp.token contract uses them.  A symbol is a
`uint64_t`: the precision in the low byte, up to seven upper-case letters above it.  An asset
is an `int64_t` amount of a symbol; `+=` and `-=` check the symbol and keep the magnitude below
`2^62`; a comparison checks the symbol too.  The amounts are `Int`: every stored amount is within `2^62`, and then an `int64_t` sum
that wraps is also one the checks reject.
-/

namespace Eos.Token

open Machine

/-- `symbol_type::name`: the letters, without the precision -/
def symbolName (sym : UInt64) : UInt64 := sym >>> 8

/-- the bytes above the one just read are zero, `n` of them: the `do … while` of
`is_valid_symbol` -/
def zeroBytes : Nat → Nat → Bool
  | 0, _ => true
  | n + 1, v => (v / 256) % 256 == 0 && zeroBytes n (v / 256)

/-- the `for` loop of `is_valid_symbol` with `k` letters left to read -/
def symbolLoop : Nat → Nat → Bool
  | 0, _ => true
  | k + 1, sym =>
    let c := sym % 256
    if !(65 ≤ c && c ≤ 90) then false
    else if (sym / 256) % 256 == 0 then zeroBytes (k + 1) (sym / 256)
    else symbolLoop k (sym / 256)

/-- `is_valid_symbol`: one to seven upper-case letters, then zero bytes -/
def isValidSymbol (sym : UInt64) : Bool := symbolLoop 7 (sym.toNat / 256)

example : isValidSymbol (4 + 83 * 256 + 89 * 256 ^ 2 + 83 * 256 ^ 3) = true := by decide
example : isValidSymbol (4 + 83 * 256 + 83 * 256 ^ 3) = false := by decide

/-- `asset` -/
structure Asset where
  amount : Int
  symbol : UInt64
  deriving DecidableEq, Repr

/-- `asset::max_amount` -/
def maxAmount : Int := 2 ^ 62 - 1

namespace Asset

def isAmountWithinRange (a : Asset) : Bool := -maxAmount ≤ a.amount && a.amount ≤ maxAmount

def isValid (a : Asset) : Bool := a.isAmountWithinRange && isValidSymbol a.symbol

/-- `asset::operator+=` -/
def add (a b : Asset) : Except String Asset := do
  assert (b.symbol == a.symbol) "attempt to add asset with different symbol"
  let amount := a.amount + b.amount
  assert (-maxAmount ≤ amount) "addition underflow"
  assert (amount ≤ maxAmount) "addition overflow"
  pure { a with amount := amount }

/-- `asset::operator-=` -/
def sub (a b : Asset) : Except String Asset := do
  assert (b.symbol == a.symbol) "attempt to subtract asset with different symbol"
  let amount := a.amount - b.amount
  assert (-maxAmount ≤ amount) "subtraction underflow"
  assert (amount ≤ maxAmount) "subtraction overflow"
  pure { a with amount := amount }

theorem add_eq_ok {a b c : Asset} (h : a.add b = .ok c) :
    b.symbol = a.symbol ∧ c = { a with amount := a.amount + b.amount } := by
  unfold add at h
  obtain ⟨hsym, h⟩ := assert_bind_eq_ok.mp h
  obtain ⟨-, h⟩ := assert_bind_eq_ok.mp h
  obtain ⟨-, h⟩ := assert_bind_eq_ok.mp h
  cases h
  exact ⟨by simpa using hsym, rfl⟩

theorem sub_eq_ok {a b c : Asset} (h : a.sub b = .ok c) :
    b.symbol = a.symbol ∧ c = { a with amount := a.amount - b.amount } := by
  unfold sub at h
  obtain ⟨hsym, h⟩ := assert_bind_eq_ok.mp h
  obtain ⟨-, h⟩ := assert_bind_eq_ok.mp h
  obtain ⟨-, h⟩ := assert_bind_eq_ok.mp h
  cases h
  exact ⟨by simpa using hsym, rfl⟩

/-- `asset::operator-()`: the amount negated, unchecked -/
def neg (a : Asset) : Asset := { a with amount := -a.amount }

/-- a comparison operator of `asset`: only assets of one symbol compare -/
def compareWith (rel : Int → Int → Bool) (a b : Asset) : Except String Bool := do
  assert (a.symbol == b.symbol) "comparison of assets with different symbols is not allowed"
  pure (rel a.amount b.amount)

/-- `operator==` -/
def eq (a b : Asset) : Except String Bool := compareWith (fun x y => decide (x = y)) a b

/-- `operator<` -/
def lt (a b : Asset) : Except String Bool := compareWith (fun x y => decide (x < y)) a b

/-- `operator<=` -/
def le (a b : Asset) : Except String Bool := compareWith (fun x y => decide (x ≤ y)) a b

theorem compareWith_eq_ok {rel : Int → Int → Bool} {a b : Asset} {r : Bool}
    (h : compareWith rel a b = .ok r) : a.symbol = b.symbol ∧ r = rel a.amount b.amount := by
  unfold compareWith at h
  obtain ⟨hsym, h⟩ := assert_bind_eq_ok.mp h
  cases h
  exact ⟨by simpa using hsym, rfl⟩

end Asset

/-- `token::account_asset_key`: a `uint128_t`, the account above the symbol's name -/
def accountAssetKey (account : UInt64) (balance : Asset) : Nat :=
  (account.toNat <<< 64) + (symbolName balance.symbol).toNat

theorem accountAssetKey_inj {a a' : UInt64} {x x' : Asset}
    (h : accountAssetKey a x = accountAssetKey a' x') :
    a = a' ∧ symbolName x.symbol = symbolName x'.symbol := by
  unfold accountAssetKey at h
  rw [Nat.shiftLeft_eq, Nat.shiftLeft_eq] at h
  have hn := (symbolName x.symbol).toNat_lt
  have hn' := (symbolName x'.symbol).toNat_lt
  have hmod : (symbolName x.symbol).toNat = (symbolName x'.symbol).toNat := by omega
  have hdiv : a.toNat = a'.toNat := by omega
  exact ⟨UInt64.toNat_inj.mp hdiv, UInt64.toNat_inj.mp hmod⟩

end Eos.Token
