import Mathlib
import Eoscochain.Lib.Assert
import Eoscochain.Lib.Bits
import Eoscochain.Lib.Decimal

/-!
# Symbols and assets of the chain

libraries/chain symbol.hpp and asset.cpp.  A symbol is a `uint64_t`: the number of decimals in
the low byte, the letters of its name in the bytes above.  An asset is an amount of a symbol.
`asset::to_string` writes the amount with as many decimals as the symbol has, a space and the
name; `asset::from_string` takes the precision from the number of digits after the point, reads
the symbol from that precision and the name, and rebuilds the amount with checked arithmetic.

The string helpers of `fc` are not in the sources: `Fc.toString` and `Fc.toInt64` are the
ordinary base-ten conversions (`Decimal.ofInt`, and `Decimal.toInt?` within `int64_t`, as
`boost::lexical_cast` reads), and `Fc.trim` drops the white space of the C locale at both ends.

* `Symbol.name`, `Symbol.valid`, `stringToSymbol`, `Symbol.fromString`   the symbol;
* `Asset.toString`, `Asset.fromString`   the asset's text;
* `Symbol.fromString_toString`   a valid symbol with a name is read back from its text;
* `Asset.amountText`, `Asset.toString_eq`   the text `to_string` writes;
* `Asset.asset_text_round_trip`   and `from_string` reads the asset back from it.

Amounts are `Int`.  For every `int64_t` amount but `INT64_MIN`, whose `std::abs` is undefined,
`to_string` divides non-negative values, as here.  The arithmetic and the comparisons of `asset`
and `extended_symbol` are left out: nothing modelled here uses them.
-/

namespace Eos.Chain

open Machine

namespace Fc

/-- `isspace` in the C locale -/
def isSpace (c : Char) : Bool :=
  c == ' ' || c == '\t' || c == '\n' || c == '\x0b' || c == '\x0c' || c == '\r'

/-- `fc::trim`: without the white space at either end -/
def trim (s : List Char) : List Char := (s.dropWhile isSpace).rdropWhile isSpace

/-- `fc::to_string` of an `int64_t` -/
def toString (v : Int) : List Char := Decimal.ofInt v

/-- the values of `int64_t` -/
def InInt64 (v : Int) : Bool := -2 ^ 63 ≤ v && v < 2 ^ 63

/-- `fc::to_int64`: a base-ten text with an optional sign, within `int64_t` -/
def toInt64 (s : List Char) : Except String Int :=
  match Decimal.toInt? s with
  | some v => if InInt64 v then .ok v else .error "bad lexical cast"
  | none => .error "bad lexical cast"

/-- `safe<int64_t>::operator*=` -/
def safeMul (a b : Int) : Except String Int := do
  assert (InInt64 (a * b)) "overflow"
  pure (a * b)

/-- `safe<int64_t>::operator+=` -/
def safeAdd (a b : Int) : Except String Int := do
  assert (InInt64 (a + b)) "overflow"
  pure (a + b)

theorem toNat_le_of_isSpace {c : Char} (h : isSpace c = true) : c.toNat ≤ 32 := by
  simp only [isSpace, Bool.or_eq_true, beq_iff_eq] at h
  rcases h with ((((h | h) | h) | h) | h) | h <;> subst h <;> decide

theorem isSpace_eq_false {c : Char} (h : 32 < c.toNat) : isSpace c = false :=
  Bool.eq_false_iff.mpr fun hs => absurd (toNat_le_of_isSpace hs) (by omega)

theorem trim_eq_self {s : List Char} (hhead : ∀ c ∈ s.head?, 32 < c.toNat)
    (hlast : ∀ c ∈ s.getLast?, 32 < c.toNat) : trim s = s := by
  have hd : s.dropWhile isSpace = s := List.dropWhile_eq_self_iff.mpr fun hl => by
    have h0 : s[0] ∈ s.head? := by
      rw [List.head?_eq_getElem?, List.getElem?_eq_getElem hl]
      rfl
    rw [isSpace_eq_false (hhead _ h0)]
    exact Bool.false_ne_true
  have hr : s.rdropWhile isSpace = s := List.rdropWhile_eq_self_iff.mpr fun hl => by
    rw [isSpace_eq_false (hlast _ (List.getLast?_eq_some_getLast hl))]
    exact Bool.false_ne_true
  rw [trim, hd, hr]

theorem inInt64_iff {v : Int} : InInt64 v = true ↔ -2 ^ 63 ≤ v ∧ v < 2 ^ 63 := by
  rw [InInt64, Bool.and_eq_true, decide_eq_true_iff, decide_eq_true_iff]

theorem toInt64_of_toInt? {s : List Char} {v : Int} (h : Decimal.toInt? s = some v)
    (hv : -2 ^ 63 ≤ v ∧ v < 2 ^ 63) : toInt64 s = .ok v := by
  rw [toInt64, h]
  exact if_pos (inInt64_iff.mpr hv)

theorem safeMul_eq {a b : Int} (h : -2 ^ 63 ≤ a * b ∧ a * b < 2 ^ 63) :
    safeMul a b = .ok (a * b) :=
  assert_bind_eq_ok.mpr ⟨inInt64_iff.mpr h, rfl⟩

theorem safeAdd_eq {a b : Int} (h : -2 ^ 63 ≤ a + b ∧ a + b < 2 ^ 63) :
    safeAdd a b = .ok (a + b) :=
  assert_bind_eq_ok.mpr ⟨inInt64_iff.mpr h, rfl⟩
end Fc

/-- `symbol::max_precision` -/
def maxPrecision : Nat := 18

/-- `symbol` -/
structure Symbol where
  value : UInt64
  deriving DecidableEq, Repr

/-- the `for` loop of `string_to_symbol` from character `i` -/
def stringToSymbolLoop (i : Nat) (result : UInt64) : List Char → Except String UInt64
  | [] => pure result
  | c :: cs => do
    -- all characters must be upper case alphabets
    assert ('A' ≤ c && c ≤ 'Z') "invalid character in symbol name"
    -- a shift by 64 or more (an eighth letter) is undefined in C++; `UInt64` takes it mod 64
    stringToSymbolLoop (i + 1) (result ||| UInt64.ofNat c.toNat <<< UInt64.ofNat (8 * (i + 1))) cs

/-- `string_to_symbol(precision, str)`: the characters of `str` before the terminator -/
def stringToSymbol (precision : Nat) (str : List Char) : Except String UInt64 := do
  let result ← stringToSymbolLoop 0 0 (str.takeWhile (· ≠ '\x00'))
  pure (result ||| UInt64.ofNat precision)

namespace Symbol

/-- `symbol::decimals` -/
def decimals (s : Symbol) : Nat := (s.value &&& 0xFF).toNat

/-- `symbol::precision`: the loop `p10 *= 10` runs `decimals` times -/
def precision (s : Symbol) : Except String Nat := do
  assert (s.decimals ≤ maxPrecision) "precision ${p} should be <= 18"
  pure (10 ^ s.decimals)

/-- the `while (v > 0)` loop of `symbol::name`: a character for each byte, the low one first -/
def nameLoop : Nat → Nat → List Char
  | 0, _ => []
  | fuel + 1, v => if v > 0 then Char.ofNat (v % 256) :: nameLoop fuel (v / 256) else []

/-- `symbol::name`: after `v >>= 8` seven bytes at most are left -/
def name (s : Symbol) : List Char := nameLoop 7 (s.value.toNat / 256)

/-- `symbol::valid_name` -/
def validName (name : List Char) : Bool := name.all fun c => 'A' ≤ c && c ≤ 'Z'

/-- `symbol::valid` -/
def valid (s : Symbol) : Bool := s.decimals ≤ maxPrecision && validName s.name

/-- `symbol(uint64_t v)` -/
def ofValue (v : UInt64) : Except String Symbol := do
  assert (Symbol.valid ⟨v⟩) "invalid symbol: ${name}"
  pure ⟨v⟩

/-- `symbol::operator string`: the decimals, a comma and the name -/
def toString (s : Symbol) : List Char := Nat.toDigits 10 s.decimals ++ ',' :: s.name

/-- `symbol::from_string` -/
def fromString (text : List Char) : Except String Symbol := do
  let s := Fc.trim text
  assert (!s.isEmpty) "creating symbol from empty string"
  match s.idxOf? ',' with
  | none => throw "missing comma in symbol"
  | some commaPos =>
    -- `uint8_t p = fc::to_int64(prec_part)`
    let p := (← Fc.toInt64 (s.take commaPos)) % 256
    assert (p ≤ maxPrecision) "precision ${p} should be <= 18"
    let v ← stringToSymbol p.toNat (s.drop (commaPos + 1))
    ofValue v

end Symbol

/-! ## Reading back a symbol -/

theorem isLetter_iff {c : Char} :
    ('A' ≤ c && c ≤ 'Z') = true ↔ 65 ≤ c.toNat ∧ c.toNat ≤ 90 := by
  simp [Char.le_def, UInt32.le_iff_toNat_le]

theorem toNat_ofNat_of_lt {b : Nat} (h : b < 256) : (Char.ofNat b).toNat = b := by
  have hv : b.isValidChar := Or.inl (by omega)
  rw [Char.ofNat, dif_pos hv]
  rfl

theorem ofNat_shiftLeft {n k : Nat} (hk : k < 64) :
    UInt64.ofNat n <<< UInt64.ofNat k = UInt64.ofNat (n <<< k) := by
  apply UInt64.toNat_inj.mp
  rw [UInt64.toNat_shiftLeft, UInt64.toNat_ofNat', UInt64.toNat_ofNat', UInt64.toNat_ofNat',
    Nat.mod_eq_of_lt (show k < 2 ^ 64 by omega), Nat.mod_eq_of_lt hk, Nat.shiftLeft_eq,
    Nat.shiftLeft_eq, Nat.mod_mul_mod]

namespace Symbol

theorem valid_iff {s : Symbol} :
    s.valid = true ↔ s.decimals ≤ maxPrecision ∧ validName s.name = true := by
  rw [valid, Bool.and_eq_true, decide_eq_true_iff]

theorem decimals_eq (s : Symbol) : s.decimals = s.value.toNat % 256 := by
  rw [decimals, UInt64.toNat_and]
  exact Nat.and_two_pow_sub_one_eq_mod _ 8

theorem letter_of_mem {name : List Char} {c : Char} (hv : validName name = true) (hc : c ∈ name) :
    65 ≤ c.toNat ∧ c.toNat ≤ 90 :=
  isLetter_iff.mp (List.all_eq_true.mp hv c hc)

theorem precision_eq {s : Symbol} (hd : s.decimals ≤ maxPrecision) :
    s.precision = .ok (10 ^ s.decimals) :=
  assert_bind_eq_ok.mpr ⟨decide_eq_true hd, rfl⟩

theorem length_nameLoop_le : ∀ fuel v, (nameLoop fuel v).length ≤ fuel
  | 0, _ => Nat.le_refl 0
  | fuel + 1, v => by
    rw [nameLoop]
    split
    · exact Nat.succ_le_succ (length_nameLoop_le fuel (v / 256))
    · exact Nat.zero_le _

theorem lt_toNat_of_mem_name {s : Symbol} {c : Char} (hv : validName s.name = true)
    (hc : c ∈ s.name) : 32 < c.toNat := by
  have := (letter_of_mem hv hc).1
  omega

theorem trim_name {s : Symbol} (hv : validName s.name = true) : Fc.trim s.name = s.name :=
  Fc.trim_eq_self (fun _ hc => lt_toNat_of_mem_name hv (List.mem_of_mem_head? hc))
    (fun _ hc => lt_toNat_of_mem_name hv (List.mem_of_getLast? hc))

theorem length_name_le (s : Symbol) : s.name.length ≤ 7 := length_nameLoop_le 7 _

theorem stringToSymbolLoop_nameLoop : ∀ (fuel i : Nat) (r : UInt64) (w : Nat), w < 256 ^ fuel →
    i + fuel ≤ 7 → validName (nameLoop fuel w) = true →
    stringToSymbolLoop i r (nameLoop fuel w) = .ok (r ||| UInt64.ofNat (w <<< (8 * (i + 1))))
  | 0, i, r, w, hw, _, _ => by
    obtain rfl : w = 0 := by simpa using hw
    simp [nameLoop, stringToSymbolLoop]
    rfl
  | fuel + 1, i, r, w, hw, hi, hv => by
    rcases Nat.eq_zero_or_pos w with rfl | hpos
    · simp [nameLoop, stringToSymbolLoop]
      rfl
    rw [nameLoop, if_pos hpos] at hv ⊢
    rw [validName, List.all_cons, Bool.and_eq_true] at hv
    obtain ⟨hc, hrest⟩ := hv
    have hw' : w / 256 < 256 ^ fuel := by
      rw [Nat.pow_succ] at hw
      omega
    have hbyte : (w % 256) <<< (8 * (i + 1)) ||| (w / 256) <<< (8 * (i + 1) + 8) =
        w <<< (8 * (i + 1)) := Bits.mod_or_div_shiftLeft w 8 (8 * (i + 1))
    rw [stringToSymbolLoop]
    refine assert_bind_eq_ok.mpr ⟨hc, ?_⟩
    rw [stringToSymbolLoop_nameLoop fuel (i + 1) _ (w / 256) hw' (by omega) hrest,
      toNat_ofNat_of_lt (Nat.mod_lt w (by decide)), ofNat_shiftLeft (by omega), UInt64.or_assoc,
      ← UInt64.ofNat_or, show 8 * (i + 1 + 1) = 8 * (i + 1) + 8 by omega, hbyte]

theorem stringToSymbol_name {s : Symbol} (hv : validName s.name = true) :
    stringToSymbol s.decimals s.name = .ok s.value := by
  have hnul : s.name.takeWhile (· ≠ '\x00') = s.name :=
    List.takeWhile_eq_self_iff.mpr fun c hc => by
      have hl := (letter_of_mem hv hc).1
      refine decide_eq_true fun h => ?_
      rw [h] at hl
      exact absurd hl (by decide)
  have hw : s.value.toNat / 256 < 256 ^ 7 := by
    have := s.value.toNat_lt
    omega
  have hbyte : (s.value.toNat % 256) <<< 0 ||| (s.value.toNat / 256) <<< (0 + 8) =
      s.value.toNat <<< 0 := Bits.mod_or_div_shiftLeft _ 8 0
  simp only [Nat.shiftLeft_zero, Nat.zero_add] at hbyte
  rw [stringToSymbol, hnul, name, stringToSymbolLoop_nameLoop 7 0 0 _ hw (by omega) hv, ok_bind]
  refine congrArg Except.ok (UInt64.toNat_inj.mp ?_)
  rw [UInt64.zero_or, ← UInt64.ofNat_or, UInt64.toNat_ofNat', decimals_eq, Nat.or_comm, hbyte,
    Nat.mod_eq_of_lt s.value.toNat_lt]

theorem trim_toString {s : Symbol} (hv : validName s.name = true) (hn : s.name ≠ []) :
    Fc.trim s.toString = s.toString := by
  obtain ⟨c0, ds, hcd⟩ :=
    List.exists_cons_of_ne_nil (Nat.toDigits_ne_nil (b := 10) (n := s.decimals))
  have hdig := Decimal.isDigits_toDigits s.decimals
  apply Fc.trim_eq_self
  · intro c hc
    rw [toString, hcd, List.cons_append, List.head?_cons, Option.mem_some_iff] at hc
    subst hc
    have := Char.isDigit_iff_toNat.mp
      ((Decimal.isDigits_iff.mp hdig).2 _ (hcd ▸ List.mem_cons_self))
    simp only [Char.reduceToNat] at this
    omega
  · intro c hc
    exact lt_toNat_of_mem_name hv (Decimal.mem_of_getLast?_append_cons hn hc)

theorem fromString_toString {s : Symbol} (hv : s.valid = true) (hn : s.name ≠ []) :
    fromString s.toString = .ok s := by
  obtain ⟨hd, hname⟩ := valid_iff.mp hv
  have hdig := Decimal.isDigits_toDigits s.decimals
  have hne : (!s.toString.isEmpty) = true := by simp [toString]
  have hcomma : s.toString.idxOf? ',' = some (Nat.toDigits 10 s.decimals).length :=
    Decimal.idxOf?_append_cons (Decimal.not_mem_of_isDigits hdig rfl)
  have htake : s.toString.take (Nat.toDigits 10 s.decimals).length = Nat.toDigits 10 s.decimals :=
    List.take_left' rfl
  have hdrop : s.toString.drop ((Nat.toDigits 10 s.decimals).length + 1) = s.name :=
    Decimal.drop_append_cons _ _ _
  have hprec : Fc.toInt64 (Nat.toDigits 10 s.decimals) = .ok (s.decimals : Int) := by
    refine Fc.toInt64_of_toInt? (Decimal.toInt?_toDigits _) ⟨by omega, ?_⟩
    simp only [maxPrecision] at hd
    omega
  have hmod : ((s.decimals : Int) % 256).toNat = s.decimals := by
    simp only [maxPrecision] at hd
    omega
  unfold fromString
  simp only [trim_toString hname hn, hcomma]
  refine assert_bind_eq_ok.mpr ⟨hne, ?_⟩
  rw [htake, hprec, ok_bind, hmod, hdrop]
  refine assert_bind_eq_ok.mpr ⟨decide_eq_true (by omega), ?_⟩
  rw [stringToSymbol_name hname, ok_bind, ofValue]
  exact assert_bind_eq_ok.mpr ⟨hv, rfl⟩

end Symbol

/-- `asset::max_amount` -/
def maxAmount : Int := 2 ^ 62 - 1

/-- `asset` -/
structure Asset where
  amount : Int
  sym : Symbol
  deriving DecidableEq, Repr

namespace Asset

def isAmountWithinRange (a : Asset) : Bool := -maxAmount ≤ a.amount && a.amount ≤ maxAmount

/-- `asset(a, id)` -/
def make (amount : Int) (sym : Symbol) : Except String Asset := do
  assert (isAmountWithinRange ⟨amount, sym⟩) "magnitude of asset amount must be less than 2^62"
  assert sym.valid "invalid symbol"
  pure ⟨amount, sym⟩

/-- `asset::to_string` -/
def toString (a : Asset) : Except String (List Char) := do
  let sign := if a.amount < 0 then ['-'] else []
  let absAmount := a.amount.natAbs
  let p ← a.sym.precision
  let result := Fc.toString ↑(absAmount / p)
  let result :=
    if a.sym.decimals ≠ 0 then
      let fract := absAmount % p
      result ++ '.' :: (Fc.toString ↑(p + fract)).drop 1
    else result
  pure (sign ++ result ++ ' ' :: a.sym.name)

/-- the check of `from_string` that a point is followed by a fraction -/
def checkFraction (amountStr : List Char) : Option Nat → Except String Unit
  | some dotPos =>
    assert (dotPos ≠ amountStr.length - 1) "Missing decimal fraction after decimal point"
  | none => pure ()

/-- the precision of `from_string`: the number of digits after the point -/
def precisionDigitStr (amountStr : List Char) : Option Nat → List Char
  | some dotPos => Nat.toDigits 10 (amountStr.length - dotPos - 1)
  | none => ['0']

/-- the integer and fractional parts of `from_string`; the fraction takes the sign of the
text -/
def parseAmount (amountStr : List Char) : Option Nat → Except String (Int × Int)
  | some dotPos => do
    let intPart ← Fc.toInt64 (amountStr.take dotPos)
    let fractPart ← Fc.toInt64 (amountStr.drop (dotPos + 1))
    let fractPart ←
      if amountStr.getD 0 '\x00' = '-' then Fc.safeMul fractPart (-1) else pure fractPart
    pure (intPart, fractPart)
  | none => do
    let intPart ← Fc.toInt64 amountStr
    pure (intPart, 0)

/-- `asset::from_string` -/
def fromString (text : List Char) : Except String Asset := do
  let s := Fc.trim text
  -- find space in order to split amount and symbol
  match s.idxOf? ' ' with
  | none => throw "Asset's amount and symbol should be separated with space"
  | some spacePos =>
    let symbolStr := Fc.trim (s.drop (spacePos + 1))
    let amountStr := s.take spacePos
    let dotPos := amountStr.idxOf? '.'
    checkFraction amountStr dotPos
    let sym ← Symbol.fromString (precisionDigitStr amountStr dotPos ++ ',' :: symbolStr)
    let (intPart, fractPart) ← parseAmount amountStr dotPos
    let p ← sym.precision
    let amount ← Fc.safeMul intPart p
    let amount ← Fc.safeAdd amount fractPart
    make amount sym

/-! ## Reading back an asset -/

/-- the sign and the integer part `q` of the amount's text -/
def intText (neg : Bool) (q : Nat) : List Char := (if neg then ['-'] else []) ++ Nat.toDigits 10 q

/-- the amount as `to_string` writes it: the sign, the integer part `q`, and for `d` decimals
the point and the fraction `f` padded to `d` digits -/
def amountText (neg : Bool) (q d f : Nat) : List Char :=
  intText neg q ++ if d ≠ 0 then '.' :: (Nat.toDigits 10 (10 ^ d + f)).drop 1 else []

theorem toString_eq {a : Asset} (hd : a.sym.decimals ≤ maxPrecision) :
    a.toString = .ok (amountText (decide (a.amount < 0)) (a.amount.natAbs / 10 ^ a.sym.decimals)
      a.sym.decimals (a.amount.natAbs % 10 ^ a.sym.decimals) ++ ' ' :: a.sym.name) := by
  rw [toString, Symbol.precision_eq hd, ok_bind]
  simp only [Fc.toString, Decimal.ofInt_natCast, amountText, intText, decide_eq_true_eq]
  refine congrArg Except.ok ?_
  by_cases hz : a.sym.decimals = 0
  · simp only [hz, ne_eq, not_true_eq_false, if_false, List.append_nil]
  · simp only [ne_eq, hz, not_false_eq_true, if_true, List.append_assoc]

theorem make_eq {amount : Int} {sym : Symbol} (hr : -maxAmount ≤ amount ∧ amount ≤ maxAmount)
    (hv : sym.valid = true) : make amount sym = .ok ⟨amount, sym⟩ := by
  rw [make]
  refine assert_bind_eq_ok.mpr ⟨?_, assert_bind_eq_ok.mpr ⟨hv, rfl⟩⟩
  rw [isAmountWithinRange, Bool.and_eq_true, decide_eq_true_iff, decide_eq_true_iff]
  exact hr

section Text

variable {neg : Bool} {q d f : Nat}

theorem mem_amountText {c : Char} (h : c ∈ amountText neg q d f) :
    c = '-' ∨ c = '.' ∨ c.isDigit = true := by
  have hdig : ∀ n, c ∈ Nat.toDigits 10 n → c.isDigit = true :=
    fun n hc => Nat.isDigit_of_mem_toDigits (by decide) (by decide) hc
  rw [amountText, intText, List.mem_append, List.mem_append] at h
  rcases h with (hs | hq) | hfr
  · cases neg
    · cases hs
    · exact .inl (List.mem_singleton.mp hs)
  · exact .inr (.inr (hdig q hq))
  · split at hfr
    · rcases List.mem_cons.mp hfr with rfl | hm
      · exact .inr (.inl rfl)
      · exact .inr (.inr (hdig _ (List.mem_of_mem_drop hm)))
    · cases hfr

theorem lt_toNat_of_mem_amountText {c : Char} (h : c ∈ amountText neg q d f) : 32 < c.toNat := by
  rcases mem_amountText h with rfl | rfl | hc
  · decide
  · decide
  · have := Char.isDigit_iff_toNat.mp hc
    simp only [Char.reduceToNat] at this
    omega

theorem space_not_mem_amountText : ' ' ∉ amountText neg q d f :=
  fun h => absurd (lt_toNat_of_mem_amountText h) (by decide)

theorem dot_not_mem_intText : '.' ∉ intText neg q := by
  rw [intText, List.mem_append]
  rintro (hs | hq)
  · cases neg
    · cases hs
    · cases List.mem_singleton.mp hs
  · exact Decimal.not_mem_of_isDigits (Decimal.isDigits_toDigits q) rfl hq

theorem idxOf?_dot_of_ne_zero (hd : d ≠ 0) :
    (amountText neg q d f).idxOf? '.' =
      some (intText neg q).length := by
  rw [amountText, if_pos hd]
  exact Decimal.idxOf?_append_cons dot_not_mem_intText

theorem idxOf?_dot_of_zero : (amountText neg q 0 f).idxOf? '.' = none := by
  rw [amountText, if_neg (not_not.mpr rfl), List.append_nil]
  exact List.idxOf?_eq_none_iff.mpr dot_not_mem_intText

theorem length_amountText_of_ne_zero (hd : d ≠ 0) (hf : f < 10 ^ d) :
    (amountText neg q d f).length = (intText neg q).length + 1 + d := by
  rw [amountText, if_pos hd, List.length_append, List.length_cons,
    Decimal.length_drop_toDigits_pow_add hf]
  omega

theorem checkFraction_amountText (hf : f < 10 ^ d) :
    checkFraction (amountText neg q d f) ((amountText neg q d f).idxOf? '.') = .ok () := by
  by_cases hd : d = 0
  · subst hd
    rw [idxOf?_dot_of_zero]
    rfl
  · rw [idxOf?_dot_of_ne_zero hd, checkFraction, length_amountText_of_ne_zero hd hf]
    exact assert_of_true _ (decide_eq_true (by omega))

theorem precisionDigitStr_amountText (hf : f < 10 ^ d) :
    precisionDigitStr (amountText neg q d f) ((amountText neg q d f).idxOf? '.') =
      Nat.toDigits 10 d := by
  by_cases hd : d = 0
  · subst hd
    rw [idxOf?_dot_of_zero, precisionDigitStr, Nat.toDigits_zero]
  · rw [idxOf?_dot_of_ne_zero hd, precisionDigitStr, length_amountText_of_ne_zero hd hf]
    congr 1
    omega

theorem toInt64_sign_toDigits (hq : q < 2 ^ 63) :
    Fc.toInt64 (intText neg q) =
      .ok (if neg then -(q : Int) else q) := by
  cases neg
  · simp only [intText, Bool.false_eq_true, if_false, List.nil_append]
    exact Fc.toInt64_of_toInt? (Decimal.toInt?_toDigits q) ⟨by omega, by omega⟩
  · simp only [intText, if_true, List.singleton_append]
    exact Fc.toInt64_of_toInt? (Decimal.toInt?_neg_toDigits q) ⟨by omega, by omega⟩

theorem getD_amountText : ((amountText neg q d f).getD 0 '\x00' = '-') = (neg = true) := by
  cases neg
  · obtain ⟨c0, ds, hcd⟩ := List.exists_cons_of_ne_nil (Nat.toDigits_ne_nil (b := 10) (n := q))
    have hc0 : c0.isDigit = true :=
      (Decimal.isDigits_iff.mp (Decimal.isDigits_toDigits q)).2 c0 (hcd ▸ List.mem_cons_self)
    have hne : c0 ≠ '-' := by
      rintro rfl
      cases hc0
    simp only [amountText, intText, Bool.false_eq_true, if_false, List.nil_append, hcd,
      List.cons_append, List.getD_cons_zero, hne]
  · simp [amountText, intText]

theorem parseAmount_amountText (hf : f < 10 ^ d) (hq : q < 2 ^ 63) (hf63 : f < 2 ^ 63) :
    parseAmount (amountText neg q d f) ((amountText neg q d f).idxOf? '.') =
      .ok (if neg then -(q : Int) else q, if neg then -(f : Int) else f) := by
  by_cases hd : d = 0
  · -- no point: the fraction is zero
    subst hd
    obtain rfl : f = 0 := by simpa using hf
    have htext : amountText neg q 0 0 = intText neg q := by
      simp [amountText]
    rw [idxOf?_dot_of_zero, parseAmount, htext, toInt64_sign_toDigits hq, ok_bind]
    cases neg <;> rfl
  · have htake : (amountText neg q d f).take (intText neg q).length =
        intText neg q := by
      rw [amountText, if_pos hd]
      exact List.take_left' rfl
    have hdrop : (amountText neg q d f).drop ((intText neg q).length + 1) =
        (Nat.toDigits 10 (10 ^ d + f)).drop 1 := by
      rw [amountText, if_pos hd]
      exact Decimal.drop_append_cons _ _ _
    have hfract : Fc.toInt64 ((Nat.toDigits 10 (10 ^ d + f)).drop 1) = .ok (f : Int) :=
      Fc.toInt64_of_toInt? (Decimal.toInt?_of_ofDigits?
        (Decimal.ofDigits?_drop_toDigits_pow_add (Nat.pos_of_ne_zero hd) hf)) ⟨by omega, by omega⟩
    rw [idxOf?_dot_of_ne_zero hd, parseAmount, htake, toInt64_sign_toDigits hq, ok_bind, hdrop,
      hfract, ok_bind]
    simp only [getD_amountText]
    cases neg
    · rfl
    · rw [if_pos rfl, Fc.safeMul_eq ⟨by omega, by omega⟩, ok_bind, if_pos rfl, Int.mul_neg_one]
      rfl

end Text

theorem fromString_amountText {neg : Bool} {q f : Nat} {sym : Symbol} (hv : sym.valid = true)
    (hn : sym.name ≠ []) (hf : f < 10 ^ sym.decimals)
    (hrange : q * 10 ^ sym.decimals + f ≤ 2 ^ 62 - 1) :
    fromString (amountText neg q sym.decimals f ++ ' ' :: sym.name) =
      .ok ⟨if neg then -((q * 10 ^ sym.decimals + f : Nat) : Int)
        else ((q * 10 ^ sym.decimals + f : Nat) : Int), sym⟩ := by
  obtain ⟨hd, hname⟩ := Symbol.valid_iff.mp hv
  have htrim : Fc.trim (amountText neg q sym.decimals f ++ ' ' :: sym.name) =
      amountText neg q sym.decimals f ++ ' ' :: sym.name := by
    apply Fc.trim_eq_self
    · intro c hc
      have hne : amountText neg q sym.decimals f ≠ [] := by simp [amountText, intText]
      obtain ⟨x, xs, hx⟩ := List.exists_cons_of_ne_nil hne
      rw [hx, List.cons_append, List.head?_cons, Option.mem_some_iff] at hc
      subst hc
      exact lt_toNat_of_mem_amountText (hx ▸ List.mem_cons_self)
    · intro c hc
      exact Symbol.lt_toNat_of_mem_name hname (Decimal.mem_of_getLast?_append_cons hn hc)
  have hspace : (amountText neg q sym.decimals f ++ ' ' :: sym.name).idxOf? ' ' =
      some (amountText neg q sym.decimals f).length :=
    Decimal.idxOf?_append_cons space_not_mem_amountText
  have htake : (amountText neg q sym.decimals f ++ ' ' :: sym.name).take
      (amountText neg q sym.decimals f).length = amountText neg q sym.decimals f :=
    List.take_left' rfl
  have hsym : Symbol.fromString (Nat.toDigits 10 sym.decimals ++ ',' :: sym.name) = .ok sym :=
    Symbol.fromString_toString hv hn
  unfold fromString
  simp only [htrim, hspace, htake, Decimal.drop_append_cons, Symbol.trim_name hname]
  have hqP : q ≤ q * 10 ^ sym.decimals := Nat.le_mul_of_pos_right q (Nat.pow_pos (by decide))
  have hmul : (if neg then -(q : Int) else q) * ((10 ^ sym.decimals : Nat) : Int) =
      if neg then -((q * 10 ^ sym.decimals : Nat) : Int) else ((q * 10 ^ sym.decimals : Nat) : Int) := by
    cases neg
    · simp
    · simp
  have hadd : (if neg then -((q * 10 ^ sym.decimals : Nat) : Int)
        else ((q * 10 ^ sym.decimals : Nat) : Int)) + (if neg then -(f : Int) else f) =
      if neg then -((q * 10 ^ sym.decimals + f : Nat) : Int)
        else ((q * 10 ^ sym.decimals + f : Nat) : Int) := by
    cases neg <;> simp only [Bool.false_eq_true, if_false, if_true] <;> omega
  rw [checkFraction_amountText hf, ok_bind, precisionDigitStr_amountText hf, hsym, ok_bind,
    parseAmount_amountText hf (by omega) (by omega), ok_bind]
  dsimp only
  rw [Symbol.precision_eq hd, ok_bind, Fc.safeMul_eq (by rw [hmul]; split <;> omega), ok_bind,
    hmul, Fc.safeAdd_eq (by rw [hadd]; split <;> omega), ok_bind, hadd,
    make_eq (by simp only [maxAmount]; split <;> omega) hv]

/-- **the text of an asset is read back**: an asset of a valid symbol with a name (one to seven
letters, `length_name_le`) and an amount within `asset::max_amount` -/
theorem asset_text_round_trip (a : Asset) (hv : a.sym.valid = true) (hn : a.sym.name ≠ [])
    (hr : a.isAmountWithinRange = true) :
    ∃ text, a.toString = .ok text ∧ fromString text = .ok a := by
  obtain ⟨hd, -⟩ := Symbol.valid_iff.mp hv
  rw [isAmountWithinRange, Bool.and_eq_true, decide_eq_true_iff, decide_eq_true_iff,
    maxAmount] at hr
  have hP : 0 < 10 ^ a.sym.decimals := Nat.pow_pos (by decide)
  have hsplit := Nat.div_add_mod' a.amount.natAbs (10 ^ a.sym.decimals)
  refine ⟨_, toString_eq hd, ?_⟩
  rw [fromString_amountText hv hn (Nat.mod_lt _ hP) (by omega), hsplit]
  congr 2
  by_cases hneg : a.amount < 0
  · rw [if_pos (decide_eq_true hneg)]
    omega
  · rw [if_neg (by simpa using hneg)]
    omega

/-- `-0.05 SYS`: a negative amount with a zero integer part -/
theorem negative_cents_round_trip :
    Symbol.valid ⟨2 + 83 * 256 + 89 * 256 ^ 2 + 83 * 256 ^ 3⟩ = true ∧
      Symbol.name ⟨2 + 83 * 256 + 89 * 256 ^ 2 + 83 * 256 ^ 3⟩ ≠ [] ∧
      isAmountWithinRange ⟨-5, ⟨2 + 83 * 256 + 89 * 256 ^ 2 + 83 * 256 ^ 3⟩⟩ = true ∧
      ∃ text, toString ⟨-5, ⟨2 + 83 * 256 + 89 * 256 ^ 2 + 83 * 256 ^ 3⟩⟩ = .ok text ∧
        fromString text = .ok ⟨-5, ⟨2 + 83 * 256 + 89 * 256 ^ 2 + 83 * 256 ^ 3⟩⟩ :=
  ⟨by decide, by decide, by decide, asset_text_round_trip _ (by decide) (by decide) (by decide)⟩

example :
    toString ⟨-5, ⟨2 + 83 * 256 + 89 * 256 ^ 2 + 83 * 256 ^ 3⟩⟩ = .ok "-0.05 SYS".toList := by
  decide
example : fromString "1. SYS".toList = .error "Missing decimal fraction after decimal point" := by
  decide

end Asset

end Eos.Chain
