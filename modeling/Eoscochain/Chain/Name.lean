import Eoscochain.Lib.Assert
import Eoscochain.Lib.Bits
import Eoscochain.Lib.Trim
import Eoscochain.Chain.Types

/-!
# Account names

libraries/chain name.hpp and name.cpp, contracts/eosiolib types.hpp.  A name is a 64-bit
value of thirteen symbols from the top: twelve of five bits and a thirteenth of four, each the
index of its character in `.12345abcdefghijklmnopqrstuvwxyz`.  The chain and the contract
library each have `string_to_name` and `to_string`; the two `to_string` trim the dots on the
right differently, and differ on the empty name (`to_string_zero`).

* `Name.stringToName`, `Name.toString`, `Name.set`   the chain's;
* `Eosiolib.stringToName`, `Eosiolib.toString`, `Eosiolib.nameSuffix`   the contract library's;
* `Name.symbol`, `Name.encode`   a name as its symbols and back; every function above is
  computed through them (`stringToName_eq_encode`, `nameChars_eq`), and a name is its symbols
  (`encode_symbol`).

A C string is the list of its characters before the terminator (`CString`); `str[i]` past
them reads the terminator.  Names are `Nat` below `2 ^ 64`; no operation here leaves 64 bits.
-/

namespace Eos

open Machine

/-- a C string: its characters before the terminator -/
structure CString where
  chars : List Char
  noNul : '\x00' ∉ chars

/-- `str[i]`: the terminator past the last character -/
def CString.get (s : CString) (i : Nat) : Char := s.chars.getD i '\x00'

/-- `charmap` of `to_string`: the character of each symbol -/
def charmap : List Char := ".12345abcdefghijklmnopqrstuvwxyz".toList

namespace Name

/-- the loop of `string_to_name` from `i`: the characters before the terminator, at most
twelve, five bits each from the top -/
def stringToNameLoop (name i : Nat) : List Char → Nat × Nat
  | [] => (name, i)
  | c :: cs =>
    if i < 12 then stringToNameLoop (name ||| (charToSymbol c &&& 0x1f) <<< (64 - 5 * (i + 1))) (i + 1) cs
    else (name, i)

/-- `eosio::chain::string_to_name`: a thirteenth character in the low four bits -/
def stringToName (s : CString) : Nat :=
  let (name, i) := stringToNameLoop 0 0 s.chars
  if i = 12 then name ||| (charToSymbol (s.get 12) &&& 0x0F) else name

/-- the loop of `operator string` from `i`: the character of the low bits of `tmp` goes to
`str[12 - i]`, four bits for the first, five for the others -/
def toStringLoop : Nat → Nat → Nat → List Char → List Char
  | 0, _, _, str => str
  | fuel + 1, i, tmp, str =>
    let c := charmap.getD (tmp &&& if i = 0 then 0x0f else 0x1f) '.'
    toStringLoop fuel (i + 1) (tmp >>> if i = 0 then 4 else 5) (str.set (12 - i) c)

/-- the thirteen characters `operator string` writes, before it trims them -/
def nameChars (value : Nat) : List Char := toStringLoop 13 0 value (List.replicate 13 '.')

/-- `name::operator string`: `trim_right_if` takes every dot off the right -/
def toString (value : Nat) : List Char := (nameChars value).rdropWhile (· == '.')

/-- `name::set` -/
def set (s : CString) : Except String Nat := do
  assert (decide (min s.chars.length 14 ≤ 13)) "Name is longer than 13 characters (${name}) "
  let value := stringToName s
  assert (toString value == s.chars)
    "Name not properly normalized (name: ${name}, normalized: ${normalized}) "
  pure value

end Name

namespace Eosiolib

/-- `eosio::string_to_name`: the length first, then thirteen symbols -/
def stringToName (s : CString) : Nat :=
  let len := s.chars.length
  (List.range 13).foldl (fun value i =>
    let c := if i < len ∧ i ≤ 12 then charToSymbol (s.get i) else 0
    let c := if i < 12 then (c &&& 0x1f) <<< (64 - 5 * (i + 1)) else c &&& 0x0f
    value ||| c) 0

/-- `std::string::find_last_not_of(c)` -/
def findLastNotOf (str : List Char) (c : Char) : Option Nat :=
  (str.reverse.findIdx? (· != c)).map (str.length - 1 - ·)

/-- `name::trim_right_dots`: a string of dots only is kept -/
def trimRightDots (str : List Char) : List Char :=
  match findLastNotOf str '.' with
  | some last => str.take (last + 1)
  | none => str

/-- `eosio::name::to_string` -/
def toString (value : Nat) : List Char := trimRightDots (Name.nameChars value)

/-- one iteration of the loop of `name_suffix`, at symbol `j` from the left: a dot's position goes
to `tmp`, and a non-dot takes `tmp` as the position of the last dot before it -/
def suffixStep (n : Nat) (st : Nat × Nat) (j : Nat) : Nat × Nat :=
  let remainingBits := 59 - 5 * j
  if (n >>> remainingBits) &&& 0x1F = 0 then (st.1, remainingBits) else (st.2, st.2)

/-- the loop of `name_suffix` over the first twelve symbols -/
def suffixScan (n : Nat) : Nat × Nat := (List.range 12).foldl (suffixStep n) (0, 0)

/-- `eosio::name_suffix` -/
def nameSuffix (n : Nat) : Nat :=
  let (remainingBitsAfterLastActualDot, tmp) := suffixScan n
  let thirteenthCharacter := n &&& 0x0F
  let remainingBitsAfterLastActualDot :=
    if thirteenthCharacter ≠ 0 then tmp else remainingBitsAfterLastActualDot
  if remainingBitsAfterLastActualDot = 0 then n
  else
    let mask := (1 <<< remainingBitsAfterLastActualDot) - 16
    let shift := 64 - remainingBitsAfterLastActualDot
    ((n &&& mask) <<< shift) + (thirteenthCharacter <<< (shift - 1))

end Eosiolib

/-! ## A name as its thirteen symbols -/

namespace Name

/-- the lowest bit of symbol `j`: the twelve five-bit symbols from the top down, the thirteenth
in the low four bits -/
def lowBit (j : Nat) : Nat := if j < 12 then 59 - 5 * j else 0

/-- the width of symbol `j` -/
def width (j : Nat) : Nat := if j < 12 then 5 else 4

/-- symbol `j` of a name, from the left -/
def symbol (n j : Nat) : Nat := (n >>> lowBit j) &&& (2 ^ width j - 1)

/-- a symbol put into slot `j` -/
def place (j c : Nat) : Nat := (c &&& (2 ^ width j - 1)) <<< lowBit j

/-- the first `k` symbols of `f`, each in its slot -/
def encodeUpTo (k : Nat) (f : Nat → Nat) : Nat :=
  (List.range k).foldl (fun v j => v ||| place j (f j)) 0

/-- the name of thirteen symbols -/
def encode (f : Nat → Nat) : Nat := encodeUpTo 13 f

/-- the symbol of character `j` of a C string, the terminator's past its end -/
def charSymbols (str : List Char) (j : Nat) : Nat := charToSymbol (str.getD j '\x00')

theorem place_eq {j : Nat} (hj : j ≤ 12) (c : Nat) :
    place j c = if j < 12 then (c &&& 0x1f) <<< (64 - 5 * (j + 1)) else c &&& 0x0f := by
  unfold place lowBit width
  split_ifs with h
  · rw [show 64 - 5 * (j + 1) = 59 - 5 * j by omega]
    rfl
  · rw [Nat.shiftLeft_zero]
    rfl

@[simp] theorem place_zero (j : Nat) : place j 0 = 0 := by
  simp [place]

theorem symbol_lt (n j : Nat) : symbol n j < 32 :=
  lt_of_le_of_lt Nat.and_le_right (by unfold width; split <;> decide)

theorem testBit_place (j c b : Nat) : (place j c).testBit b =
    (decide (lowBit j ≤ b ∧ b < lowBit j + width j) && c.testBit (b - lowBit j)) :=
  Bits.testBit_shiftLeft_and c (width j) (lowBit j) b

theorem testBit_symbol (n j o : Nat) :
    (symbol n j).testBit o = (decide (o < width j) && n.testBit (lowBit j + o)) := by
  rw [symbol, Nat.testBit_and, Nat.testBit_shiftRight, Nat.testBit_two_pow_sub_one, Bool.and_comm]

theorem slot_unique {j j' b : Nat} (hj : j < 13) (hj' : j' < 13)
    (h : lowBit j ≤ b ∧ b < lowBit j + width j) (h' : lowBit j' ≤ b ∧ b < lowBit j' + width j') :
    j = j' := by
  unfold lowBit width at h h'
  split_ifs at h h' <;> omega

theorem exists_slot {b : Nat} (hb : b < 64) : ∃ j < 13, lowBit j ≤ b ∧ b < lowBit j + width j := by
  by_cases h4 : b < 4
  · exact ⟨12, by decide, by simp [lowBit, width, h4]⟩
  · refine ⟨(63 - b) / 5, by omega, ?_⟩
    unfold lowBit width
    rw [if_pos (by omega), if_pos (by omega)]
    omega

theorem slot_lt_64 {j b : Nat} (hj : j < 13) (h : b < lowBit j + width j) : b < 64 := by
  unfold lowBit width at h
  split_ifs at h <;> omega

theorem testBit_encodeUpTo (k : Nat) (f : Nat → Nat) (b : Nat) :
    (encodeUpTo k f).testBit b = true ↔ ∃ j < k, (place j (f j)).testBit b = true := by
  rw [encodeUpTo, Bits.testBit_foldl_or (fun j => place j (f j)), Nat.zero_testBit, Bool.false_or,
    List.any_eq_true]
  simp only [List.mem_range]

theorem testBit_encode_of_slot (f : Nat → Nat) {j b : Nat} (hj : j < 13)
    (hb : lowBit j ≤ b ∧ b < lowBit j + width j) :
    (encode f).testBit b = (f j).testBit (b - lowBit j) := by
  apply Bool.eq_iff_iff.mpr
  rw [encode, testBit_encodeUpTo]
  constructor
  · rintro ⟨j', hj', h⟩
    rw [testBit_place, Bool.and_eq_true, decide_eq_true_eq] at h
    obtain rfl := slot_unique hj hj' hb h.1
    exact h.2
  · intro h
    exact ⟨j, hj, by rw [testBit_place, decide_eq_true hb, Bool.true_and]; exact h⟩

theorem testBit_encode_of_ge (f : Nat → Nat) {b : Nat} (hb : 64 ≤ b) : (encode f).testBit b = false := by
  apply Bool.eq_false_iff.mpr
  rw [ne_eq, encode, testBit_encodeUpTo]
  rintro ⟨j, hj, h⟩
  rw [testBit_place, Bool.and_eq_true, decide_eq_true_eq] at h
  exact absurd (slot_lt_64 hj h.1.2) (by omega)

theorem encode_lt (f : Nat → Nat) : encode f < 2 ^ 64 :=
  Nat.lt_pow_two_of_testBit _ fun _ hb => testBit_encode_of_ge f hb

theorem encode_symbol {n : Nat} (hn : n < 2 ^ 64) : encode (symbol n) = n := by
  apply Nat.eq_of_testBit_eq
  intro b
  by_cases hb : b < 64
  · obtain ⟨j, hj, hslot⟩ := exists_slot hb
    rw [testBit_encode_of_slot _ hj hslot, testBit_symbol, decide_eq_true (by omega),
      Bool.true_and, Nat.add_sub_cancel' hslot.1]
  · have hn' : n < 2 ^ b := lt_of_lt_of_le hn (Nat.pow_le_pow_right (by decide) (by omega))
    rw [testBit_encode_of_ge _ (by omega), Nat.testBit_lt_two_pow hn']

theorem symbol_encode (f : Nat → Nat) {j : Nat} (hj : j < 13) :
    symbol (encode f) j = f j &&& (2 ^ width j - 1) := by
  apply Nat.eq_of_testBit_eq
  intro o
  rw [testBit_symbol, Nat.testBit_and, Nat.testBit_two_pow_sub_one]
  by_cases ho : o < width j
  · rw [testBit_encode_of_slot f hj ⟨by omega, by omega⟩, Nat.add_sub_cancel_left]
    simp [ho]
  · simp [ho]

theorem encodeUpTo_succ (k : Nat) (f : Nat → Nat) :
    encodeUpTo (k + 1) f = encodeUpTo k f ||| place k (f k) := by
  rw [encodeUpTo, List.range_succ, List.foldl_append]
  rfl

theorem encodeUpTo_congr {k : Nat} {f g : Nat → Nat} (h : ∀ j < k, f j = g j) :
    encodeUpTo k f = encodeUpTo k g :=
  List.foldl_ext _ _ _ fun _ j hj => by rw [h j (List.mem_range.mp hj)]

theorem encodeUpTo_of_zero {f : Nat → Nat} {m : Nat} (hf : ∀ j, m ≤ j → f j = 0) {k : Nat}
    (hk : m ≤ k) : encodeUpTo k f = encodeUpTo m f := by
  induction k, hk using Nat.le_induction with
  | base => rfl
  | succ k hk ih => rw [encodeUpTo_succ, ih, hf k hk, place_zero, Nat.or_zero]

theorem exists_symbol_ne_zero {n : Nat} (hn : n < 2 ^ 64) (h0 : n ≠ 0) : ∃ j < 13, symbol n j ≠ 0 := by
  by_contra h
  have hzero : ∀ j < 13, symbol n j = 0 := fun j hj => by_contra fun hne => h ⟨j, hj, hne⟩
  apply h0
  rw [← encode_symbol hn, encode, encodeUpTo_congr (g := fun _ => 0) hzero,
    encodeUpTo_of_zero (m := 0) (fun _ _ => rfl) (Nat.zero_le 13)]
  rfl

/-! ## `string_to_name` -/

theorem charSymbols_of_le {str : List Char} {i : Nat} (h : str.length ≤ i) : charSymbols str i = 0 := by
  rw [charSymbols, List.getD_eq_getElem?_getD, List.getElem?_eq_none h, Option.getD_none]
  decide

theorem charSymbols_append_cons (pre cs : List Char) (c : Char) :
    charSymbols (pre ++ c :: cs) pre.length = charToSymbol c := by
  simp [charSymbols]

theorem stringToNameLoop_eq (cs : List Char) : ∀ pre : List Char, pre.length ≤ 12 →
    stringToNameLoop (encodeUpTo pre.length (charSymbols (pre ++ cs))) pre.length cs =
      (encodeUpTo (min (pre.length + cs.length) 12) (charSymbols (pre ++ cs)),
        min (pre.length + cs.length) 12) := by
  induction cs with
  | nil =>
    intro pre hpre
    rw [List.length_nil, Nat.add_zero, Nat.min_eq_left hpre]
    rfl
  | cons c cs ih =>
    intro pre hpre
    rw [stringToNameLoop]
    by_cases hlt : pre.length < 12
    · -- one more character, in slot `pre.length`
      rw [if_pos hlt, ← if_pos hlt (t := (charToSymbol c &&& 0x1f) <<< (64 - 5 * (pre.length + 1)))
        (e := charToSymbol c &&& 0x0f), ← place_eq hpre, ← charSymbols_append_cons pre cs c,
        ← encodeUpTo_succ]
      have h := ih (pre ++ [c]) (by simp; omega)
      rw [List.append_assoc, List.singleton_append, List.length_append, List.length_singleton] at h
      rw [h, List.length_cons]
      congr 2 <;> omega
    · rw [if_neg hlt]
      have h12 : pre.length = 12 := by omega
      rw [h12, Nat.min_eq_right (by omega)]

theorem stringToName_eq (s : CString) : stringToName s = encode (charSymbols s.chars) := by
  have h := stringToNameLoop_eq s.chars [] (Nat.zero_le _)
  rw [List.nil_append, List.length_nil, Nat.zero_add,
    show encodeUpTo 0 (charSymbols s.chars) = 0 from rfl] at h
  rw [stringToName, h]
  by_cases hlen : 12 ≤ s.chars.length
  · rw [Nat.min_eq_right hlen]
    dsimp only
    rw [if_pos rfl, encode, encodeUpTo_succ 12, place_eq (le_refl 12), if_neg (lt_irrefl 12)]
    rfl
  · rw [Nat.min_eq_left (by omega)]
    dsimp only
    rw [if_neg (by omega), encode,
      encodeUpTo_of_zero (fun j hj => charSymbols_of_le hj) (by omega : s.chars.length ≤ 13)]

end Name

theorem Eosiolib.stringToName_eq (s : CString) :
    Eosiolib.stringToName s = Name.encode (Name.charSymbols s.chars) := by
  unfold Eosiolib.stringToName Name.encode Name.encodeUpTo
  apply List.foldl_ext
  intro v i hi
  have hi : i < 13 := List.mem_range.mp hi
  have hc : (if i < s.chars.length ∧ i ≤ 12 then charToSymbol (s.get i) else 0) =
      Name.charSymbols s.chars i := by
    by_cases h : i < s.chars.length
    · rw [if_pos ⟨h, by omega⟩]
      rfl
    · rw [if_neg (fun h' => h h'.1), Name.charSymbols_of_le (by omega)]
  simp only [hc, Name.place_eq (show i ≤ 12 by omega)]

/-! ## `operator string` and `to_string` -/

namespace Name

theorem charToSymbol_charmap : ∀ s < 32, charToSymbol (charmap.getD s '.') = s := by
  decide

theorem charmap_eq_dot_iff : ∀ s < 32, (charmap.getD s '.' = '.' ↔ s = 0) := by
  decide

theorem charmap_ne_nul : ∀ s < 32, charmap.getD s '.' ≠ '\x00' := by
  decide

theorem lowBit_step {i : Nat} (hi : i < 12) :
    lowBit (12 - i) + (if i = 0 then 4 else 5) = lowBit (12 - (i + 1)) := by
  unfold lowBit
  split_ifs <;> omega

theorem mask_eq {i : Nat} (hi : i ≤ 12) :
    (if i = 0 then 0x0f else 0x1f) = 2 ^ width (12 - i) - 1 := by
  unfold width
  split_ifs <;> first | rfl | omega

theorem toStringLoop_getElem? (n : Nat) :
    ∀ (fuel i tmp : Nat) (str : List Char), i + fuel ≤ 13 →
      (0 < fuel → tmp = n >>> lowBit (12 - i)) → ∀ p,
      (toStringLoop fuel i tmp str)[p]? =
        if 13 - (i + fuel) ≤ p ∧ p + i ≤ 12 ∧ p < str.length then
          some (charmap.getD (symbol n p) '.')
        else str[p]?
  | 0, i, tmp, str, _, _, p => by
    rw [toStringLoop, if_neg (by omega)]
  | fuel + 1, i, tmp, str, hfuel, htmp, p => by
    have hc : tmp &&& (if i = 0 then 0x0f else 0x1f) = symbol n (12 - i) := by
      rw [htmp (Nat.succ_pos _), mask_eq (by omega), symbol]
    have htmp' : 0 < fuel → tmp >>> (if i = 0 then 4 else 5) = n >>> lowBit (12 - (i + 1)) :=
      fun h => by rw [htmp (Nat.succ_pos _), ← Nat.shiftRight_add, lowBit_step (by omega)]
    rw [toStringLoop, toStringLoop_getElem? n fuel (i + 1) _ _ (by omega) htmp', hc,
      List.getElem?_set, List.length_set]
    by_cases hp : p = 12 - i
    · subst hp
      by_cases hlen : 12 - i < str.length
      · rw [if_neg (by omega), if_pos rfl, if_pos hlen, if_pos ⟨by omega, by omega, hlen⟩]
      · rw [if_neg (by omega), if_pos rfl, if_neg hlen, if_neg (by omega),
          List.getElem?_eq_none (by omega)]
    · rw [if_neg (Ne.symm hp)]
      by_cases hin : 13 - (i + 1 + fuel) ≤ p ∧ p + (i + 1) ≤ 12 ∧ p < str.length
      · rw [if_pos hin, if_pos ⟨by omega, by omega, hin.2.2⟩]
      · rw [if_neg hin, if_neg (by omega)]

theorem nameChars_eq (n : Nat) :
    nameChars n = (List.range 13).map fun j => charmap.getD (symbol n j) '.' := by
  apply List.ext_getElem?
  intro p
  have hstart : 0 < 13 → n = n >>> lowBit (12 - 0) := fun _ => by
    rw [Nat.sub_zero, show lowBit 12 = 0 from rfl, Nat.shiftRight_zero]
  rw [nameChars, toStringLoop_getElem? n 13 0 n _ (le_refl 13) hstart, List.getElem?_map,
    List.length_replicate]
  by_cases hp : p < 13
  · rw [if_pos ⟨by omega, by omega, hp⟩, List.getElem?_range hp]
    rfl
  · rw [if_neg (by omega), List.getElem?_replicate, if_neg hp,
      List.getElem?_eq_none (by rw [List.length_range]; omega)]
    rfl

theorem getElem?_nameChars (n : Nat) {i : Nat} (hi : i < 13) :
    (nameChars n)[i]? = some (charmap.getD (symbol n i) '.') := by
  rw [nameChars_eq, List.getElem?_map, List.getElem?_range hi]
  rfl

theorem length_nameChars (n : Nat) : (nameChars n).length = 13 := by
  rw [nameChars_eq, List.length_map, List.length_range]

theorem length_toString_le (n : Nat) : (toString n).length ≤ 13 :=
  (List.rdropWhile_prefix (· == '.') (nameChars n)).length_le.trans_eq (length_nameChars n)

theorem charSymbols_toString (n : Nat) {i : Nat} (hi : i < 13) :
    charSymbols (toString n) i = symbol n i := by
  by_cases h : i < (toString n).length
  · rw [charSymbols, List.getD_eq_getElem?_getD, toString, Trim.getElem?_rdropWhile h,
      getElem?_nameChars n hi, Option.getD_some, charToSymbol_charmap _ (symbol_lt n i)]
  · have hdot := Trim.rdropWhile_dropped (getElem?_nameChars n hi) (Nat.le_of_not_lt h)
    rw [charSymbols_of_le (Nat.le_of_not_lt h)]
    exact ((charmap_eq_dot_iff _ (symbol_lt n i)).mp (beq_iff_eq.mp hdot)).symm

theorem toString_noNul (n : Nat) : '\x00' ∉ toString n := by
  intro h
  have h' := (List.rdropWhile_prefix (· == '.') (nameChars n)).subset h
  rw [nameChars_eq, List.mem_map] at h'
  obtain ⟨j, -, hj⟩ := h'
  exact charmap_ne_nul _ (symbol_lt n j) hj

/-- `name{n}.to_string().c_str()` -/
def toCString (value : Nat) : CString := ⟨toString value, toString_noNul value⟩

@[simp] theorem toCString_chars (n : Nat) : (toCString n).chars = toString n := rfl

theorem stringToName_toCString {n : Nat} (hn : n < 2 ^ 64) : stringToName (toCString n) = n := by
  have h : ∀ i < 13, charSymbols (toCString n).chars i = symbol n i := by
    intro i hi
    rw [toCString_chars]
    exact charSymbols_toString n hi
  have henc : encode (charSymbols (toCString n).chars) = encode (symbol n) := encodeUpTo_congr h
  rw [stringToName_eq, henc, encode_symbol hn]

theorem set_eq_ok_iff (s : CString) (v : Nat) : set s = .ok v ↔ v < 2 ^ 64 ∧ s.chars = toString v := by
  simp only [set, assert_bind_eq_ok, decide_eq_true_eq, beq_iff_eq]
  constructor
  · rintro ⟨-, hstr, hv⟩
    cases hv
    exact ⟨stringToName_eq s ▸ encode_lt _, hstr.symm⟩
  · rintro ⟨hv, hs⟩
    have hname : stringToName s = v := by
      have h : stringToName s = stringToName (toCString v) := by
        rw [stringToName_eq, stringToName_eq, hs, toCString_chars]
      rw [h, stringToName_toCString hv]
    refine ⟨?_, by rw [hname, hs], by rw [hname]; rfl⟩
    have := length_toString_le v
    rw [hs]
    omega

end Name

namespace Eosiolib

theorem findLastNotOf_concat (l : List Char) (c d : Char) :
    findLastNotOf (l ++ [c]) d = if c != d then some l.length else findLastNotOf l d := by
  unfold findLastNotOf
  rw [List.reverse_append, List.reverse_singleton, List.singleton_append, List.findIdx?_cons,
    List.length_append, List.length_singleton]
  split
  · simp
  · rw [Option.map_map]
    congr 1
    funext k
    simp only [Function.comp_apply]
    omega

theorem findLastNotOf_eq_none_iff {l : List Char} {d : Char} :
    findLastNotOf l d = none ↔ ∀ c ∈ l, c = d := by
  simp [findLastNotOf, List.findIdx?_eq_none_iff]

theorem findLastNotOf_lt {l : List Char} {d : Char} {last : Nat} (h : findLastNotOf l d = some last) :
    last < l.length := by
  obtain ⟨k, hk, rfl⟩ := Option.map_eq_some_iff.mp h
  obtain ⟨hlt, -⟩ := List.findIdx?_eq_some_iff_getElem.mp hk
  rw [List.length_reverse] at hlt
  omega

theorem trimRightDots_of_exists (l : List Char) (h : ∃ c ∈ l, c ≠ '.') :
    trimRightDots l = l.rdropWhile (· == '.') := by
  induction l using List.reverseRecOn with
  | nil =>
    obtain ⟨c, hc, -⟩ := h
    cases hc
  | append_singleton l c ih =>
    by_cases hc : c = '.'
    · -- a trailing dot: the other character is in `l`
      subst hc
      have hl : ∃ c ∈ l, c ≠ '.' := by
        obtain ⟨c', hc', hne⟩ := h
        rcases List.mem_append.mp hc' with h' | h'
        · exact ⟨c', h', hne⟩
        · exact absurd (List.mem_singleton.mp h') hne
      rw [List.rdropWhile_concat_pos _ _ _ (by decide), ← ih hl]
      unfold trimRightDots
      rw [findLastNotOf_concat, if_neg (by decide)]
      cases hf : findLastNotOf l '.' with
      | none =>
        obtain ⟨c', hc', hne⟩ := hl
        exact absurd (findLastNotOf_eq_none_iff.mp hf c' hc') hne
      | some last =>
        exact List.take_append_of_le_length (findLastNotOf_lt hf)
    · have hne : (c == '.') = false := beq_false_of_ne hc
      unfold trimRightDots
      rw [findLastNotOf_concat, if_pos (bne_iff_ne.mpr hc),
        List.rdropWhile_concat_neg _ _ _ (by rw [hne]; decide)]
      exact List.take_of_length_le (by simp)

theorem toString_eq_of_ne_zero {n : Nat} (hn : n < 2 ^ 64) (h0 : n ≠ 0) :
    toString n = Name.toString n := by
  obtain ⟨j, hj, hne⟩ := Name.exists_symbol_ne_zero hn h0
  apply trimRightDots_of_exists
  refine ⟨charmap.getD (Name.symbol n j) '.', ?_, ?_⟩
  · rw [Name.nameChars_eq]
    exact List.mem_map.mpr ⟨j, List.mem_range.mpr hj, rfl⟩
  · exact fun h => hne ((Name.charmap_eq_dot_iff _ (Name.symbol_lt n j)).mp h)

theorem to_string_zero : toString 0 = List.replicate 13 '.' ∧ Name.toString 0 = [] := by
  decide

end Eosiolib

/-! ## `name_suffix` -/

namespace Eosiolib

/-- `p` is a dot of `str` that a non-dot follows -/
def isActualDot (str : List Char) (p : Nat) : Bool :=
  str[p]? == some '.' && str[p + 1]?.any (· != '.')

/-- the last dot of `str` that a non-dot follows -/
def lastActualDot (str : List Char) : Option Nat :=
  ((List.range str.length).filter (isActualDot str)).getLast?

/-- what `name_suffix` is for: `s` is the name whose string is the part of `n`'s string after its
last dot that a non-dot follows, and `n` itself if no dot is followed by a non-dot -/
def IsTopLevelSuffix (n s : Nat) : Prop :=
  s < 2 ^ 64 ∧
    match lastActualDot (toString n) with
    | some p => toString s = (toString n).drop (p + 1)
    | none => s = n

/-- the bit position of the last dot of `str`, as `name_suffix` counts positions; `0` if there is
no dot -/
def dotPos (str : List Char) : Nat :=
  if '.' ∈ str then Name.lowBit ((str.rdropWhile (· != '.')).length - 1) else 0

theorem dotPos_concat_dot (str : List Char) : dotPos (str ++ ['.']) = Name.lowBit str.length := by
  rw [dotPos, if_pos (List.mem_append_right _ (List.mem_singleton_self _)),
    List.rdropWhile_concat_neg _ _ _ (by decide), List.length_append, List.length_singleton,
    Nat.add_sub_cancel]

theorem dotPos_concat_of_ne (str : List Char) {c : Char} (hc : c ≠ '.') :
    dotPos (str ++ [c]) = dotPos str := by
  have hmem : '.' ∈ str ++ [c] ↔ '.' ∈ str := by simp [Ne.symm hc]
  rw [dotPos, dotPos, List.rdropWhile_concat_pos (· != '.') str c (bne_iff_ne.mpr hc)]
  simp only [hmem]

theorem symbol_eq_shift (n : Nat) {j : Nat} (hj : j < 12) :
    (n >>> (59 - 5 * j)) &&& 0x1F = Name.symbol n j := by
  rw [Name.symbol, Name.lowBit, Name.width, if_pos hj, if_pos hj]
  rfl

theorem take_succ_nameChars (n : Nat) {k : Nat} (hk : k < 13) :
    (Name.nameChars n).take (k + 1) =
      (Name.nameChars n).take k ++ [charmap.getD (Name.symbol n k) '.'] := by
  rw [List.take_add_one, Name.getElem?_nameChars n hk]
  rfl

theorem foldl_suffixStep (n : Nat) : ∀ k ≤ 12, (List.range k).foldl (suffixStep n) (0, 0) =
    (dotPos (((Name.nameChars n).take k).rdropWhile (· == '.')), dotPos ((Name.nameChars n).take k))
  | 0, _ => by simp [dotPos]
  | k + 1, hk => by
    rw [List.range_succ, List.foldl_append, foldl_suffixStep n k (by omega), List.foldl_cons,
      List.foldl_nil, take_succ_nameChars n (by omega)]
    have hlen : ((Name.nameChars n).take k).length = k := by
      rw [List.length_take, Name.length_nameChars]
      omega
    unfold suffixStep
    dsimp only
    rw [symbol_eq_shift n (by omega)]
    by_cases h0 : Name.symbol n k = 0
    · -- a dot: its position goes to `tmp`
      have hc : charmap.getD (Name.symbol n k) '.' = '.' :=
        (Name.charmap_eq_dot_iff _ (Name.symbol_lt n k)).mpr h0
      rw [if_pos h0, hc, List.rdropWhile_concat_pos _ _ _ (by decide), dotPos_concat_dot, hlen,
        Name.lowBit, if_pos (by omega)]
    · -- a non-dot: the last dot before it is the last dot read
      have hc : charmap.getD (Name.symbol n k) '.' ≠ '.' :=
        fun h => h0 ((Name.charmap_eq_dot_iff _ (Name.symbol_lt n k)).mp h)
      rw [if_neg h0, List.rdropWhile_concat_neg _ _ _ (by simpa using hc), dotPos_concat_of_ne _ hc]

theorem remainingBits_eq (n : Nat) :
    (if n &&& 0x0F ≠ 0 then (suffixScan n).2 else (suffixScan n).1) = dotPos (Name.toString n) := by
  have hsplit : Name.nameChars n =
      (Name.nameChars n).take 12 ++ [charmap.getD (Name.symbol n 12) '.'] := by
    rw [← take_succ_nameChars n (by decide), List.take_of_length_le (Name.length_nameChars n).le]
  have h12 : n &&& 0x0F = Name.symbol n 12 := by
    rw [Name.symbol, show Name.lowBit 12 = 0 from rfl, Nat.shiftRight_zero]
    rfl
  rw [suffixScan, foldl_suffixStep n 12 le_rfl, Name.toString, h12]
  conv_rhs => rw [hsplit]
  by_cases h0 : Name.symbol n 12 = 0
  · -- the thirteenth character is a trailing dot
    have hc := (Name.charmap_eq_dot_iff _ (Name.symbol_lt n 12)).mpr h0
    rw [if_neg (not_not.mpr h0), hc, List.rdropWhile_concat_pos _ _ _ (by decide)]
  · have hc : charmap.getD (Name.symbol n 12) '.' ≠ '.' :=
      fun h => h0 ((Name.charmap_eq_dot_iff _ (Name.symbol_lt n 12)).mp h)
    rw [if_pos h0, List.rdropWhile_concat_neg _ _ _ (by simpa using hc), dotPos_concat_of_ne _ hc]

theorem nameSuffix_eq (n : Nat) : nameSuffix n =
    if dotPos (Name.toString n) = 0 then n
    else ((n &&& ((1 <<< dotPos (Name.toString n)) - 16)) <<< (64 - dotPos (Name.toString n))) +
      ((n &&& 0x0F) <<< (64 - dotPos (Name.toString n) - 1)) := by
  rw [← remainingBits_eq]
  rfl

theorem testBit_two_pow_sub_sixteen {R : Nat} (hR : 4 ≤ R) (j : Nat) :
    (2 ^ R - 16).testBit j = decide (4 ≤ j ∧ j < R) := by
  have h : 2 ^ R - 16 = (2 ^ (R - 4) - 1) <<< 4 := by
    rw [Nat.shiftLeft_eq, Nat.sub_mul, ← Nat.pow_add, Nat.sub_add_cancel hR]
  rw [h, Nat.testBit_shiftLeft, Nat.testBit_two_pow_sub_one]
  by_cases hj : 4 ≤ j
  · simp [hj]
    omega
  · simp [hj]

theorem testBit_suffixHigh (n : Nat) {P : Nat} (hP : P ≤ 11) (b : Nat) :
    ((n &&& ((1 <<< (59 - 5 * P)) - 16)) <<< (64 - (59 - 5 * P))).testBit b =
      (decide (5 * P + 9 ≤ b ∧ b < 64) && n.testBit (b - (5 * P + 5))) := by
  rw [Nat.testBit_shiftLeft, Nat.testBit_and, Nat.one_shiftLeft,
    testBit_two_pow_sub_sixteen (by omega), show 64 - (59 - 5 * P) = 5 * P + 5 by omega]
  by_cases hb : 5 * P + 9 ≤ b ∧ b < 64
  · simp [hb, show 5 * P + 5 ≤ b by omega,
      show 4 ≤ b - (5 * P + 5) ∧ b - (5 * P + 5) < 59 - 5 * P by omega]
  · by_cases h5 : 5 * P + 5 ≤ b
    · simp [hb, h5, show ¬ (4 ≤ b - (5 * P + 5) ∧ b - (5 * P + 5) < 59 - 5 * P) by omega]
    · simp [hb, h5]

theorem testBit_suffixLow (n : Nat) {P : Nat} (hP : P ≤ 11) (b : Nat) :
    ((n &&& 0x0F) <<< (64 - (59 - 5 * P) - 1)).testBit b =
      (decide (5 * P + 4 ≤ b ∧ b < 5 * P + 8) && n.testBit (b - (5 * P + 4))) := by
  rw [show (0x0F : Nat) = 2 ^ 4 - 1 from rfl, show 64 - (59 - 5 * P) - 1 = 5 * P + 4 by omega,
    Bits.testBit_shiftLeft_and]

theorem suffix_parts_disjoint (n : Nat) {P : Nat} (hP : P ≤ 11) :
    ((n &&& ((1 <<< (59 - 5 * P)) - 16)) <<< (64 - (59 - 5 * P))) &&&
      ((n &&& 0x0F) <<< (64 - (59 - 5 * P) - 1)) = 0 := by
  apply Nat.eq_of_testBit_eq
  intro b
  rw [Nat.testBit_and, testBit_suffixHigh n hP, testBit_suffixLow n hP, Nat.zero_testBit]
  by_cases h : 5 * P + 9 ≤ b
  · simp [show ¬ (5 * P + 4 ≤ b ∧ b < 5 * P + 8) by omega]
  · simp [show ¬ (5 * P + 9 ≤ b ∧ b < 64) by omega]

theorem suffix_eq_encode (n : Nat) {P : Nat} (hP : P ≤ 11) :
    ((n &&& ((1 <<< (59 - 5 * P)) - 16)) <<< (64 - (59 - 5 * P))) +
        ((n &&& 0x0F) <<< (64 - (59 - 5 * P) - 1)) =
      Name.encode fun k => if k + P + 1 ≤ 12 then Name.symbol n (k + P + 1) else 0 := by
  rw [Bits.add_eq_or_of_and_eq_zero (suffix_parts_disjoint n hP)]
  apply Nat.eq_of_testBit_eq
  intro b
  rw [Nat.testBit_or, testBit_suffixHigh n hP, testBit_suffixLow n hP]
  by_cases hb : b < 64
  · obtain ⟨j, hj, hslot⟩ := Name.exists_slot hb
    rw [Name.testBit_encode_of_slot _ hj hslot]
    rcases lt_trichotomy (j + P + 1) 12 with hlt | heq | hgt
    · -- a symbol after the cut, from slot `j + P + 1`
      have hj12 : j < 12 := by omega
      rw [if_pos hlt.le, Name.testBit_symbol]
      simp only [Name.lowBit, Name.width, if_pos hj12, if_pos hlt] at hslot ⊢
      rw [show 59 - 5 * (j + P + 1) + (b - (59 - 5 * j)) = b - (5 * P + 5) by omega]
      simp [show b - (59 - 5 * j) < 5 by omega, show 5 * P + 9 ≤ b ∧ b < 64 by omega,
        show ¬ (5 * P + 4 ≤ b ∧ b < 5 * P + 8) by omega]
    · -- the thirteenth symbol, now in slot `11 - P`
      have hj12 : j < 12 := by omega
      rw [if_pos heq.le, heq, Name.testBit_symbol]
      simp only [Name.lowBit, Name.width, if_pos hj12, lt_irrefl, if_false] at hslot ⊢
      rw [show 0 + (b - (59 - 5 * j)) = b - (5 * P + 4) by omega]
      by_cases h4 : b - (59 - 5 * j) < 4
      · simp [h4, show ¬ (5 * P + 9 ≤ b ∧ b < 64) by omega,
          show 5 * P + 4 ≤ b ∧ b < 5 * P + 8 by omega]
      · simp [h4, show ¬ (5 * P + 9 ≤ b ∧ b < 64) by omega,
          show ¬ (5 * P + 4 ≤ b ∧ b < 5 * P + 8) by omega]
    · -- past the end of the suffix: dots
      have hlow : b < 5 * P + 4 := by
        unfold Name.lowBit Name.width at hslot
        split_ifs at hslot <;> omega
      rw [if_neg (by omega), Nat.zero_testBit]
      simp [show ¬ (5 * P + 9 ≤ b ∧ b < 64) by omega, show ¬ (5 * P + 4 ≤ b ∧ b < 5 * P + 8) by omega]
  · rw [Name.testBit_encode_of_ge _ (by omega)]
    simp [show ¬ (5 * P + 9 ≤ b ∧ b < 64) by omega, show ¬ (5 * P + 4 ≤ b ∧ b < 5 * P + 8) by omega]

theorem lastDot_facts {T : List Char} (hT : ∀ x, T[T.length - 1]? = some x → x ≠ '.')
    (hdot : '.' ∈ T) :
    0 < (T.rdropWhile (· != '.')).length ∧ (T.rdropWhile (· != '.')).length < T.length ∧
      T[(T.rdropWhile (· != '.')).length - 1]? = some '.' ∧
      ∃ y, T[(T.rdropWhile (· != '.')).length]? = some y ∧ y ≠ '.' := by
  have hA : T.rdropWhile (· != '.') ≠ [] := fun h => by
    simpa using List.rdropWhile_eq_nil_iff.mp h '.' hdot
  obtain ⟨x, hx, hxdot⟩ := Trim.rdropWhile_last hA
  have hx' : x = '.' := by simpa using hxdot
  have hApos : 0 < (T.rdropWhile (· != '.')).length := List.length_pos_iff.mpr hA
  have hAlt : (T.rdropWhile (· != '.')).length < T.length := by
    rcases Nat.lt_or_eq_of_le (List.rdropWhile_prefix (· != '.') T).length_le with h | h
    · exact h
    · -- the whole string would end with the dot
      rw [h] at hx
      exact absurd hx' (hT x hx)
  refine ⟨hApos, hAlt, hx' ▸ hx, T[(T.rdropWhile (· != '.')).length], List.getElem?_eq_getElem hAlt, ?_⟩
  have hy := Trim.rdropWhile_dropped (List.getElem?_eq_getElem hAlt) (le_refl _)
  simpa using hy

theorem lastActualDot_eq {T : List Char} (hT : ∀ x, T[T.length - 1]? = some x → x ≠ '.') :
    lastActualDot T = if '.' ∈ T then some ((T.rdropWhile (· != '.')).length - 1) else none := by
  by_cases hdot : '.' ∈ T
  · obtain ⟨hApos, hAlt, hx, y, hy, hyne⟩ := lastDot_facts hT hdot
    rw [if_pos hdot]
    apply (Trim.getLast?_filter_range_eq_some T.length).mpr
    refine ⟨by omega, ?_, ?_⟩
    · rw [isActualDot, hx, Nat.sub_add_cancel hApos, hy]
      simpa using hyne
    · -- every dot that a non-dot follows lies before the last dot
      intro j _ hact
      rw [isActualDot, Bool.and_eq_true, beq_iff_eq] at hact
      by_contra hgt
      have := Trim.rdropWhile_dropped hact.1 (by omega : (T.rdropWhile (· != '.')).length ≤ j)
      simp at this
  · rw [if_neg hdot]
    apply Trim.getLast?_filter_range_eq_none.mpr
    intro j _
    rw [isActualDot, Bool.and_eq_false_iff]
    left
    rw [beq_eq_false_iff_ne]
    exact fun h => hdot (List.mem_of_getElem? h)

theorem toString_last (n : Nat) :
    ∀ x, (Name.toString n)[(Name.toString n).length - 1]? = some x → x ≠ '.' := by
  intro x hx
  have hne : Name.toString n ≠ [] := fun h => by simp [h] at hx
  obtain ⟨y, hy, hydot⟩ := Trim.rdropWhile_last hne
  have hlen : (Name.toString n).length - 1 < (Name.toString n).length := by
    have := List.length_pos_iff.mpr hne
    omega
  have heq : (Name.toString n)[(Name.toString n).length - 1]? =
      (Name.nameChars n)[(Name.toString n).length - 1]? := Trim.getElem?_rdropWhile hlen
  rw [heq] at hx
  obtain rfl : x = y := Option.some.inj (hx.symm.trans hy)
  simpa using hydot

theorem nameChars_encode {f : Nat → Nat} (hf : ∀ k < 13, f k < 2 ^ Name.width k) :
    Name.nameChars (Name.encode f) = (List.range 13).map fun k => charmap.getD (f k) '.' := by
  rw [Name.nameChars_eq]
  apply List.map_congr_left
  intro k hk
  have hk := List.mem_range.mp hk
  rw [Name.symbol_encode f hk, Nat.and_two_pow_sub_one_eq_mod, Nat.mod_eq_of_lt (hf k hk)]

theorem suffix_chars (n : Nat) {P : Nat} (hP : P ≤ 11) :
    ((List.range 13).map fun k =>
        charmap.getD (if k + P + 1 ≤ 12 then Name.symbol n (k + P + 1) else 0) '.') =
      (Name.nameChars n).drop (P + 1) ++ List.replicate (P + 1) '.' := by
  have hlen : ((Name.nameChars n).drop (P + 1)).length = 12 - P := by
    rw [List.length_drop, Name.length_nameChars]
    omega
  apply List.ext_getElem?
  intro k
  rw [List.getElem?_map]
  by_cases hk : k < 13
  · rw [List.getElem?_range hk, Option.map_some]
    by_cases hkP : k + P + 1 ≤ 12
    · rw [if_pos hkP, List.getElem?_append_left (by omega), List.getElem?_drop,
        Name.getElem?_nameChars n (by omega), show P + 1 + k = k + P + 1 by omega]
    · rw [if_neg hkP, List.getElem?_append_right (by omega), List.getElem?_replicate,
        if_pos (by omega)]
      rfl
  · rw [List.getElem?_eq_none (by rw [List.length_range]; omega), Option.map_none,
      List.getElem?_eq_none (by rw [List.length_append, hlen, List.length_replicate]; omega)]

theorem nameSuffix_zero : lastActualDot (toString 0) = none ∧ nameSuffix 0 = 0 := by
  decide

theorem nameSuffix_spec {n : Nat} (hn : n < 2 ^ 64) : IsTopLevelSuffix n (nameSuffix n) := by
  unfold IsTopLevelSuffix
  by_cases h0 : n = 0
  · subst h0
    rw [nameSuffix_zero.1, nameSuffix_zero.2]
    exact ⟨by decide, rfl⟩
  rw [toString_eq_of_ne_zero hn h0, lastActualDot_eq (toString_last n), nameSuffix_eq]
  by_cases hdot : '.' ∈ Name.toString n
  · obtain ⟨hApos, hAlt, -, y, hy, hyne⟩ := lastDot_facts (toString_last n) hdot
    obtain ⟨P, hPdef⟩ : ∃ P, P = ((Name.toString n).rdropWhile (· != '.')).length - 1 := ⟨_, rfl⟩
    have hP : P ≤ 11 := by
      have := Name.length_toString_le n
      omega
    have hdp : dotPos (Name.toString n) = 59 - 5 * P := by
      rw [dotPos, if_pos hdot, ← hPdef, Name.lowBit, if_pos (by omega)]
    rw [if_pos hdot, hdp, if_neg (by omega), suffix_eq_encode n hP, ← hPdef]
    refine ⟨Name.encode_lt _, ?_⟩
    have hfirst : Name.symbol n (P + 1) ≠ 0 := by
      rw [← Nat.sub_add_cancel hApos, ← hPdef, Name.toString,
        Trim.getElem?_rdropWhile (by rw [← Name.toString]; omega),
        Name.getElem?_nameChars n (by omega)] at hy
      cases hy
      exact fun h => hyne ((Name.charmap_eq_dot_iff _ (Name.symbol_lt n _)).mpr h)
    have hfit : ∀ k < 13, (if k + P + 1 ≤ 12 then Name.symbol n (k + P + 1) else 0) < 2 ^ Name.width k := by
      intro k hk
      split_ifs with hkP
      · rw [Name.width, if_pos (by omega)]
        exact Name.symbol_lt n _
      · exact Nat.two_pow_pos _
    have hne : Name.encode (fun k => if k + P + 1 ≤ 12 then Name.symbol n (k + P + 1) else 0) ≠ 0 := by
      intro h
      have hfit0 : Name.symbol n (P + 1) < 2 ^ Name.width 0 := by
        rw [Name.width, if_pos (by decide)]
        exact Name.symbol_lt n _
      have h0' := Name.symbol_encode (fun k => if k + P + 1 ≤ 12 then Name.symbol n (k + P + 1) else 0)
        (show 0 < 13 by decide)
      rw [h, if_pos (by omega), Nat.zero_add, Nat.and_two_pow_sub_one_eq_mod,
        Nat.mod_eq_of_lt hfit0] at h0'
      exact hfirst (h0'.symm.trans (by simp [Name.symbol]))
    rw [toString_eq_of_ne_zero (Name.encode_lt _) hne, Name.toString, nameChars_encode hfit,
      suffix_chars n hP, Trim.rdropWhile_append_replicate _ (by decide), ← Trim.drop_rdropWhile]
    rfl
  · have hdp : dotPos (Name.toString n) = 0 := if_neg hdot
    rw [if_neg hdot, hdp, if_pos rfl]
    exact ⟨hn, rfl⟩

end Eosiolib

/-- **names**: `string_to_name` reads a name back from its string; `name::set` takes exactly the
strings of names; the two `string_to_name` agree on every C string; the two `to_string` agree on
every name but the empty one -/
theorem name_string_round_trip :
    (∀ n : UInt64, Name.stringToName (Name.toCString n.toNat) = n.toNat) ∧
    (∀ s : CString, (∃ v, Name.set s = .ok v) ↔ ∃ n : UInt64, s.chars = Name.toString n.toNat) ∧
    (∀ s : CString, Name.stringToName s = Eosiolib.stringToName s) ∧
    (∀ n : UInt64, Eosiolib.toString n.toNat = Name.toString n.toNat ↔ n ≠ 0) := by
  refine ⟨fun n => Name.stringToName_toCString n.toNat_lt, fun s => ?_, fun s => ?_, fun n => ?_⟩
  · constructor
    · rintro ⟨v, hv⟩
      obtain ⟨hlt, hs⟩ := (Name.set_eq_ok_iff s v).mp hv
      exact ⟨UInt64.ofNat v, by rw [UInt64.toNat_ofNat_of_lt' hlt]; exact hs⟩
    · rintro ⟨n, hn⟩
      exact ⟨n.toNat, (Name.set_eq_ok_iff s _).mpr ⟨n.toNat_lt, hn⟩⟩
  · rw [Name.stringToName_eq, Eosiolib.stringToName_eq]
  · constructor
    · rintro h rfl
      rw [UInt64.toNat_zero, Eosiolib.to_string_zero.1, Eosiolib.to_string_zero.2] at h
      exact List.cons_ne_nil _ _ h
    · intro h0
      exact Eosiolib.toString_eq_of_ne_zero n.toNat_lt
        fun h => h0 (UInt64.toNat_inj.mp (h.trans UInt64.toNat_zero.symm))

end Eos
