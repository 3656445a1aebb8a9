import Eoscochain.Lib.Codec

/-!
# The variable-length integers of the contract library

contracts/eosiolib varint.hpp.  `unsigned_int` is written seven bits a byte, least significant
first, and read back by the loop of the chain's datastream (`Codec.packVarUInt32`,
`Codec.unpackVarUInt32`).  `signed_int` is first mapped to an unsigned value by the zig-zag
transform `(v << 1) ^ (v >> 31)` in 32-bit arithmetic and written the same way; its reader
undoes the transform with `((v >> 1) ^ (v >> 31)) + (v & 1)` and two negations.

That reader is right only for a magnitude below `2 ^ 30`.  For a larger one the zig-zag value
has its top bit set, so `v >> 31` (a logical shift of an unsigned value) is `1` and the low bit
of the magnitude comes back flipped: `2 ^ 30` is read as `2 ^ 30 + 1`, `INT32_MIN` as
`INT32_MIN + 1`.

* `zigzag`, `unzigzag`            the two transforms;
* `toNat_zigzag`, `toNat_unzigzag`   the same in `Nat`;
* `unzigzag_zigzag_iff`           the values the reader gets back.
-/

namespace Eos.Eosiolib

open Codec

/-- `ds << unsigned_int(v)` -/
def packUnsignedInt (v : UInt32) : Bytes := packVarUInt32 v.toNat

/-- `ds >> unsigned_int` -/
def unpackUnsignedInt : Decoder UInt32 := fun bs => do
  let (v, bs) ← unpackVarUInt32 bs
  pure (UInt32.ofNat v, bs)

/-- the zig-zag transform of `signed_int`'s writer, `uint32_t((v << 1) ^ (v >> 31))`: the shift
wraps, and `v >> 31` is the sign mask -/
def zigzag (v : Int32) : UInt32 := ((v <<< 1) ^^^ (v >>> 31)).toUInt32

/-- `ds << signed_int(v)` -/
def packSignedInt (v : Int32) : Bytes := packVarUInt32 (zigzag v).toNat

/-- what `signed_int`'s reader makes of the value its loop read -/
def unzigzag (v : UInt32) : Int32 :=
  let value := (((v >>> 1) ^^^ (v >>> 31)) + (v &&& 1)).toInt32
  let value := if v &&& 1 ≠ 0 then value else -value
  let value := -value
  value

/-- `ds >> signed_int`: the loop of `unsigned_int`'s reader, into a `uint32_t` -/
def unpackSignedInt : Decoder Int32 := fun bs => do
  let (v, bs) ← unpackVarUInt32 bs
  pure (unzigzag (UInt32.ofNat v), bs)

theorem unpackUnsignedInt_packUnsignedInt (x : UInt32) (rest : Bytes) :
    unpackUnsignedInt (packUnsignedInt x ++ rest) = .ok (x, rest) := by
  simp only [unpackUnsignedInt, packUnsignedInt, unpackVarUInt32_packVarUInt32 x.toNat_lt]
  show Except.ok (UInt32.ofNat x.toNat, rest) = _
  rw [UInt32.ofNat_toNat]

theorem unpackSignedInt_packSignedInt (x : Int32) (rest : Bytes) :
    unpackSignedInt (packSignedInt x ++ rest) = .ok (unzigzag (zigzag x), rest) := by
  simp only [unpackSignedInt, packSignedInt, unpackVarUInt32_packVarUInt32 (zigzag x).toNat_lt]
  show Except.ok (unzigzag (UInt32.ofNat (zigzag x).toNat), rest) = _
  rw [UInt32.ofNat_toNat]

/-! ## The transforms in `Nat` -/

theorem sshiftRight_31 (x : BitVec 32) :
    x.sshiftRight 31 = if 2 ^ 31 ≤ x.toNat then BitVec.allOnes 32 else 0#32 := by
  apply BitVec.eq_of_toNat_eq
  have hx := x.isLt
  rw [BitVec.toNat_sshiftRight, BitVec.msb_eq_decide]
  by_cases h : 2 ^ 31 ≤ x.toNat
  · simp only [h, decide_true, if_true, BitVec.toNat_allOnes, Nat.shiftRight_eq_div_pow]
    omega
  · simp only [h, decide_false, Bool.false_eq_true, if_false, BitVec.toNat_ofNat,
      Nat.shiftRight_eq_div_pow]
    omega

theorem toNat_zigzag (x : Int32) :
    (zigzag x).toNat = if 2 ^ 31 ≤ x.toBitVec.toNat then 2 ^ 33 - 1 - 2 * x.toBitVec.toNat
      else 2 * x.toBitVec.toNat := by
  have h : (zigzag x).toBitVec = x.toBitVec <<< 1 ^^^ x.toBitVec.sshiftRight 31 := rfl
  have hx := x.toBitVec.isLt
  rw [UInt32.toNat, h, sshiftRight_31]
  by_cases hm : 2 ^ 31 ≤ x.toBitVec.toNat
  · simp only [hm, if_true, BitVec.xor_allOnes, BitVec.toNat_not, BitVec.toNat_shiftLeft,
      Nat.shiftLeft_eq]
    omega
  · simp only [hm, if_false, BitVec.xor_zero, BitVec.toNat_shiftLeft, Nat.shiftLeft_eq]
    omega

theorem toNat_unzigzag (v : UInt32) :
    (unzigzag v).toBitVec.toNat =
      if v.toNat % 2 = 1 then 2 ^ 32 - 1 - (v.toNat / 2 ^^^ v.toNat / 2 ^ 31)
      else v.toNat / 2 ^^^ v.toNat / 2 ^ 31 := by
  have hv := v.toNat_lt
  have hA : v.toNat / 2 ^^^ v.toNat / 2 ^ 31 < 2 ^ 31 :=
    Nat.xor_lt_two_pow (by omega) (by omega)
  have hodd : (v &&& 1 ≠ 0) ↔ v.toNat % 2 = 1 := by
    rw [ne_eq, ← UInt32.toNat_inj, UInt32.toNat_and]
    have : (1 : UInt32).toNat = 2 ^ 1 - 1 := rfl
    rw [this, Nat.and_two_pow_sub_one_eq_mod]
    simp
  have hr : ((v >>> 1 ^^^ v >>> 31) + (v &&& 1)).toNat =
      (v.toNat / 2 ^^^ v.toNat / 2 ^ 31) + v.toNat % 2 := by
    simp only [Nat.reducePow] at hA
    simp [Nat.shiftRight_eq_div_pow]
    omega
  change (unzigzag v).toUInt32.toNat = _
  simp only [unzigzag]
  by_cases h : v.toNat % 2 = 1
  · rw [if_pos (hodd.mpr h), if_pos h, Int32.toUInt32_neg, UInt32.toUInt32_toInt32,
      UInt32.toNat_neg, hr, show UInt32.size = 2 ^ 32 from rfl]
    omega
  · rw [if_neg (fun h' => h (hodd.mp h')), if_neg h, Int32.toUInt32_neg, Int32.toUInt32_neg,
      UInt32.toUInt32_toInt32, UInt32.neg_neg, hr]
    omega

theorem xor_div_two_pow_30 {w : Nat} (hw : w < 2 ^ 31) :
    w ^^^ w / 2 ^ 30 = if w < 2 ^ 30 then w else if w % 2 = 0 then w + 1 else w - 1 := by
  by_cases hlt : w < 2 ^ 30
  · rw [if_pos hlt, Nat.div_eq_of_lt hlt, Nat.xor_zero]
  · have h1 : w / 2 ^ 30 = 1 := by omega
    rw [if_neg hlt, h1]
    by_cases he : w % 2 = 0
    · rw [if_pos he, Nat.xor_one_of_even (Nat.even_iff.mpr he)]
    · rw [if_neg he, Nat.xor_one_of_odd (Nat.odd_iff.mpr (by omega))]

theorem toInt_eq_toNat (x : Int32) :
    x.toInt = if 2 ^ 31 ≤ x.toBitVec.toNat then (x.toBitVec.toNat : Int) - 2 ^ 32
      else (x.toBitVec.toNat : Int) := by
  rw [Int32.toInt, BitVec.toInt_eq_msb_cond, BitVec.msb_eq_decide]
  simp

theorem unzigzag_zigzag_iff (x : Int32) :
    unzigzag (zigzag x) = x ↔ -2 ^ 30 ≤ x.toInt ∧ x.toInt < 2 ^ 30 := by
  have hu := x.toBitVec.isLt
  rw [← Int32.toBitVec_inj, ← BitVec.toNat_inj, toNat_unzigzag, toNat_zigzag, toInt_eq_toNat]
  by_cases hm : 2 ^ 31 ≤ x.toBitVec.toNat
  · -- a negative value: the zig-zag value is odd, `2 * w + 1` for the magnitude `w + 1`
    have h2 : (2 ^ 33 - 1 - 2 * x.toBitVec.toNat) / 2 = 2 ^ 32 - 1 - x.toBitVec.toNat := by
      omega
    have h31 : (2 ^ 33 - 1 - 2 * x.toBitVec.toNat) / 2 ^ 31 =
        (2 ^ 32 - 1 - x.toBitVec.toNat) / 2 ^ 30 := by omega
    simp only [hm, if_true, h2, h31,
      xor_div_two_pow_30 (show 2 ^ 32 - 1 - x.toBitVec.toNat < 2 ^ 31 by omega)]
    split_ifs <;> omega
  · -- a value below `2 ^ 31`: the zig-zag value is its double
    have h2 : 2 * x.toBitVec.toNat / 2 = x.toBitVec.toNat := by omega
    have h31 : 2 * x.toBitVec.toNat / 2 ^ 31 = x.toBitVec.toNat / 2 ^ 30 := by omega
    simp only [hm, if_false, h2, h31,
      xor_div_two_pow_30 (show x.toBitVec.toNat < 2 ^ 31 by omega)]
    split_ifs <;> omega

/-- **the contract library's varints**: an `unsigned_int` is read back from its bytes; a
`signed_int` is read back exactly when its magnitude is below `2 ^ 30`; each takes at most five
bytes, and the reader stops after the last of them -/
theorem varint_round_trips :
    (∀ (x : UInt32) (rest : Bytes), (packUnsignedInt x).length ≤ 5 ∧
      unpackUnsignedInt (packUnsignedInt x ++ rest) = .ok (x, rest)) ∧
    (∀ (x : Int32) (rest : Bytes), (packSignedInt x).length ≤ 5 ∧
      unpackSignedInt (packSignedInt x ++ rest) = .ok (unzigzag (zigzag x), rest) ∧
      (unzigzag (zigzag x) = x ↔ -2 ^ 30 ≤ x.toInt ∧ x.toInt < 2 ^ 30)) :=
  ⟨fun x rest => ⟨length_packVarUInt32_le _, unpackUnsignedInt_packUnsignedInt x rest⟩,
    fun x rest => ⟨length_packVarUInt32_le _, unpackSignedInt_packSignedInt x rest,
      unzigzag_zigzag_iff x⟩⟩

theorem signed_int_misread :
    unpackSignedInt (packSignedInt 1073741824) = .ok (1073741825, []) ∧
      unpackSignedInt (packSignedInt Int32.minValue) = .ok (Int32.minValue + 1, []) := by
  decide

end Eos.Eosiolib
