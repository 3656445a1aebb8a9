import Mathlib.Data.Nat.Bitwise
import Mathlib.Tactic.Ring

/-!
# Byte streams

Values written to and read from a list of bytes, little-endian, in the layout of a binary
datastream: fixed-width integers, a LEB128 count of at most 32 bits, byte strings and vectors
prefixed with their length.  A read that runs past the end fails with the stream's message.

* `leBytes n x`, `readUInt n`           an `n`-byte integer;
* `packVarUInt32`, `unpackVarUInt32`    the variable-length count;
* `packBytes`, `unpackBytes`            a length-prefixed byte string;
* `unpackVector`                        a length-prefixed vector;
* `length_packVarUInt32_le`             a count takes at most five bytes;
* the round trips `readUInt_leBytes`, `unpackVarUInt32_packVarUInt32`,
  `unpackBytes_packBytes`: what is written is read back, with the rest of the stream after it.
-/

set_option linter.unusedSectionVars false

namespace Codec

abbrev Bytes := List UInt8

/-- a reader takes a value from the front of the stream -/
abbrev Decoder (α : Type) := Bytes → Except String (α × Bytes)

/-- `unpack<T>(bytes)`: the value at the front, the rest ignored -/
def unpack {α : Type} (dec : Decoder α) (bs : Bytes) : Except String α :=
  (dec bs).map Prod.fst

theorem unpack_eq_ok {α : Type} {dec : Decoder α} {bs : Bytes} {a : α} :
    unpack dec bs = .ok a ↔ ∃ rest, dec bs = .ok (a, rest) := by
  unfold unpack
  cases dec bs with
  | error e => simp [Except.map]
  | ok r => simp [Except.map, Prod.ext_iff, eq_comm]

/-! ## Fixed width -/

/-- the `n` low bytes of `x`, least significant first -/
def leBytes : Nat → Nat → Bytes
  | 0, _ => []
  | n + 1, x => UInt8.ofNat (x % 256) :: leBytes n (x / 256)

/-- the value of little-endian bytes -/
def leValue : Bytes → Nat
  | [] => 0
  | b :: bs => b.toNat + 256 * leValue bs

/-- `read` of `n` bytes -/
def readBytes (n : Nat) : Decoder Bytes := fun bs =>
  if n ≤ bs.length then pure (bs.take n, bs.drop n) else throw "read"

/-- an `n`-byte unsigned integer -/
def readUInt (n : Nat) : Decoder Nat := fun bs => do
  let r ← readBytes n bs
  pure (leValue r.1, r.2)

@[simp] theorem length_leBytes : ∀ (n x : Nat), (leBytes n x).length = n
  | 0, _ => rfl
  | n + 1, x => by simp [leBytes, length_leBytes n]

theorem leValue_leBytes : ∀ (n x : Nat), x < 256 ^ n → leValue (leBytes n x) = x
  | 0, x, h => by
    simp at h
    simp [leBytes, leValue, h]
  | n + 1, x, h => by
    have hx : x / 256 < 256 ^ n := by
      rw [Nat.pow_succ] at h
      omega
    have hb : (UInt8.ofNat (x % 256)).toNat = x % 256 :=
      UInt8.toNat_ofNat_of_lt' (Nat.mod_lt _ (by decide))
    rw [leBytes, leValue, leValue_leBytes n (x / 256) hx, hb]
    omega

theorem readBytes_append (xs rest : Bytes) :
    readBytes xs.length (xs ++ rest) = .ok (xs, rest) := by
  simp [readBytes, pure, Except.pure]

/-- **fixed width round trip** -/
theorem readUInt_leBytes {n x : Nat} (h : x < 256 ^ n) (rest : Bytes) :
    readUInt n (leBytes n x ++ rest) = .ok (x, rest) := by
  have hr := readBytes_append (leBytes n x) rest
  rw [length_leBytes] at hr
  simp [readUInt, hr, leValue_leBytes n x h, bind, Except.bind, pure, Except.pure]

theorem leBytes_mod : ∀ (n x : Nat), leBytes n (x % 256 ^ n) = leBytes n x
  | 0, _ => rfl
  | n + 1, x => by
    have hlow : x % 256 ^ (n + 1) % 256 = x % 256 := by
      rw [Nat.pow_succ, Nat.mod_mul_left_mod]
    have hhigh : x % 256 ^ (n + 1) / 256 = x / 256 % 256 ^ n := by
      rw [Nat.pow_succ, Nat.mod_mul_left_div_self]
    rw [leBytes, leBytes, hlow, hhigh, leBytes_mod n (x / 256)]

theorem readUInt_leBytes_mod (n x : Nat) (rest : Bytes) :
    readUInt n (leBytes n x ++ rest) = .ok (x % 256 ^ n, rest) := by
  rw [← leBytes_mod n x]
  exact readUInt_leBytes (Nat.mod_lt _ (Nat.pow_pos (by decide))) rest

/-! ## The variable-length count -/

/-- the writer's loop: seven bits a byte, the high bit set while more follow; a 32-bit value
takes at most five bytes -/
def packVarLoop : Nat → Nat → Bytes
  | 0, _ => []
  | fuel + 1, v =>
    let b := v &&& 0x7f
    let v := v >>> 7
    let b := b ||| (if v > 0 then 1 else 0) <<< 7
    if v = 0 then [UInt8.ofNat b] else UInt8.ofNat b :: packVarLoop fuel v

/-- `unsigned_int` written -/
def packVarUInt32 (v : Nat) : Bytes := packVarLoop 5 (v % 2 ^ 32)

/-- the reader's loop: the bits of each byte are put in at `shift` as a 32-bit value, until a
byte without the high bit -/
def unpackVarLoop (shift acc : Nat) : Decoder Nat
  | [] => throw "get"
  | b :: bs =>
    let acc := acc ||| ((b.toNat &&& 0x7f) <<< shift) % 2 ^ 32
    if b.toNat &&& 0x80 ≠ 0 then unpackVarLoop (shift + 7) acc bs
    else pure (acc % 2 ^ 32, bs)

/-- `unsigned_int` read -/
def unpackVarUInt32 : Decoder Nat := unpackVarLoop 0 0

theorem and_0x7f (n : Nat) : n &&& 0x7f = n % 128 := by
  have h : (0x7f : Nat) = 2 ^ 7 - 1 := rfl
  rw [h, Nat.and_two_pow_sub_one_eq_mod]

theorem and_0x80_eq_zero {n : Nat} (h : n < 256) : n &&& 0x80 = 0 ↔ n < 128 := by
  have e : (0x80 : Nat) = 2 ^ 7 := rfl
  rw [e, Nat.land_comm, Nat.two_pow_and, Nat.testBit_eq_decide_div_mod_eq]
  by_cases hn : n < 128
  · have h0 : n / 128 % 2 = 0 := by omega
    simp [h0, hn]
  · have h1 : n / 128 % 2 = 1 := by omega
    simp [h1, hn]

theorem packVarByte (v : Nat) :
    (v &&& 0x7f ||| (if v >>> 7 > 0 then 1 else 0) <<< 7) =
      v % 128 + (if v / 128 > 0 then 128 else 0) := by
  rw [and_0x7f, Nat.shiftRight_eq_div_pow]
  have hlt : v % 128 < 2 ^ 7 := Nat.mod_lt _ (by decide)
  rw [Nat.or_comm, ← Nat.shiftLeft_add_eq_or_of_lt hlt, Nat.shiftLeft_eq]
  split
  · simp only [Nat.one_mul]
    omega
  · simp

theorem packVarLoop_succ (fuel v : Nat) :
    packVarLoop (fuel + 1) v =
      if v / 128 = 0 then [UInt8.ofNat (v % 128)]
      else UInt8.ofNat (v % 128 + 128) :: packVarLoop fuel (v / 128) := by
  have e : v >>> 7 = v / 128 := Nat.shiftRight_eq_div_pow v 7
  show (if v >>> 7 = 0 then [UInt8.ofNat (v &&& 0x7f ||| (if v >>> 7 > 0 then 1 else 0) <<< 7)]
    else UInt8.ofNat (v &&& 0x7f ||| (if v >>> 7 > 0 then 1 else 0) <<< 7) ::
      packVarLoop fuel (v >>> 7)) = _
  rw [packVarByte, e]
  by_cases h : v / 128 = 0
  · rw [if_pos h, if_pos h, if_neg (by omega), Nat.add_zero]
  · rw [if_neg h, if_neg h, if_pos (by omega)]

theorem toNat_ofNat_byte {n : Nat} (h : n < 256) : (UInt8.ofNat n).toNat = n :=
  UInt8.toNat_ofNat_of_lt' h

theorem unpackVarLoop_packVarLoop : ∀ (fuel v shift acc : Nat) (rest : Bytes), 0 < fuel →
    v < 128 ^ fuel → acc < 2 ^ shift → v * 2 ^ shift < 2 ^ 32 →
    unpackVarLoop shift acc (packVarLoop fuel v ++ rest) =
      .ok ((acc + v * 2 ^ shift) % 2 ^ 32, rest)
  | fuel + 1, v, shift, acc, rest, _, hv, hacc, hfit => by
    have hlow : v % 128 * 2 ^ shift ≤ v * 2 ^ shift :=
      Nat.mul_le_mul_right _ (Nat.mod_le _ _)
    have hterm : ((v % 128) <<< shift) % 2 ^ 32 = v % 128 * 2 ^ shift := by
      rw [Nat.shiftLeft_eq]
      exact Nat.mod_eq_of_lt (by omega)
    have hor : acc ||| v % 128 * 2 ^ shift = acc + v % 128 * 2 ^ shift := by
      rw [Nat.mul_comm, Nat.or_comm, ← Nat.two_pow_add_eq_or_of_lt hacc, Nat.add_comm]
    rw [packVarLoop_succ]
    by_cases h0 : v / 128 = 0
    · -- the last byte
      have hb := toNat_ofNat_byte (show v % 128 < 256 by omega)
      have hhigh : v % 128 &&& 0x80 = 0 := (and_0x80_eq_zero (by omega)).mpr (by omega)
      have hv' : v % 128 = v := Nat.mod_eq_of_lt (by omega)
      simp only [if_pos h0, List.singleton_append, unpackVarLoop, hb, and_0x7f, Nat.mod_mod,
        hterm, hor, hhigh, ne_eq, not_true_eq_false, if_false]
      rw [hv']
      rfl
    · -- a byte with the high bit, and at least one more
      obtain ⟨f, rfl⟩ : ∃ f, fuel = f + 1 := by
        refine Nat.exists_eq_add_one.mpr (Nat.pos_of_ne_zero ?_)
        rintro rfl
        omega
      have hb := toNat_ofNat_byte (show v % 128 + 128 < 256 by omega)
      have hhigh : (v % 128 + 128) &&& 0x80 ≠ 0 := by
        rw [ne_eq, and_0x80_eq_zero (by omega)]
        omega
      have hlow' : (v % 128 + 128) % 128 = v % 128 := by omega
      have hsplit : v * 2 ^ shift = v % 128 * 2 ^ shift + v / 128 * 2 ^ (shift + 7) := by
        calc v * 2 ^ shift = (v % 128 + 128 * (v / 128)) * 2 ^ shift := by rw [Nat.mod_add_div]
          _ = v % 128 * 2 ^ shift + v / 128 * 2 ^ (shift + 7) := by ring
      have hfit' : v / 128 * 2 ^ (shift + 7) < 2 ^ 32 := by omega
      have hacc' : acc + v % 128 * 2 ^ shift < 2 ^ (shift + 7) := by
        have : v % 128 * 2 ^ shift ≤ 127 * 2 ^ shift := Nat.mul_le_mul_right _ (by omega)
        rw [Nat.pow_add]
        omega
      have ih := unpackVarLoop_packVarLoop (f + 1) (v / 128) (shift + 7)
        (acc + v % 128 * 2 ^ shift) rest (by omega)
        (by rw [Nat.pow_succ] at hv; omega) hacc' hfit'
      simp only [if_neg h0, List.cons_append, unpackVarLoop, hb, and_0x7f, hlow', hterm, hor,
        hhigh, ne_eq, not_false_eq_true, if_true, ih]
      rw [hsplit, Nat.add_assoc]

theorem length_packVarLoop_le : ∀ (fuel v : Nat), (packVarLoop fuel v).length ≤ fuel
  | 0, _ => Nat.le_refl 0
  | fuel + 1, v => by
    rw [packVarLoop_succ]
    split
    · simp
    · exact Nat.succ_le_succ (length_packVarLoop_le fuel (v / 128))

theorem length_packVarUInt32_le (v : Nat) : (packVarUInt32 v).length ≤ 5 :=
  length_packVarLoop_le 5 _

/-- **count round trip** -/
theorem unpackVarUInt32_packVarUInt32 {v : Nat} (hv : v < 2 ^ 32) (rest : Bytes) :
    unpackVarUInt32 (packVarUInt32 v ++ rest) = .ok (v, rest) := by
  have h := unpackVarLoop_packVarLoop 5 v 0 0 rest (by decide) (by omega) (by decide) (by omega)
  have hv' : (0 + v * 2 ^ 0) % 2 ^ 32 = v := by
    rw [Nat.pow_zero, Nat.mul_one, Nat.zero_add, Nat.mod_eq_of_lt hv]
  rw [unpackVarUInt32, packVarUInt32, Nat.mod_eq_of_lt hv, h, hv']

/-! ## Length-prefixed data -/

/-- a byte string: its length, then its bytes -/
def packBytes (v : Bytes) : Bytes := packVarUInt32 v.length ++ v

/-- a byte string read: `resize` to the count, then `read` -/
def unpackBytes (bs : Bytes) : Except String (Bytes × Bytes) := do
  let (n, bs) ← unpackVarUInt32 bs
  readBytes n bs

/-- `n` values of one reader -/
def unpackMany {α : Type} (dec : Decoder α) : Nat → Decoder (List α)
  | 0, bs => pure ([], bs)
  | n + 1, bs => do
    let (a, bs) ← dec bs
    let (as, bs) ← unpackMany dec n bs
    pure (a :: as, bs)

/-- a vector: its length, then its elements -/
def unpackVector {α : Type} (dec : Decoder α) (bs : Bytes) : Except String (List α × Bytes) := do
  let (n, bs) ← unpackVarUInt32 bs
  unpackMany dec n bs

/-- **byte string round trip** -/
theorem unpackBytes_packBytes {v : Bytes} (hv : v.length < 2 ^ 32) (rest : Bytes) :
    unpackBytes (packBytes v ++ rest) = .ok (v, rest) := by
  simp only [unpackBytes, packBytes, List.append_assoc, unpackVarUInt32_packVarUInt32 hv]
  exact readBytes_append v rest

end Codec
