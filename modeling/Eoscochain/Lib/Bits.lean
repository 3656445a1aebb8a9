import Mathlib.Data.Nat.Bitwise

/-!
# Smearing the highest bit

`v | v >> 1 | v >> 2 | v >> 4 | ...`, the first half of the usual "next power of two" trick, sets
every bit below the highest set bit of `v`.

* `smear k v`        the smear by the shifts `1, 2, ..., 2 ^ (k - 1)`;
* `testBit_smear`    bit `i` of the smear is set iff one of the `2 ^ k` bits from `i` up is set
                     in `v`;
* `smear_eq`         for `0 < v < 2 ^ 2 ^ k` the smear is `2 ^ (log2 v + 1) - 1`.

Facts for values packed from fields: a bit of an or over a list is set iff it is set in one of
its terms (`testBit_foldl_or`); a field of `w` bits put at `k` holds the bits `k .. k + w - 1`
(`testBit_shiftLeft_and`); a value is the or of its low bits and its high bits, each in place
(`mod_or_div_shiftLeft`); and a sum of values with no bit in common is their or
(`add_eq_or_of_and_eq_zero`, from the bit vectors').
-/

namespace Bits

/-- `v |= v >> 1; v |= v >> 2; ...; v |= v >> 2 ^ (k - 1)` -/
def smear : Nat → Nat → Nat
  | 0, v => v
  | k + 1, v => smear k v ||| smear k v >>> 2 ^ k

theorem testBit_smear (v : Nat) :
    ∀ k i, (smear k v).testBit i = true ↔ ∃ t < 2 ^ k, v.testBit (i + t) = true
  | 0, i => by simp [smear]
  | k + 1, i => by
    rw [smear, Nat.testBit_or, Nat.testBit_shiftRight, Bool.or_eq_true, testBit_smear v k i,
      testBit_smear v k (2 ^ k + i), Nat.pow_succ]
    constructor
    · rintro (⟨t, ht, h⟩ | ⟨t, ht, h⟩)
      · exact ⟨t, by omega, h⟩
      · refine ⟨2 ^ k + t, by omega, ?_⟩
        rwa [show i + (2 ^ k + t) = 2 ^ k + i + t by omega]
    · rintro ⟨t, ht, h⟩
      by_cases hlow : t < 2 ^ k
      · exact .inl ⟨t, hlow, h⟩
      · refine .inr ⟨t - 2 ^ k, by omega, ?_⟩
        rwa [show 2 ^ k + i + (t - 2 ^ k) = i + t by omega]

theorem smear_eq {k v : Nat} (hv : v ≠ 0) (hlt : v < 2 ^ 2 ^ k) :
    smear k v = 2 ^ (v.log2 + 1) - 1 := by
  have hlog : v.log2 < 2 ^ k := (Nat.log2_lt hv).2 hlt
  apply Nat.eq_of_testBit_eq
  intro i
  rw [Nat.testBit_two_pow_sub_one]
  by_cases hi : i ≤ v.log2
  · -- the highest bit of `v` is `log2 v - i` above `i`
    have hset : (smear k v).testBit i = true := by
      refine (testBit_smear v k i).2 ⟨v.log2 - i, by omega, ?_⟩
      rw [show i + (v.log2 - i) = v.log2 by omega]
      exact Nat.testBit_log2 hv
    rw [hset, decide_eq_true (by omega)]
  · -- every bit from `i` up is above the highest bit of `v`
    have hclear : (smear k v).testBit i = false := by
      rw [← Bool.not_eq_true, testBit_smear]
      rintro ⟨t, -, h⟩
      have hbig : v < 2 ^ (i + t) :=
        Nat.lt_of_lt_of_le Nat.lt_log2_self (Nat.pow_le_pow_right (by decide) (by omega))
      rw [Nat.testBit_lt_two_pow hbig] at h
      exact Bool.false_ne_true h
    rw [hclear, decide_eq_false (by omega)]

theorem testBit_foldl_or (g : Nat → Nat) (b : Nat) :
    ∀ (l : List Nat) (acc : Nat), (l.foldl (fun v j => v ||| g j) acc).testBit b =
      (acc.testBit b || l.any fun j => (g j).testBit b)
  | [], acc => by simp
  | j :: l, acc => by
    rw [List.foldl_cons, testBit_foldl_or g b l, Nat.testBit_or, List.any_cons, Bool.or_assoc]

theorem testBit_shiftLeft_and (c w k b : Nat) :
    ((c &&& (2 ^ w - 1)) <<< k).testBit b = (decide (k ≤ b ∧ b < k + w) && c.testBit (b - k)) := by
  rw [Nat.testBit_shiftLeft, Nat.testBit_and, Nat.testBit_two_pow_sub_one]
  by_cases hk : k ≤ b
  · by_cases hw : b < k + w
    · simp [hk, hw, show b - k < w by omega]
    · simp [hk, hw, show ¬ b - k < w by omega]
  · simp [hk]

theorem mod_or_div_shiftLeft (w k s : Nat) :
    (w % 2 ^ k) <<< s ||| (w / 2 ^ k) <<< (s + k) = w <<< s := by
  apply Nat.eq_of_testBit_eq
  intro b
  rw [Nat.testBit_or, Nat.testBit_shiftLeft, Nat.testBit_shiftLeft, Nat.testBit_shiftLeft,
    Nat.testBit_mod_two_pow, Nat.testBit_div_two_pow]
  by_cases hs : s ≤ b
  · by_cases hk : b - s < k
    · simp [hs, hk, show ¬ (b ≥ s + k) by omega]
    · simp [hs, hk, show b ≥ s + k by omega, show b - (s + k) + k = b - s by omega]
  · simp [hs, show ¬ (b ≥ s + k) by omega]

theorem add_eq_or_of_and_eq_zero {a b : Nat} (h : a &&& b = 0) : a + b = a ||| b := by
  have hab : a + b < 2 ^ (a + b + 1) := (Nat.lt_succ_self _).trans Nat.lt_two_pow_self
  have ha : a % 2 ^ (a + b + 1) = a := Nat.mod_eq_of_lt (by omega)
  have hb : b % 2 ^ (a + b + 1) = b := Nat.mod_eq_of_lt (by omega)
  have hv : BitVec.ofNat (a + b + 1) a &&& BitVec.ofNat (a + b + 1) b = 0#_ := by
    apply BitVec.eq_of_toNat_eq
    rw [BitVec.toNat_and, BitVec.toNat_ofNat, BitVec.toNat_ofNat, ha, hb, h, BitVec.toNat_zero]
  have hsum := congrArg BitVec.toNat (BitVec.add_eq_or_of_and_eq_zero _ _ hv)
  rwa [BitVec.toNat_add, BitVec.toNat_or, BitVec.toNat_ofNat, BitVec.toNat_ofNat, ha, hb,
    Nat.mod_eq_of_lt hab] at hsum

end Bits
