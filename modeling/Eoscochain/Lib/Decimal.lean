import Mathlib

/-!
# The base-ten text of numbers

`Nat.toDigits 10 n` is the text of `n` and `Nat.ofDigitChars 10 s 0` the value of a text of
digits.  Here: a signed text (`ofInt`) and a reader that takes an optional sign (`toInt?`),
which give each other back; the text of `10 ^ p + f` for `f < 10 ^ p` without its leading one,
which is `f` padded with zeros to `p` digits; and the first occurrence of a separator.

* `ofDigits?`, `toInt?`   reading a nonempty text of digits, without or with a sign;
* `toInt?_toDigits`, `toInt?_ofInt`   a text of digits, and the text of an integer, read back;
* `length_drop_toDigits_pow_add`, `ofDigits?_drop_toDigits_pow_add`   the padded text;
* `idxOf?_append_cons`    the first separator after a text without one.
-/

namespace Decimal

/-- a nonempty text of digits -/
def IsDigits (s : List Char) : Bool := !s.isEmpty && s.all Char.isDigit

/-- the value of a nonempty text of base-ten digits -/
def ofDigits? (s : List Char) : Option Nat :=
  if IsDigits s then some (Nat.ofDigitChars 10 s 0) else none

/-- the text of an integer: a minus sign before a negative one -/
def ofInt (v : Int) : List Char :=
  if v < 0 then '-' :: Nat.toDigits 10 v.natAbs else Nat.toDigits 10 v.natAbs

/-- reading a text of digits after an optional sign -/
def toInt? : List Char → Option Int
  | [] => none
  | c :: ds =>
    if c = '-' then (ofDigits? ds).map fun n : Nat => -(n : Int)
    else if c = '+' then (ofDigits? ds).map fun n : Nat => (n : Int)
    else (ofDigits? (c :: ds)).map fun n : Nat => (n : Int)

example :
    toInt? "-0".toList = some 0 ∧ toInt? "+05".toList = some 5 ∧ toInt? "5-".toList = none := by
  decide

theorem isDigits_iff {s : List Char} :
    IsDigits s = true ↔ s ≠ [] ∧ ∀ c ∈ s, c.isDigit = true := by
  simp [IsDigits]

theorem isDigits_toDigits (n : Nat) : IsDigits (Nat.toDigits 10 n) = true :=
  isDigits_iff.mpr ⟨Nat.toDigits_ne_nil,
    fun _ h => Nat.isDigit_of_mem_toDigits (by decide) (by decide) h⟩

theorem not_mem_of_isDigits {s : List Char} {c : Char} (hs : IsDigits s = true)
    (hc : c.isDigit = false) : c ∉ s := by
  intro h
  rw [(isDigits_iff.mp hs).2 c h] at hc
  cases hc

theorem ofDigits?_toDigits (n : Nat) : ofDigits? (Nat.toDigits 10 n) = some n := by
  rw [ofDigits?, if_pos (isDigits_toDigits n), Nat.ofDigitChars_ten_toDigits]

theorem toInt?_of_ofDigits? {s : List Char} {n : Nat} (h : ofDigits? s = some n) :
    toInt? s = some (n : Int) := by
  have hs : IsDigits s = true := by
    by_contra hs
    rw [ofDigits?, if_neg hs] at h
    cases h
  obtain ⟨c, ds, rfl⟩ := List.exists_cons_of_ne_nil (isDigits_iff.mp hs).1
  have hc : c.isDigit = true := (isDigits_iff.mp hs).2 c List.mem_cons_self
  have hm : c ≠ '-' := by
    rintro rfl
    cases hc
  have hp : c ≠ '+' := by
    rintro rfl
    cases hc
  rw [toInt?, if_neg hm, if_neg hp, h, Option.map_some]

theorem toInt?_toDigits (n : Nat) : toInt? (Nat.toDigits 10 n) = some (n : Int) :=
  toInt?_of_ofDigits? (ofDigits?_toDigits n)

theorem toInt?_neg_toDigits (n : Nat) : toInt? ('-' :: Nat.toDigits 10 n) = some (-(n : Int)) := by
  rw [toInt?, if_pos rfl, ofDigits?_toDigits, Option.map_some]

theorem ofInt_natCast (n : Nat) : ofInt n = Nat.toDigits 10 n := by
  rw [ofInt, if_neg (by omega), Int.natAbs_natCast]

theorem toInt?_ofInt (v : Int) : toInt? (ofInt v) = some v := by
  unfold ofInt
  by_cases hv : v < 0
  · rw [if_pos hv, toInt?_neg_toDigits]
    congr 1
    omega
  · rw [if_neg hv, toInt?_toDigits]
    congr 1
    omega

/-! ## The padded fraction -/

theorem ofDigitChars_lt {s : List Char} (h : ∀ c ∈ s, c.isDigit = true) :
    Nat.ofDigitChars 10 s 0 < 10 ^ s.length := by
  induction s with
  | nil => simp
  | cons c s ih =>
    have hc : c.toNat - '0'.toNat < 10 := by
      have := Char.isDigit_iff_toNat.mp (h c List.mem_cons_self)
      simp only [Char.reduceToNat] at this ⊢
      omega
    have hs := ih fun d hd => h d (List.mem_cons_of_mem c hd)
    rw [Nat.ofDigitChars_cons, Nat.ofDigitChars_eq_ofDigitChars_zero, List.length_cons,
      Nat.pow_succ, Nat.mul_zero, Nat.zero_add]
    calc 10 ^ s.length * (c.toNat - '0'.toNat) + Nat.ofDigitChars 10 s 0
        < 10 ^ s.length * (c.toNat - '0'.toNat) + 10 ^ s.length := Nat.add_lt_add_left hs _
      _ = 10 ^ s.length * (c.toNat - '0'.toNat + 1) := by rw [Nat.mul_add_one]
      _ ≤ 10 ^ s.length * 10 := Nat.mul_le_mul_left _ hc

theorem length_toDigits_pow_add {p f : Nat} (hf : f < 10 ^ p) :
    (Nat.toDigits 10 (10 ^ p + f)).length = p + 1 := by
  have hle : (Nat.toDigits 10 (10 ^ p + f)).length ≤ p + 1 := by
    rw [Nat.length_toDigits_le_iff (by decide) (by omega), Nat.pow_succ]
    omega
  have hgt : p < (Nat.toDigits 10 (10 ^ p + f)).length := by
    rcases Nat.eq_zero_or_pos p with rfl | hp
    · exact Nat.length_toDigits_pos
    · rw [← Nat.not_le, Nat.length_toDigits_le_iff (by decide) hp]
      omega
  omega

theorem length_drop_toDigits_pow_add {p f : Nat} (hf : f < 10 ^ p) :
    ((Nat.toDigits 10 (10 ^ p + f)).drop 1).length = p := by
  rw [List.length_drop, length_toDigits_pow_add hf, Nat.add_sub_cancel]

theorem ofDigits?_drop_toDigits_pow_add {p f : Nat} (hp : 0 < p) (hf : f < 10 ^ p) :
    ofDigits? ((Nat.toDigits 10 (10 ^ p + f)).drop 1) = some f := by
  obtain ⟨c, rest, hcr⟩ := List.exists_cons_of_ne_nil
    (Nat.toDigits_ne_nil (b := 10) (n := 10 ^ p + f))
  have hlen : rest.length = p := by
    have := length_toDigits_pow_add hf
    rw [hcr, List.length_cons] at this
    omega
  have hdig := isDigits_toDigits (10 ^ p + f)
  rw [hcr] at hdig
  have hrest : IsDigits rest = true := by
    refine isDigits_iff.mpr ⟨List.ne_nil_of_length_pos (by omega), fun d hd => ?_⟩
    exact (isDigits_iff.mp hdig).2 d (List.mem_cons_of_mem c hd)
  have hval := Nat.ofDigitChars_ten_toDigits (n := 10 ^ p + f)
  rw [hcr, Nat.ofDigitChars_cons, Nat.ofDigitChars_eq_ofDigitChars_zero, hlen] at hval
  have hlt := ofDigitChars_lt (isDigits_iff.mp hrest).2
  rw [hlen] at hlt
  have hmod := congrArg (· % 10 ^ p) hval
  simp only [Nat.mul_add_mod, Nat.mod_eq_of_lt hlt, Nat.add_mod_left, Nat.mod_eq_of_lt hf] at hmod
  rw [hcr, List.drop_one, List.tail_cons, ofDigits?, if_pos hrest, hmod]

/-! ## Separators -/

theorem mem_of_getLast?_append_cons {α : Type} {l m : List α} {a c : α} (hm : m ≠ [])
    (h : (l ++ a :: m).getLast? = some c) : c ∈ m := by
  rw [List.getLast?_append_of_ne_nil _ (List.cons_ne_nil _ _)] at h
  obtain ⟨x, xs, rfl⟩ := List.exists_cons_of_ne_nil hm
  rw [List.getLast?_cons_cons] at h
  exact List.mem_of_getLast? h

theorem idxOf?_append_cons {α : Type} [BEq α] [LawfulBEq α] {a : α} {m : List α} :
    ∀ {l : List α}, a ∉ l → (l ++ a :: m).idxOf? a = some l.length
  | [], _ => by simp [List.idxOf?_cons]
  | x :: l, h => by
    have hx : (x == a) = false := beq_eq_false_iff_ne.mpr fun hxa => h (hxa ▸ List.mem_cons_self)
    rw [List.cons_append, List.idxOf?_cons, hx, if_neg Bool.false_ne_true,
      idxOf?_append_cons fun hl => h (List.mem_cons_of_mem x hl), Option.map_some, List.length_cons]

theorem drop_append_cons {α : Type} (l m : List α) (a : α) :
    (l ++ a :: m).drop (l.length + 1) = m := by
  simp

end Decimal
