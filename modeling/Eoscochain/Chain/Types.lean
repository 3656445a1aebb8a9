import Eoscochain.Chain.IncrementalMerkle

/-!
# Block headers, producer schedules and header states

The data of libraries/chain block_header.hpp, producer_schedule.hpp and
block_header_state.hpp; the ICP contract (contracts/icp types.hpp) declares the same records
field for field, and its model uses these.

* a digest (`checksum256`, `block_id_type`, a key, a signature) is a `Nat`; byte `k` of the
  32 bytes is bits `8k .. 8k+7`, so the first `uint64_t` of the hash is the value mod `2^64`;
* `Crypto`                  sha256 and public-key recovery, which the chain takes from fc and
                            the contract from intrinsics, as uninterpreted functions;
* `endianReverseU32`, `numFromId`, `BlockHeader.blockNum`, `BlockHeader.id`
                            the block number carried in the first four bytes of an id;
* `FlatMap`                 `flat_map<account_name, uint32_t>`: a list sorted by key;
* `BlockHeaderState`        the header state; `confirmations` is read by no modelled function
                            and is left out.
-/

set_option linter.unusedSectionVars false

namespace Eos

/-- `producer_key` -/
structure ProducerKey where
  producerName : Nat
  blockSigningKey : Nat
  deriving DecidableEq, Repr

/-- `producer_schedule_type` -/
structure ProducerSchedule where
  version : Nat := 0
  producers : List ProducerKey := []
  deriving DecidableEq, Repr

/-- `block_header` (the chain's `signed_block_header` adds `producer_signature`, which the
header state keeps in its own field as the contract's record does) -/
structure BlockHeader where
  timestamp : Nat := 0
  producer : Nat := 0
  confirmed : Nat := 1
  previous : Nat := 0
  transactionMroot : Nat := 0
  actionMroot : Nat := 0
  scheduleVersion : Nat := 0
  newProducers : Option ProducerSchedule := none
  headerExtensions : List (Nat × List Nat) := []
  deriving DecidableEq, Repr

/-- the hash functions and the signature recovery both levels use -/
structure Crypto where
  /-- `block_header::digest()`: sha256 of the packed header -/
  headerDigest : BlockHeader → Nat
  /-- `digest_type::hash(schedule)`, the contract's `sha256(schedule)` -/
  scheduleDigest : ProducerSchedule → Nat
  /-- sha256 of a packed pair of digests -/
  pairDigest : Nat → Nat → Nat
  /-- the public key recovered from a signature over a digest -/
  recover : Nat → Nat → Nat

/-- `fc::endian_reverse_u32` -/
def endianReverseU32 (x : Nat) : Nat :=
  ((x >>> 0x18) &&& 0xFF) ||| (((x >>> 0x10) &&& 0xFF) <<< 0x08)
    ||| (((x >>> 0x08) &&& 0xFF) <<< 0x10) ||| ((x &&& 0xFF) <<< 0x18)

/-- `block_header::num_from_id`: the low 32 bits of the first `uint64_t` of the id, byte
swapped -/
def numFromId (id : Nat) : Nat := endianReverseU32 (id % 2 ^ 32)

/-- `make_canonical_left`: bit 7 of the first byte cleared -/
def makeCanonicalLeft (d : Nat) : Nat := d - (d &&& 0x80)

/-- `make_canonical_right`: bit 7 of the first byte set -/
def makeCanonicalRight (d : Nat) : Nat := d ||| 0x80

/-- the merkle node hash, `DigestType::hash(make_canonical_pair(l, r))` -/
def Crypto.merkleNode (c : Crypto) (l r : Nat) : Nat :=
  c.pairDigest (makeCanonicalLeft l) (makeCanonicalRight r)

/-- a block id merkle: leaves are ids, inner nodes `merkleNode` -/
abbrev BlockMerkle := IncrementalMerkle Nat

/-- `incremental_merkle::append` at the chain's hash -/
def Crypto.mappend (c : Crypto) (m : BlockMerkle) (d : Nat) : BlockMerkle :=
  IncrementalMerkle.append c.merkleNode 0 m d

/-- `incremental_merkle::get_root` -/
def mroot (m : BlockMerkle) : Nat := IncrementalMerkle.getRoot 0 m

/-- `block_header::block_num()` (a `uint32_t`) -/
def BlockHeader.blockNum (h : BlockHeader) : Nat := (numFromId h.previous + 1) % 2 ^ 32

/-- `block_header::id()`: the digest with its first four bytes replaced by the block number -/
def BlockHeader.id (c : Crypto) (h : BlockHeader) : Nat :=
  c.headerDigest h - c.headerDigest h % 2 ^ 32 + endianReverseU32 h.blockNum

/-! ## The block number in an id -/

theorem testBit_0xFF (j : Nat) : (0xFF : Nat).testBit j = decide (j < 8) := by
  have h : (0xFF : Nat) = 2 ^ 8 - 1 := rfl
  rw [h, Nat.testBit_two_pow_sub_one]

theorem testBit_endianReverseU32 (x i : Nat) : (endianReverseU32 x).testBit i =
    if i < 8 then x.testBit (i + 24) else if i < 16 then x.testBit (i + 8)
    else if i < 24 then x.testBit (i - 8) else if i < 32 then x.testBit (i - 24) else false := by
  simp only [endianReverseU32, Nat.testBit_or, Nat.testBit_and, Nat.testBit_shiftRight,
    Nat.testBit_shiftLeft, testBit_0xFF]
  by_cases h8 : i < 8
  · have e : 24 + i = i + 24 := by omega
    simp [h8, e, show ¬ 8 ≤ i by omega, show ¬ 16 ≤ i by omega, show ¬ 24 ≤ i by omega]
  by_cases h16 : i < 16
  · have e : 16 + (i - 8) = i + 8 := by omega
    simp [h8, h16, e, show 8 ≤ i by omega, show i - 8 < 8 by omega, show ¬ 16 ≤ i by omega,
      show ¬ 24 ≤ i by omega]
  by_cases h24 : i < 24
  · have e : 8 + (i - 16) = i - 8 := by omega
    simp [h8, h16, h24, e, show 8 ≤ i by omega, show ¬ i - 8 < 8 by omega, show 16 ≤ i by omega,
      show i - 16 < 8 by omega, show ¬ 24 ≤ i by omega]
  by_cases h32 : i < 32
  · simp [h8, h16, h24, h32, show 8 ≤ i by omega, show ¬ i - 8 < 8 by omega,
      show ¬ i - 16 < 8 by omega, show 24 ≤ i by omega, show i - 24 < 8 by omega]
  · simp [h8, h16, h24, h32, show ¬ i - 8 < 8 by omega, show ¬ i - 16 < 8 by omega,
      show ¬ i - 24 < 8 by omega]

theorem endianReverseU32_lt (x : Nat) : endianReverseU32 x < 2 ^ 32 := by
  apply Nat.lt_pow_two_of_testBit
  intro i hi
  rw [testBit_endianReverseU32]
  simp [show ¬ i < 8 by omega, show ¬ i < 16 by omega, show ¬ i < 24 by omega,
    show ¬ i < 32 by omega]

theorem endianReverseU32_endianReverseU32 {x : Nat} (hx : x < 2 ^ 32) :
    endianReverseU32 (endianReverseU32 x) = x := by
  apply Nat.eq_of_testBit_eq
  intro i
  rw [testBit_endianReverseU32]
  by_cases h8 : i < 8
  · rw [if_pos h8, testBit_endianReverseU32]
    simp [show ¬ i + 24 < 8 by omega, show ¬ i + 24 < 16 by omega, show ¬ i + 24 < 24 by omega,
      show i + 24 < 32 by omega]
  by_cases h16 : i < 16
  · rw [if_neg h8, if_pos h16, testBit_endianReverseU32]
    simp [show ¬ i + 8 < 8 by omega, show ¬ i + 8 < 16 by omega, show i + 8 < 24 by omega,
      show i + 8 - 8 = i by omega]
  by_cases h24 : i < 24
  · rw [if_neg h8, if_neg h16, if_pos h24, testBit_endianReverseU32]
    simp [show ¬ i - 8 < 8 by omega, show i - 8 < 16 by omega, show i - 8 + 8 = i by omega]
  by_cases h32 : i < 32
  · rw [if_neg h8, if_neg h16, if_neg h24, if_pos h32, testBit_endianReverseU32]
    simp [show i - 24 < 8 by omega, show i - 24 + 24 = i by omega]
  · rw [if_neg h8, if_neg h16, if_neg h24, if_neg h32]
    have hlt : x < 2 ^ i := Nat.lt_of_lt_of_le hx (Nat.pow_le_pow_right (by omega) (by omega))
    exact (Nat.testBit_lt_two_pow hlt).symm

theorem numFromId_lt (id : Nat) : numFromId id < 2 ^ 32 := endianReverseU32_lt _

/-- **the id of a header carries its block number** -/
theorem numFromId_id (c : Crypto) (h : BlockHeader) : numFromId (h.id c) = h.blockNum := by
  have hlt := endianReverseU32_lt h.blockNum
  have hmod : (c.headerDigest h - c.headerDigest h % 2 ^ 32 + endianReverseU32 h.blockNum)
      % 2 ^ 32 = endianReverseU32 h.blockNum := by omega
  have hnum : h.blockNum < 2 ^ 32 := Nat.mod_lt _ (by decide)
  rw [numFromId, BlockHeader.id, hmod, endianReverseU32_endianReverseU32 hnum]

theorem id_ne_previous (c : Crypto) (h : BlockHeader) : h.id c ≠ h.previous := by
  intro heq
  have hnum := numFromId_id c h
  rw [heq, BlockHeader.blockNum] at hnum
  have := numFromId_lt h.previous
  omega

/-! ## Names -/

/-- `char_to_symbol` -/
def charToSymbol (c : Char) : Nat :=
  if 'a' ≤ c ∧ c ≤ 'z' then c.toNat - 'a'.toNat + 6
  else if '1' ≤ c ∧ c ≤ '5' then c.toNat - '1'.toNat + 1
  else 0

/-- `string_to_name`: five bits a character from the top, four for the thirteenth -/
def stringToName (str : String) : Nat :=
  let cs := str.toList
  (List.range 13).foldl (fun value i =>
    let c := if i < cs.length then charToSymbol (cs.getD i 'a') else 0
    let c := if i < 12 then (c &&& 0x1f) <<< (64 - 5 * (i + 1)) else c &&& 0x0f
    value ||| c) 0

/-! ## flat_map<account_name, uint32_t> -/

/-- a `flat_map` as the list of its entries in key order -/
abbrev FlatMap := List (Nat × Nat)

namespace FlatMap

/-- `flat_map::find` -/
def find? : FlatMap → Nat → Option Nat
  | [], _ => none
  | (k', v) :: m, k => if k = k' then some v else find? m k

/-- `m[k] = v`: insert or assign, keeping the keys in order -/
def set : FlatMap → Nat → Nat → FlatMap
  | [], k, v => [(k, v)]
  | (k', v') :: m, k, v =>
    if k < k' then (k, v) :: (k', v') :: m
    else if k = k' then (k, v) :: m
    else (k', v') :: set m k v

/-- `m.emplace(k, v)`: insert unless the key is there -/
def emplace (m : FlatMap) (k v : Nat) : FlatMap :=
  match m.find? k with
  | some _ => m
  | none => m.set k v

/-- the mapped values in key order -/
def values (m : FlatMap) : List Nat := m.map Prod.snd

end FlatMap

/-- `block_header_state` -/
structure BlockHeaderState where
  id : Nat := 0
  blockNum : Nat := 0
  header : BlockHeader := {}
  producerSignature : Nat := 0
  dposProposedIrreversibleBlocknum : Nat := 0
  dposIrreversibleBlocknum : Nat := 0
  bftIrreversibleBlocknum : Nat := 0
  pendingScheduleLibNum : Nat := 0
  pendingScheduleHash : Nat := 0
  pendingSchedule : ProducerSchedule := {}
  activeSchedule : ProducerSchedule := {}
  blockrootMerkle : BlockMerkle := IncrementalMerkle.empty
  producerToLastProduced : FlatMap := []
  producerToLastImpliedIrb : FlatMap := []
  blockSigningKey : Nat := 0
  confirmCount : List Nat := []
  deriving DecidableEq, Repr

/-- the error of chainbase for a second row with a unique key already stored -/
def insertViolation : String :=
  "could not insert object, most likely a uniqueness constraint was violated"

/-- the error of `db.get` for a key not stored -/
def unknownKeyError : String := "unknown key"

end Eos
