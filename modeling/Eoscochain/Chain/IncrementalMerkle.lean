import Mathlib.Data.List.Basic
import Mathlib.Data.List.Induction
import Eoscochain.Lib.Bits

/-!
# incremental_merkle: the append-only merkle tree of block ids

`incremental_merkle_impl::append` and `get_root` (libraries/chain incremental_merkle.hpp) and
their copy in the ICP contract (contracts/icp merkle.hpp) are the same code; both are modelled
once here, generic in the digest type `D` as the chain's template is:

* `node l r`            `DigestType::hash(make_canonical_pair(l, r))`, the hash of an inner node;
* `zero`                `DigestType()`, the all-zero digest `get_root` returns for no node;
* `nextPowerOf2`, `clzPower2`, `calcluateMaxDepth`   the `detail::` helpers on `uint64_t`;
* `IncrementalMerkle.append`   one leaf: the collapse loop over `current_depth`;
* `IncrementalMerkle.appendAll` a list of leaves, appended in order;
* `merkle`                the batch `merkle()` of a list of digests, whose rounds `level` counts.

The refinement `incremental_merkle_refines_merkle` goes through `frontier ids`, the tree the
batch levels describe: `appendLoop_frontier` walks one `append` up the levels, `append_frontier`
is its step and `appendAll_empty` the run.  The depth is right for at most `2 ^ 64` leaves
(`rounds_spec`); the next one wraps `next_power_of_2` (`append_of_nodeCount_two_pow_64`).

`*active_iter` past the end of `_active_nodes` is undefined behaviour in the source; the model
reads `zero` there.
-/

set_option linter.unusedSectionVars false

namespace Eos

/-- `detail::next_power_of_2` on `uint64_t` -/
def nextPowerOf2 (value : Nat) : Nat :=
  let v := (value + (2 ^ 64 - 1)) % 2 ^ 64
  let v := v ||| (v >>> 1)
  let v := v ||| (v >>> 2)
  let v := v ||| (v >>> 4)
  let v := v ||| (v >>> 8)
  let v := v ||| (v >>> 16)
  let v := v ||| (v >>> 32)
  (v + 1) % 2 ^ 64

/-- `detail::clz_power_2`: for a power of two `2^k` this is `k` -/
def clzPower2 (value : Nat) : Nat :=
  64 - (if value ≠ 0 then 1 else 0)
    - (if value &&& 0x00000000FFFFFFFF ≠ 0 then 32 else 0)
    - (if value &&& 0x0000FFFF0000FFFF ≠ 0 then 16 else 0)
    - (if value &&& 0x00FF00FF00FF00FF ≠ 0 then 8 else 0)
    - (if value &&& 0x0F0F0F0F0F0F0F0F ≠ 0 then 4 else 0)
    - (if value &&& 0x3333333333333333 ≠ 0 then 2 else 0)
    - (if value &&& 0x5555555555555555 ≠ 0 then 1 else 0)

/-- `detail::calcluate_max_depth` -/
def calcluateMaxDepth (nodeCount : Nat) : Nat :=
  if nodeCount = 0 then 0 else clzPower2 (nextPowerOf2 nodeCount) + 1

/-- `incremental_merkle_impl`: `_node_count` leaves, summarised by `_active_nodes` -/
structure IncrementalMerkle (D : Type*) where
  nodeCount : Nat
  activeNodes : List D
  deriving DecidableEq, Repr

namespace IncrementalMerkle

section
variable {D : Type*} (node : D → D → D) (zero : D)

/-- the `while (current_depth > 0)` loop of `append`: `index` walks up the tree, `top` is the
collapsed value, `partial` whether a partial node was met, `active` the unread part of the old
`_active_nodes`, `updated` the new active nodes so far -/
def appendLoop : Nat → Nat → D → Bool → List D → List D → D × List D
  | 0, _, top, _, _, updated => (top, updated)
  | currentDepth + 1, index, top, isPartial, active, updated =>
    if index % 2 = 0 then
      -- a "left" value with an implied "right": a partial node
      appendLoop currentDepth (index / 2) (node top top) true active
        (if isPartial then updated else updated ++ [top])
    else
      -- a "right" value: pull the fully realised "left" value from the old active nodes
      appendLoop currentDepth (index / 2) (node (active.headD zero) top) isPartial active.tail
        (if isPartial then updated ++ [active.headD zero] else updated)

/-- `incremental_merkle_impl::append` -/
def append (m : IncrementalMerkle D) (digest : D) : IncrementalMerkle D :=
  let r := appendLoop node zero (calcluateMaxDepth (m.nodeCount + 1) - 1) m.nodeCount digest false
    m.activeNodes []
  { nodeCount := m.nodeCount + 1, activeNodes := r.2 ++ [r.1] }

/-- `incremental_merkle_impl::get_root` -/
def getRoot (m : IncrementalMerkle D) : D :=
  if 0 < m.nodeCount then m.activeNodes.getLastD zero else zero

/-- the value `append` returns: `_active_nodes.back()` of the new tree -/
def appendValue (m : IncrementalMerkle D) (digest : D) : D :=
  (append node zero m digest).activeNodes.getLastD zero

/-- the leaves of a list appended in order -/
def appendAll (m : IncrementalMerkle D) (ds : List D) : IncrementalMerkle D :=
  ds.foldl (append node zero) m

/-- the empty tree, `incremental_merkle()` -/
def empty : IncrementalMerkle D := ⟨0, []⟩

/-- one round of the batch `merkle()`: neighbours paired, an odd last digest with itself -/
def merkleRound : List D → List D
  | [] => []
  | [a] => [node a a]
  | a :: b :: rest => node a b :: merkleRound rest

/-- the `while (ids.size() > 1)` loop of `merkle()`; each round halves the list, so its length
is fuel enough -/
def merkleLoop : Nat → List D → D
  | 0, ids => ids.headD zero
  | fuel + 1, ids => if ids.length ≤ 1 then ids.headD zero else merkleLoop fuel (merkleRound node ids)

/-- `merkle()`: the root of a list of digests, the zero digest for none -/
def merkle (ids : List D) : D :=
  if ids.length = 0 then zero else merkleLoop node zero ids.length ids

@[simp] theorem append_nodeCount (m : IncrementalMerkle D) (d : D) :
    (append node zero m d).nodeCount = m.nodeCount + 1 := rfl

@[simp] theorem appendAll_nil (m : IncrementalMerkle D) : appendAll node zero m [] = m := rfl

@[simp] theorem appendAll_cons (m : IncrementalMerkle D) (d : D) (ds : List D) :
    appendAll node zero m (d :: ds) = appendAll node zero (append node zero m d) ds := rfl

theorem appendAll_append (m : IncrementalMerkle D) (ds es : List D) :
    appendAll node zero m (ds ++ es) = appendAll node zero (appendAll node zero m ds) es := by
  simp [appendAll, List.foldl_append]

theorem appendAll_concat (m : IncrementalMerkle D) (ds : List D) (d : D) :
    appendAll node zero m (ds ++ [d]) = append node zero (appendAll node zero m ds) d := by
  rw [appendAll_append]
  rfl

@[simp] theorem appendAll_nodeCount (m : IncrementalMerkle D) (ds : List D) :
    (appendAll node zero m ds).nodeCount = m.nodeCount + ds.length := by
  induction ds generalizing m with
  | nil => rfl
  | cons d ds ih =>
    rw [appendAll_cons, ih, append_nodeCount, List.length_cons]
    omega

theorem append_empty (d : D) : append node zero empty d = ⟨1, [d]⟩ := by
  have hdepth : calcluateMaxDepth (0 + 1) - 1 = 0 := by decide
  simp only [append, empty, hdepth, appendLoop]
  rfl

theorem getRoot_append_empty (d : D) : getRoot zero (append node zero empty d) = d := by
  rw [append_empty]
  rfl

/-! ## The levels of `merkle()` -/

/-- the digests after `j` rounds of `merkle()` -/
def level : Nat → List D → List D
  | 0, ids => ids
  | j + 1, ids => merkleRound node (level j ids)

theorem length_merkleRound (ids : List D) : (merkleRound node ids).length = (ids.length + 1) / 2 := by
  induction ids using merkleRound.induct with
  | case1 => simp [merkleRound]
  | case2 a => simp [merkleRound]
  | case3 a b rest ih =>
    rw [merkleRound, List.length_cons, ih, List.length_cons, List.length_cons]
    omega

theorem merkleRound_append_of_even {ids : List D} (h : ids.length % 2 = 0) (rest : List D) :
    merkleRound node (ids ++ rest) = merkleRound node ids ++ merkleRound node rest := by
  induction ids using merkleRound.induct with
  | case1 => rfl
  | case2 a => simp at h
  | case3 a b ids ih =>
    simp only [List.length_cons] at h
    rw [List.cons_append, List.cons_append, merkleRound, merkleRound, ih (by omega), List.cons_append]

theorem merkleRound_take (ids : List D) :
    ∀ k, merkleRound node (ids.take (2 * k)) = (merkleRound node ids).take k := by
  induction ids using merkleRound.induct with
  | case1 => intro k; simp [merkleRound]
  | case2 a =>
    intro k
    cases k with
    | zero => rfl
    | succ k => simp [merkleRound, show 2 * (k + 1) = (2 * k + 1) + 1 by omega]
  | case3 a b rest ih =>
    intro k
    cases k with
    | zero => rfl
    | succ k =>
      rw [show 2 * (k + 1) = 2 * k + 1 + 1 by omega, List.take_succ_cons, List.take_succ_cons,
        merkleRound, merkleRound, ih k, List.take_succ_cons]

theorem length_level (ids : List D) :
    ∀ j, (level node j ids).length = (ids.length + 2 ^ j - 1) / 2 ^ j
  | 0 => by simp [level]
  | j + 1 => by
    have hpos : 0 < 2 ^ j := Nat.two_pow_pos j
    rw [level, length_merkleRound, length_level ids j, Nat.pow_succ, ← Nat.div_div_eq_div_mul]
    congr 1
    rw [← Nat.add_div_right _ hpos]
    congr 1
    omega

theorem level_succ' (j : Nat) (ids : List D) :
    level node (j + 1) ids = level node j (merkleRound node ids) := by
  induction j with
  | zero => rfl
  | succ j ih => rw [level, ih, level]

theorem merkleLoop_eq_level :
    ∀ k fuel (ids : List D), ids.length ≤ 2 ^ k → 2 ^ k < 2 * ids.length → k ≤ fuel →
      merkleLoop node zero fuel ids = (level node k ids).headD zero
  | 0, fuel, ids, hle, _, _ => by
    cases fuel with
    | zero => rfl
    | succ fuel => simp only [merkleLoop, show ids.length ≤ 1 by simpa using hle, ↓reduceIte]; rfl
  | k + 1, fuel + 1, ids, hle, hlt, hfuel => by
    have hk : 1 ≤ 2 ^ k := Nat.one_le_two_pow
    rw [Nat.pow_succ] at hle hlt
    have hround := length_merkleRound node ids
    rw [merkleLoop, if_neg (by omega), level_succ']
    exact merkleLoop_eq_level k fuel _ (by rw [hround]; omega) (by rw [hround]; omega) (by omega)

theorem mem_merkleRound {ids : List D} {x : D} (h : x ∈ merkleRound node ids) : ∃ a b, x = node a b := by
  induction ids using merkleRound.induct with
  | case1 => simp [merkleRound] at h
  | case2 a => simp only [merkleRound, List.mem_singleton] at h; exact ⟨a, a, h⟩
  | case3 a b rest ih =>
    rw [merkleRound, List.mem_cons] at h
    rcases h with h | h
    · exact ⟨a, b, h⟩
    · exact ih h

/-! ## One more digest

Appending a digest to `ids` changes only the last digest of every level: level `j` keeps its
first `n / 2 ^ j` digests (`n` the length of `ids`) and ends in `climb j`.  The digest left of
it is `fullNode j`, the root of a full subtree when bit `j` of `n` is set. -/

/-- the last full digest of level `j` -/
def fullNode (ids : List D) (j : Nat) : D := (level node j ids).getD (ids.length / 2 ^ j - 1) zero

/-- the last digest of level `j` once `d` is appended: `top` in the loop of `append` -/
def climb (ids : List D) (d : D) : Nat → D
  | 0 => d
  | j + 1 =>
    if ids.length / 2 ^ j % 2 = 0 then node (climb ids d j) (climb ids d j)
    else node (fullNode node zero ids j) (climb ids d j)

theorem div_two_pow_succ (n j : Nat) : n / 2 ^ j / 2 = n / 2 ^ (j + 1) := by
  rw [Nat.div_div_eq_div_mul, Nat.pow_succ]

theorem take_eq_take_pred_append {l : List D} {q : Nat} (h0 : 0 < q) (hq : q ≤ l.length) :
    l.take q = l.take (q - 1) ++ [l.getD (q - 1) zero] := by
  obtain ⟨p, rfl⟩ : ∃ p, q = p + 1 := ⟨q - 1, by omega⟩
  rw [List.take_add_one, List.getElem?_eq_getElem (by omega), List.getD_eq_getElem?_getD,
    List.getElem?_eq_getElem (by omega)]
  rfl

theorem div_two_pow_le_length_level (ids : List D) (j : Nat) :
    ids.length / 2 ^ j ≤ (level node j ids).length := by
  have hpos : 0 < 2 ^ j := Nat.two_pow_pos j
  rw [length_level]
  exact Nat.div_le_div_right (by omega)

theorem merkleRound_singleton (a : D) : merkleRound node [a] = [node a a] := by
  simp [merkleRound]

theorem merkleRound_pair (a b : D) : merkleRound node [a, b] = [node a b] := by
  simp [merkleRound]

theorem level_snoc (ids : List D) (d : D) :
    ∀ j, level node j (ids ++ [d]) =
      (level node j ids).take (ids.length / 2 ^ j) ++ [climb node zero ids d j]
  | 0 => by simp [level, climb]
  | j + 1 => by
    have hq := div_two_pow_le_length_level node ids j
    rw [level, level_snoc ids d j, climb, level, ← div_two_pow_succ]
    split
    · next heven =>
      have hfront : (level node j ids).take (ids.length / 2 ^ j) =
          (level node j ids).take (2 * (ids.length / 2 ^ j / 2)) := by
        congr 1
        omega
      have hlen : ((level node j ids).take (2 * (ids.length / 2 ^ j / 2))).length % 2 = 0 := by
        rw [List.length_take]
        omega
      rw [hfront, merkleRound_append_of_even node hlen, merkleRound_take, merkleRound_singleton]
    · next hodd =>
      have hfront : (level node j ids).take (ids.length / 2 ^ j) =
          (level node j ids).take (2 * (ids.length / 2 ^ j / 2)) ++ [fullNode node zero ids j] := by
        have h0 : 0 < ids.length / 2 ^ j := Nat.pos_of_ne_zero fun h => hodd (by rw [h])
        rw [take_eq_take_pred_append zero h0 hq]
        congr 2
        omega
      have hlen : ((level node j ids).take (2 * (ids.length / 2 ^ j / 2))).length % 2 = 0 := by
        rw [List.length_take]
        omega
      rw [hfront, List.append_assoc, List.singleton_append, merkleRound_append_of_even node hlen,
        merkleRound_take, merkleRound_pair]

/-! ## The active nodes -/

/-- the active node of level `i`: its full node when bit `i` of the count is set -/
def frontierAt (ids : List D) (i : Nat) : List D :=
  if ids.length / 2 ^ i % 2 = 1 then [fullNode node zero ids i] else []

/-- the active nodes of the `k` levels from `j` up, lowest first -/
def frontierNodes (ids : List D) (j : Nat) : Nat → List D
  | 0 => []
  | k + 1 => frontierAt node zero ids j ++ frontierNodes ids (j + 1) k

theorem frontierNodes_succ_right (ids : List D) :
    ∀ k j, frontierNodes node zero ids j (k + 1) =
      frontierNodes node zero ids j k ++ frontierAt node zero ids (j + k)
  | 0, j => by simp [frontierNodes]
  | k + 1, j => by
    rw [frontierNodes, frontierNodes_succ_right ids k (j + 1), frontierNodes, List.append_assoc,
      show j + 1 + k = j + (k + 1) by omega]

theorem succ_div_two_pow (n j : Nat) :
    (n + 1) / 2 ^ j = if n % 2 ^ j = 2 ^ j - 1 then n / 2 ^ j + 1 else n / 2 ^ j := by
  have hpos : 0 < 2 ^ j := Nat.two_pow_pos j
  have hdm := Nat.div_add_mod n (2 ^ j)
  have hlt := Nat.mod_lt n hpos
  split
  · next hcarry =>
    rw [show n + 1 = 2 ^ j * (n / 2 ^ j + 1) by rw [Nat.mul_add]; omega,
      Nat.mul_div_cancel_left _ hpos]
  · next hno =>
    rw [show n + 1 = (n % 2 ^ j + 1) + 2 ^ j * (n / 2 ^ j) by omega, Nat.add_mul_div_left _ _ hpos,
      Nat.div_eq_of_lt (by omega), Nat.zero_add]

section Snoc
variable (ids : List D) (d : D) (j : Nat)

theorem frontierAt_snoc_of_carry (hcarry : ids.length % 2 ^ j = 2 ^ j - 1) :
    frontierAt node zero (ids ++ [d]) j =
      if ids.length / 2 ^ j % 2 = 0 then [climb node zero ids d j] else [] := by
  have hq := div_two_pow_le_length_level node ids j
  have hdiv : (ids ++ [d]).length / 2 ^ j = ids.length / 2 ^ j + 1 := by
    rw [List.length_append, List.length_singleton, succ_div_two_pow, if_pos hcarry]
  have htake : ((level node j ids).take (ids.length / 2 ^ j)).length = ids.length / 2 ^ j := by
    rw [List.length_take]
    omega
  have hfull : fullNode node zero (ids ++ [d]) j = climb node zero ids d j := by
    rw [fullNode, hdiv, level_snoc node zero, Nat.add_sub_cancel, List.getD_eq_getElem?_getD,
      List.getElem?_append_right (by omega), htake, Nat.sub_self]
    rfl
  rw [frontierAt, hdiv, hfull]
  split <;> split <;> first | rfl | omega

theorem frontierAt_snoc_of_no_carry (hno : ids.length % 2 ^ j ≠ 2 ^ j - 1) :
    frontierAt node zero (ids ++ [d]) j = frontierAt node zero ids j := by
  have hq := div_two_pow_le_length_level node ids j
  have hdiv : (ids ++ [d]).length / 2 ^ j = ids.length / 2 ^ j := by
    rw [List.length_append, List.length_singleton, succ_div_two_pow, if_neg hno]
  have htake : ((level node j ids).take (ids.length / 2 ^ j)).length = ids.length / 2 ^ j := by
    rw [List.length_take]
    omega
  unfold frontierAt
  rw [hdiv]
  split
  · next hodd =>
    have hlt : ids.length / 2 ^ j - 1 < ids.length / 2 ^ j := by omega
    rw [fullNode, fullNode, hdiv, level_snoc node zero, List.getD_eq_getElem?_getD,
      List.getElem?_append_left (by omega), List.getElem?_take_of_lt hlt, List.getD_eq_getElem?_getD]
  · rfl

end Snoc

theorem partial_succ (n j : Nat) :
    decide (n % 2 ^ (j + 1) ≠ 2 ^ (j + 1) - 1) =
      (decide (n / 2 ^ j % 2 = 0) || decide (n % 2 ^ j ≠ 2 ^ j - 1)) := by
  have hpos : 0 < 2 ^ j := Nat.two_pow_pos j
  have hmod := @Nat.mod_pow_succ n 2 j
  have hlt := Nat.mod_lt n hpos
  rw [Nat.pow_succ] at hmod ⊢
  rcases Nat.mod_two_eq_zero_or_one (n / 2 ^ j) with heven | hodd
  · -- bit `j` clear: the flag is set
    rw [heven, Nat.mul_zero, Nat.add_zero] at hmod
    simp only [heven, decide_true, Bool.true_or, decide_eq_true_iff]
    omega
  · -- bit `j` set: the flag stays
    rw [hodd, Nat.mul_one] at hmod
    simp only [hodd, Nat.one_ne_zero, decide_false, Bool.false_or, decide_eq_decide]
    constructor <;> intro h h' <;> omega

theorem appendLoop_frontier (ids : List D) (d : D) (extra : List D) :
    ∀ k j, appendLoop node zero k (ids.length / 2 ^ j) (climb node zero ids d j)
        (decide (ids.length % 2 ^ j ≠ 2 ^ j - 1)) (frontierNodes node zero ids j k ++ extra)
        (frontierNodes node zero (ids ++ [d]) 0 j) =
      (climb node zero ids d (j + k), frontierNodes node zero (ids ++ [d]) 0 (j + k))
  | 0, j => rfl
  | k + 1, j => by
    rw [show j + (k + 1) = j + 1 + k by omega, ← appendLoop_frontier ids d extra k (j + 1),
      frontierNodes_succ_right node zero _ j 0, Nat.zero_add, frontierNodes, appendLoop,
      div_two_pow_succ, partial_succ, climb]
    by_cases hcarry : ids.length % 2 ^ j = 2 ^ j - 1
    · -- the carry reaches level `j`: its new active node is `top`, if the level's index is even
      rw [frontierAt_snoc_of_carry node zero ids d j hcarry]
      by_cases heven : ids.length / 2 ^ j % 2 = 0
      · simp [frontierAt, heven, hcarry]
      · simp [frontierAt, show ids.length / 2 ^ j % 2 = 1 by omega, hcarry]
    · -- no carry: the level keeps its active node, read from the old ones when the index is odd
      rw [frontierAt_snoc_of_no_carry node zero ids d j hcarry]
      by_cases heven : ids.length / 2 ^ j % 2 = 0
      · simp [frontierAt, heven, hcarry]
      · simp [frontierAt, show ids.length / 2 ^ j % 2 = 1 by omega, hcarry]

/-! ## The depth

`calcluate_max_depth` on 64 bits: for `1 ≤ m ≤ 2 ^ 64` digests the tree has `r + 1` levels,
`r` the rounds of `merkle()`, with `m ≤ 2 ^ r < 2 * m`. -/

theorem clzPower2_two_pow : ∀ b ≤ 64, clzPower2 (2 ^ b % 2 ^ 64) = b := by decide

theorem nextPowerOf2_eq {m : Nat} (h2 : 2 ≤ m) (h64 : m ≤ 2 ^ 64) :
    nextPowerOf2 m = 2 ^ ((m - 1).log2 + 1) % 2 ^ 64 := by
  have hv : (m + (2 ^ 64 - 1)) % 2 ^ 64 = m - 1 := by omega
  have hsmear : Bits.smear 6 (m - 1) = 2 ^ ((m - 1).log2 + 1) - 1 :=
    Bits.smear_eq (by omega) (by rw [show 2 ^ 6 = 64 by rfl]; omega)
  show (Bits.smear 6 ((m + (2 ^ 64 - 1)) % 2 ^ 64) + 1) % 2 ^ 64 = _
  rw [hv, hsmear, Nat.sub_add_cancel Nat.one_le_two_pow]

/-- `calcluate_max_depth(m) - 1`, the `current_depth` `append` starts from: the rounds of
`merkle()` for `m` digests -/
def rounds (m : Nat) : Nat := calcluateMaxDepth m - 1

theorem append_eq (m : IncrementalMerkle D) (d : D) :
    append node zero m d =
      ⟨m.nodeCount + 1,
        (appendLoop node zero (rounds (m.nodeCount + 1)) m.nodeCount d false m.activeNodes []).2 ++
          [(appendLoop node zero (rounds (m.nodeCount + 1)) m.nodeCount d false m.activeNodes []).1]⟩ :=
  rfl

theorem rounds_eq_log2 {m : Nat} (h2 : 2 ≤ m) (h64 : m ≤ 2 ^ 64) :
    rounds m = (m - 1).log2 + 1 := by
  have hlog : (m - 1).log2 < 64 := (Nat.log2_lt (by omega)).2 (by omega)
  rw [rounds, calcluateMaxDepth, if_neg (by omega), nextPowerOf2_eq h2 h64,
    clzPower2_two_pow _ (by omega), Nat.add_sub_cancel]

theorem rounds_spec {m : Nat} (h1 : 1 ≤ m) (h64 : m ≤ 2 ^ 64) :
    m ≤ 2 ^ rounds m ∧ 2 ^ rounds m < 2 * m := by
  rcases Nat.lt_or_ge m 2 with hone | h2
  · obtain rfl : m = 1 := by omega
    decide
  · have hlow := Nat.log2_self_le (show m - 1 ≠ 0 by omega)
    have hhigh : m - 1 < 2 ^ ((m - 1).log2 + 1) := Nat.lt_log2_self
    rw [rounds_eq_log2 h2 h64]
    rw [Nat.pow_succ] at hhigh ⊢
    omega

theorem rounds_eq_of_bounds {m k : Nat} (h1 : 1 ≤ m) (h64 : m ≤ 2 ^ 64) (hle : m ≤ 2 ^ k)
    (hlt : 2 ^ k < 2 * m) : rounds m = k := by
  obtain ⟨hle', hlt'⟩ := rounds_spec h1 h64
  rcases Nat.lt_trichotomy (rounds m) k with h | h | h
  · have hpow := Nat.pow_le_pow_right (show 0 < 2 by decide) h
    rw [Nat.pow_succ] at hpow
    omega
  · exact h
  · have hpow := Nat.pow_le_pow_right (show 0 < 2 by decide) h
    rw [Nat.pow_succ] at hpow
    omega

theorem rounds_le {m : Nat} (h1 : 1 ≤ m) (h64 : m ≤ 2 ^ 64) : rounds m ≤ m := by
  obtain ⟨-, hlt⟩ := rounds_spec h1 h64
  cases h : rounds m with
  | zero => omega
  | succ r =>
    have hr : r < 2 ^ r := Nat.lt_two_pow_self
    rw [h, Nat.pow_succ] at hlt
    omega

/-! ## The refinement -/

/-- the tree after the digests `ids` as the batch levels describe it: the active node of every
level below the root, lowest first, then the root -/
def frontier (ids : List D) : IncrementalMerkle D :=
  ⟨ids.length, if ids.length = 0 then [] else
    frontierNodes node zero ids 0 (rounds ids.length) ++
      [(level node (rounds ids.length) ids).headD zero]⟩

@[simp] theorem frontier_nodeCount (ids : List D) : (frontier node zero ids).nodeCount = ids.length :=
  rfl

theorem frontier_split (ids : List D) (h64 : ids.length + 1 ≤ 2 ^ 64) :
    ∃ extra, (frontier node zero ids).activeNodes =
      frontierNodes node zero ids 0 (rounds (ids.length + 1)) ++ extra := by
  rcases Nat.eq_zero_or_pos ids.length with h0 | hpos
  · refine ⟨[], ?_⟩
    rw [h0, show rounds (0 + 1) = 0 by decide]
    simp [frontier, h0, frontierNodes]
  · obtain ⟨hle, hlt⟩ := rounds_spec hpos (by omega)
    have hne : ids.length ≠ 0 := by omega
    rcases Nat.lt_or_eq_of_le hle with hsmall | hpow
    · -- not a power of two: the next digest goes under the same root level
      have hk : rounds (ids.length + 1) = rounds ids.length :=
        rounds_eq_of_bounds (by omega) h64 (show ids.length + 1 ≤ 2 ^ rounds ids.length by omega)
          (by omega)
      exact ⟨[(level node (rounds ids.length) ids).headD zero], by simp [frontier, hne, hk]⟩
    · -- a power of two: the root is the active node of its level, the left sibling of the next
      have hk : rounds (ids.length + 1) = rounds ids.length + 1 :=
        rounds_eq_of_bounds (by omega) h64
          (show ids.length + 1 ≤ 2 ^ (rounds ids.length + 1) by rw [Nat.pow_succ]; omega)
          (by rw [Nat.pow_succ]; omega)
      have hone : ids.length / 2 ^ rounds ids.length = 1 := by
        rw [← hpow, Nat.div_self hpos]
      have hat : frontierAt node zero ids (rounds ids.length) =
          [(level node (rounds ids.length) ids).headD zero] := by
        rw [frontierAt, hone, if_pos rfl, fullNode, hone, List.headD_eq_getD]
      refine ⟨[], ?_⟩
      rw [hk, frontierNodes_succ_right, Nat.zero_add, hat, List.append_nil]
      simp [frontier, hne]

theorem append_frontier (ids : List D) (d : D) (h64 : ids.length + 1 ≤ 2 ^ 64) :
    append node zero (frontier node zero ids) d = frontier node zero (ids ++ [d]) := by
  obtain ⟨extra, hactive⟩ := frontier_split node zero ids h64
  obtain ⟨hle, -⟩ := rounds_spec (show 1 ≤ ids.length + 1 by omega) h64
  have hloop : appendLoop node zero (rounds (ids.length + 1)) ids.length d false
      (frontierNodes node zero ids 0 (rounds (ids.length + 1)) ++ extra) [] =
      (climb node zero ids d (rounds (ids.length + 1)),
        frontierNodes node zero (ids ++ [d]) 0 (rounds (ids.length + 1))) := by
    have h := appendLoop_frontier node zero ids d extra (rounds (ids.length + 1)) 0
    rw [Nat.pow_zero, Nat.div_one, Nat.mod_one, Nat.zero_add] at h
    exact h
  have hlt : ids.length < 2 ^ rounds (ids.length + 1) := by omega
  have hroot : (level node (rounds (ids.length + 1)) (ids ++ [d])).headD zero =
      climb node zero ids d (rounds (ids.length + 1)) := by
    rw [level_snoc node zero, Nat.div_eq_of_lt hlt, List.take_zero, List.nil_append, List.headD_cons]
  rw [append_eq, frontier_nodeCount, hactive, hloop]
  simp [frontier, ← hroot]

theorem appendAll_empty (ids : List D) (h64 : ids.length ≤ 2 ^ 64) :
    appendAll node zero empty ids = frontier node zero ids := by
  induction ids using List.reverseRecOn with
  | nil => rfl
  | append_singleton xs d ih =>
    rw [List.length_append, List.length_singleton] at h64
    rw [appendAll_concat, ih (by omega), append_frontier node zero xs d h64]

theorem getRoot_frontier (ids : List D) (h64 : ids.length ≤ 2 ^ 64) :
    getRoot zero (frontier node zero ids) = merkle node zero ids := by
  rcases Nat.eq_zero_or_pos ids.length with h0 | hpos
  · rw [List.length_eq_zero_iff.1 h0]
    rfl
  · obtain ⟨hle, hlt⟩ := rounds_spec hpos h64
    have hne : ids.length ≠ 0 := by omega
    simp only [getRoot, frontier, merkle, hne, ↓reduceIte, hpos, List.getLastD_concat]
    exact (merkleLoop_eq_level node zero _ _ ids hle hlt (rounds_le hpos h64)).symm

theorem appendValue_eq_getRoot (m : IncrementalMerkle D) (d : D) :
    appendValue node zero m d = getRoot zero (append node zero m d) := by
  rw [appendValue, getRoot, if_pos (by rw [append_nodeCount]; omega)]

/-- **The incremental tree refines `merkle()`**: for every list of digests the root of the tree
they are appended to is their batch root, and so is the value each `append` returns. -/
theorem incremental_merkle_refines_merkle :
    (∀ ids : List D, ids.length < 2 ^ 64 →
      getRoot zero (appendAll node zero empty ids) = merkle node zero ids) ∧
    ∀ (ids : List D) (d : D), ids.length + 1 < 2 ^ 64 →
      appendValue node zero (appendAll node zero empty ids) d = merkle node zero (ids ++ [d]) := by
  constructor
  · intro ids h64
    rw [appendAll_empty node zero ids (by omega), getRoot_frontier node zero ids (by omega)]
  · intro ids d h64
    have hlen : (ids ++ [d]).length ≤ 2 ^ 64 := by
      rw [List.length_append, List.length_singleton]
      omega
    rw [appendValue_eq_getRoot, ← appendAll_concat, appendAll_empty node zero _ hlen,
      getRoot_frontier node zero _ hlen]

theorem sample_incremental_merkle :
    ([3, 1, 4, 1, 5] : List Nat).length < 2 ^ 64 ∧
      getRoot 0 (appendAll (fun a b : Nat => 2 * a + b + 1) 0 empty [3, 1, 4, 1, 5]) =
        merkle (fun a b : Nat => 2 * a + b + 1) 0 [3, 1, 4, 1, 5] :=
  ⟨by decide, (incremental_merkle_refines_merkle (fun a b : Nat => 2 * a + b + 1) 0).1 _ (by decide)⟩

/-! ## Past `2 ^ 64` digests -/

theorem append_of_nodeCount_two_pow_64 (m : IncrementalMerkle D) (d : D)
    (h : m.nodeCount = 2 ^ 64) : append node zero m d = ⟨2 ^ 64 + 1, [d]⟩ := by
  have hdepth : calcluateMaxDepth (2 ^ 64 + 1) - 1 = 0 := by decide
  simp only [append, h, hdepth, appendLoop]
  rfl

theorem merkleLoop_mem_node :
    ∀ fuel (ids : List D), ids ≠ [] → (∀ x ∈ ids, ∃ a b, x = node a b) →
      ∃ a b, merkleLoop node zero fuel ids = node a b
  | 0, ids, hne, hall => by
    obtain ⟨x, xs, rfl⟩ := List.exists_cons_of_ne_nil hne
    exact hall x List.mem_cons_self
  | fuel + 1, ids, hne, hall => by
    rw [merkleLoop]
    split
    · obtain ⟨x, xs, rfl⟩ := List.exists_cons_of_ne_nil hne
      exact hall x List.mem_cons_self
    · next hlong =>
      refine merkleLoop_mem_node fuel _ ?_ fun x hx => mem_merkleRound node hx
      rw [← List.length_pos_iff, length_merkleRound]
      omega

theorem merkle_eq_node {ids : List D} (h : 2 ≤ ids.length) :
    ∃ a b, merkle node zero ids = node a b := by
  rw [merkle, if_neg (by omega)]
  obtain ⟨n, hn⟩ : ∃ n, ids.length = n + 1 := ⟨ids.length - 1, by omega⟩
  rw [hn, merkleLoop, if_neg (by omega)]
  refine merkleLoop_mem_node node zero n _ ?_ fun x hx => mem_merkleRound node hx
  rw [← List.length_pos_iff, length_merkleRound]
  omega

end

/-- `2 ^ 64 + 1` digests: `next_power_of_2` wraps, the last digest becomes the root, and it is not
the batch root (hashing by `a + b + 1`, zero digests) -/
theorem incremental_root_after_count_overflow :
    getRoot 0 (appendAll (fun a b : Nat => a + b + 1) 0 empty (List.replicate (2 ^ 64) 0 ++ [0])) = 0 ∧
      merkle (fun a b : Nat => a + b + 1) 0 (List.replicate (2 ^ 64) 0 ++ [0]) ≠ 0 := by
  have hcount : (appendAll (fun a b : Nat => a + b + 1) 0 empty (List.replicate (2 ^ 64) 0)).nodeCount =
      2 ^ 64 := by
    rw [appendAll_nodeCount, List.length_replicate]
    rfl
  have hlen : 2 ≤ (List.replicate (2 ^ 64) 0 ++ [0]).length := by
    rw [List.length_append, List.length_replicate, List.length_singleton]
    omega
  constructor
  · rw [appendAll_concat, append_of_nodeCount_two_pow_64 _ _ _ _ hcount]
    rfl
  · obtain ⟨a, b, h⟩ := merkle_eq_node (fun a b : Nat => a + b + 1) 0 hlen
    rw [h]
    omega

end IncrementalMerkle

end Eos
