import Eoscochain.Chain.Irreversible

/-!
# Counting confirmations along a chain of header states

block_header_state.cpp `generate_next` grows `confirm_count` by one entry for the new block,
`required_confs` of the schedule that signs it, and `set_confirmed` takes one from the entries
of the blocks in the range `[block_num - confirmed, block_num]` of the new header, newest first,
stopping at the first entry that reaches zero: that block becomes the proposed irreversible
block, and its entry and every older one are dropped.

* `requiredConfs s`      `required_confs` of the block generated on `s`;
* `Confirms s b`, `confirmations chain b`   the header of `s` confirms `b`, and how many blocks
                         of a chain do;
* `requiredFor chain b`  `required_confs` of the state the block `b` was generated on;
* `tracked s`            the blocks `confirm_count` has an entry for: the newest ones up to the
                         block itself;
* `setConfirmedLoop_range`   the loop of `set_confirmed` on entries named by block numbers;
* `ConfirmInv`           each entry is what its block still requires, the number of blocks of
                         the chain confirming it short of `requiredFor`;
* `confirmInv_chain`     every chain from genesis keeps `ConfirmInv`, while every schedule has
                         at most 383 producers: `required_confs` is then at most 256, which the
                         `uint8_t` entry holds once the block has confirmed itself.

With 384 producers `required_confs` is 257, stored as 1, and the block is proposed irreversible
on its own confirmation (`wide_schedule_confirms_at_once`).
-/

set_option linter.unusedSectionVars false

namespace Eos

open Machine

namespace BlockHeaderState

/-- `required_confs` of the block generated on `s`: two thirds of the producers of its active
schedule, and one -/
def requiredConfs (s : BlockHeaderState) : Nat := s.activeSchedule.producers.length * 2 / 3 + 1

/-- the `confirm_count` that `generate_next` grows on `s`, before any confirmation -/
def grownCount (s : BlockHeaderState) : List Nat :=
  if s.confirmCount.length < maximumTrackedDposConfirmations then
    s.confirmCount ++ [requiredConfs s % 256]
  else s.confirmCount.tail ++ [requiredConfs s % 256]

/-- the header of `s` confirms the block `b`: `b` is in `[block_num - confirmed, block_num]` -/
def Confirms (s : BlockHeaderState) (b : Nat) : Bool :=
  decide (s.blockNum ≤ b + s.header.confirmed) && decide (b ≤ s.blockNum)

/-- the number of blocks of a chain that confirm `b` -/
def confirmations (chain : List BlockHeaderState) (b : Nat) : Nat := chain.countP (Confirms · b)

/-- what the block `b` of a chain requires: `required_confs` of the state it was generated on -/
def requiredFor (chain : List BlockHeaderState) (b : Nat) : Nat :=
  ((chain.find? fun s => s.blockNum + 1 == b).map requiredConfs).getD 0

/-- the blocks `confirm_count` has an entry for, oldest first: the newest ones up to the block
of the state itself -/
def tracked (s : BlockHeaderState) : List Nat :=
  List.range' (s.blockNum + 1 - s.confirmCount.length) s.confirmCount.length

/-! ## The loop of `set_confirmed` -/

theorem setConfirmedLoop_concat (N : Nat) (l : List Nat) (x : Nat) (r : List Nat) (m : Nat) :
    setConfirmedLoop N (l ++ x :: r) (l.length + 1) (m + 1) =
      if dec8 x = 0 then (r, some (N - r.length))
      else setConfirmedLoop N (l ++ dec8 x :: r) l.length m := by
  have hget : (l ++ x :: r).getD l.length 0 = x := by simp
  have hset : (l ++ x :: r).set l.length (dec8 x) = l ++ dec8 x :: r := by simp
  rw [setConfirmedLoop, hget, hset]
  split
  · have hlen : (l ++ dec8 x :: r).length - 1 - l.length = r.length := by simp
    rw [hlen]
    simp
  · rfl

/-- **The loop on entries named by block numbers.**  The entries of the blocks `lo, …, lo+k-1`
are `f b`, those of the blocks after, up to `N`, already visited `dec8 (f b)`; `m` more blocks
may be visited.  Either none of the visited blocks reaches zero, and each is decremented, or the
newest one that does, `z`, is the result, with the entries of the blocks after it -/
theorem setConfirmedLoop_range (N : Nat) (f : Nat → Nat) :
    ∀ (k lo j m : Nat), lo + k + j = N + 1 →
      (setConfirmedLoop N ((List.range' lo k).map f ++ (List.range' (lo + k) j).map (dec8 ∘ f)) k m =
          ((List.range' lo k).map (fun b => if lo + k ≤ b + m then dec8 (f b) else f b) ++
            (List.range' (lo + k) j).map (dec8 ∘ f), none) ∧
        ∀ b ∈ List.range' lo k, lo + k ≤ b + m → dec8 (f b) ≠ 0) ∨
      ∃ z ∈ List.range' lo k, lo + k ≤ z + m ∧ dec8 (f z) = 0 ∧
        (∀ b ∈ List.range' lo k, z < b → dec8 (f b) ≠ 0) ∧
        setConfirmedLoop N ((List.range' lo k).map f ++ (List.range' (lo + k) j).map (dec8 ∘ f)) k m =
          ((List.range' (z + 1) (N - z)).map (dec8 ∘ f), some z)
  | 0, lo, j, m, _ => by
    left
    refine ⟨?_, fun b hb => absurd hb (by simp)⟩
    cases m <;> simp [setConfirmedLoop]
  | k + 1, lo, j, 0, _ => by
    left
    refine ⟨?_, fun b hb hv => absurd hv (by simp at hb ⊢; omega)⟩
    have hf : (List.range' lo (k + 1)).map (fun b => if lo + (k + 1) ≤ b + 0 then dec8 (f b) else f b) =
        (List.range' lo (k + 1)).map f :=
      List.map_congr_left fun b hb => if_neg (by simp at hb; omega)
    rw [hf]
    rfl
  | k + 1, lo, j, m + 1, hN => by
    have hsplit : (List.range' lo (k + 1)).map f ++ (List.range' (lo + (k + 1)) j).map (dec8 ∘ f) =
        (List.range' lo k).map f ++ f (lo + k) :: (List.range' (lo + k + 1) j).map (dec8 ∘ f) := by
      rw [List.range'_1_concat, List.map_append, List.append_assoc, Nat.add_assoc]
      rfl
    have hturn := setConfirmedLoop_concat N ((List.range' lo k).map f) (f (lo + k))
      ((List.range' (lo + k + 1) j).map (dec8 ∘ f)) m
    rw [List.length_map, List.length_range'] at hturn
    rw [hsplit, hturn]
    split
    · next hz =>
      right
      refine ⟨lo + k, by simp, by omega, hz, fun b hb hlt => absurd hlt (by simp at hb; omega), ?_⟩
      rw [List.length_map, List.length_range']
      have hj : N - (lo + k) = j := by omega
      rw [hj, show N - j = lo + k by omega]
    · next hz =>
      have hnext : (List.range' lo k).map f ++ dec8 (f (lo + k)) :: (List.range' (lo + k + 1) j).map (dec8 ∘ f) =
          (List.range' lo k).map f ++ (List.range' (lo + k) (j + 1)).map (dec8 ∘ f) := by
        rw [List.range'_succ]
        rfl
      rw [hnext]
      rcases setConfirmedLoop_range N f k lo (j + 1) m (by omega) with ⟨hres, hne⟩ | ⟨z, hz', hv, hz0, hnewer, hres⟩
      · left
        refine ⟨?_, fun b hb hv => ?_⟩
        · -- the block `lo + k` moves from the blocks not visited to the visited ones
          have hF : (List.range' lo (k + 1)).map
                (fun b => if lo + (k + 1) ≤ b + (m + 1) then dec8 (f b) else f b) =
              (List.range' lo k).map (fun b => if lo + k ≤ b + m then dec8 (f b) else f b) ++
                [dec8 (f (lo + k))] := by
            rw [List.range'_1_concat, List.map_append]
            congr 1
            · exact List.map_congr_left fun b _ =>
                if_congr ⟨fun _ => by omega, fun _ => by omega⟩ rfl rfl
            · rw [List.map_singleton, if_pos (by omega)]
          rw [hres, hF, List.range'_succ (s := lo + k) (n := j)]
          simp only [List.map_cons, List.append_assoc, List.singleton_append, Nat.add_assoc,
            Function.comp]
        · rcases Nat.lt_or_ge b (lo + k) with hlt | hge
          · exact hne b (by simp at hb ⊢; omega) (by omega)
          · rw [show b = lo + k by simp at hb; omega]
            exact hz
      · right
        refine ⟨z, by simp at hz' ⊢; omega, by omega, hz0, fun b hb hlt => ?_, hres⟩
        rcases Nat.lt_or_ge b (lo + k) with hlt' | hge
        · exact hnewer b (by simp at hb ⊢; omega) hlt
        · rw [show b = lo + k by simp at hb; omega]
          exact hz

/-! ## What `next` does to the confirmations -/

section Next
variable {c : Crypto} {s r : BlockHeaderState}

theorem dec8_of_pos {v : Nat} (h : 0 < v) : dec8 v = v - 1 := if_neg (by omega)

theorem dec8_mod {v : Nat} (h1 : 1 ≤ v) (h2 : v ≤ 256) : dec8 (v % 256) = v - 1 := by
  rcases Nat.lt_or_ge v 256 with hlt | hge
  · rw [Nat.mod_eq_of_lt hlt, dec8_of_pos (by omega)]
  · rw [show v = 256 by omega]
    rfl

theorem generateNext_confirm {w : Nat} (h : generateNext c s w = .ok r) :
    r.blockNum = s.blockNum + 1 ∧ r.confirmCount = grownCount s ∧
      r.dposProposedIrreversibleBlocknum = s.dposProposedIrreversibleBlocknum := by
  unfold generateNext at h
  obtain ⟨w', -, h⟩ := bind_eq_ok.mp h
  obtain ⟨pk, -, h⟩ := bind_eq_ok.mp h
  cases h
  exact ⟨rfl, rfl, rfl⟩

theorem maybePromotePending_confirm (s : BlockHeaderState) :
    (maybePromotePending s).1.blockNum = s.blockNum ∧
      (maybePromotePending s).1.confirmCount = s.confirmCount ∧
      (maybePromotePending s).1.dposProposedIrreversibleBlocknum = s.dposProposedIrreversibleBlocknum := by
  unfold maybePromotePending
  split <;> exact ⟨rfl, rfl, rfl⟩

theorem applyNewProducers_confirm {b : Bool} {np : Option ProducerSchedule}
    (h : applyNewProducers c s b np = .ok r) :
    r.blockNum = s.blockNum ∧ r.confirmCount = s.confirmCount ∧
      r.dposProposedIrreversibleBlocknum = s.dposProposedIrreversibleBlocknum ∧
      r.header.confirmed = s.header.confirmed := by
  cases np with
  | none =>
    cases h
    exact ⟨rfl, rfl, rfl, rfl⟩
  | some np =>
    obtain ⟨-, h⟩ := assert_bind_eq_ok.mp h
    unfold setNewProducers at h
    obtain ⟨-, h⟩ := assert_bind_eq_ok.mp h
    obtain ⟨-, h⟩ := assert_bind_eq_ok.mp h
    cases h
    exact ⟨rfl, rfl, rfl, rfl⟩

theorem next_confirm {hd : SignedBlockHeader} {trust : Bool} (h : next c s hd trust = .ok r) :
    r.blockNum = s.blockNum + 1 ∧ r.header.confirmed = hd.confirmed ∧
      r.confirmCount =
        (setConfirmedLoop (s.blockNum + 1) (grownCount s) (grownCount s).length (hd.confirmed + 1)).1 ∧
      r.dposProposedIrreversibleBlocknum =
        (setConfirmedLoop (s.blockNum + 1) (grownCount s) (grownCount s).length
          (hd.confirmed + 1)).2.getD s.dposProposedIrreversibleBlocknum := by
  obtain ⟨g, a, hg, ha, rfl⟩ := next_spec h
  obtain ⟨gn, gcc, gp⟩ := generateNext_confirm hg
  obtain ⟨an, acc, ap, ac⟩ := applyNewProducers_confirm ha
  obtain ⟨pn, pcc, pp⟩ := maybePromotePending_confirm (setConfirmed g hd.confirmed)
  have ph := maybePromotePending_header (setConfirmed g hd.confirmed)
  refine ⟨?_, ?_, ?_, ?_⟩
  · rw [an, pn, setConfirmed, gn]
  · show a.header.confirmed = hd.confirmed
    rw [ac, ph]
    rfl
  · rw [acc, pcc, setConfirmed, gn, gcc]
  · rw [ap, pp, setConfirmed, gn, gcc, gp]

end Next

/-! ## Chains and their counts -/

/-- the states of a chain of headers on `g`, newest first -/
inductive HeaderChain (c : Crypto) (g : BlockHeaderState) : List BlockHeaderState → Prop
  | base : HeaderChain c g [g]
  | step {s s' : BlockHeaderState} {ss : List BlockHeaderState} (hd : SignedBlockHeader × Bool)
      (h : HeaderChain c g (s :: ss)) (hs : applyHeader c s hd = .ok s') :
      HeaderChain c g (s' :: s :: ss)

/-- the states a list of headers reaches on `g`, newest first, up to the first that fails -/
def statesOf (c : Crypto) (g : BlockHeaderState) : List (SignedBlockHeader × Bool) → List BlockHeaderState
  | [] => [g]
  | hd :: rest =>
    match applyHeader c g hd with
    | .ok s => statesOf c s rest ++ [g]
    | .error _ => [g]

theorem HeaderChain.append_base {c : Crypto} {g s : BlockHeaderState} {hd : SignedBlockHeader × Bool}
    (hs : applyHeader c g hd = .ok s) {l : List BlockHeaderState} (h : HeaderChain c s l) :
    HeaderChain c g (l ++ [g]) := by
  induction h with
  | base => exact .step hd .base hs
  | step hd' _ hs' ih => exact .step hd' ih hs'

theorem headerChain_statesOf (c : Crypto) :
    ∀ (hs : List (SignedBlockHeader × Bool)) (g : BlockHeaderState), HeaderChain c g (statesOf c g hs)
  | [], _ => .base
  | hd :: rest, g => by
    unfold statesOf
    split
    · next s hs => exact (headerChain_statesOf c rest s).append_base hs
    · exact .base

theorem HeaderChain.pairwise {c : Crypto} {g : BlockHeaderState} {chain : List BlockHeaderState}
    (h : HeaderChain c g chain) : chain.Pairwise fun t t' => t'.blockNum < t.blockNum := by
  induction h with
  | base => exact List.pairwise_singleton _ _
  | step hd _ hs ih =>
    have hn := (next_confirm hs).1
    refine List.pairwise_cons.mpr ⟨fun t ht => ?_, ih⟩
    rcases List.mem_cons.mp ht with rfl | ht
    · omega
    · have := (List.pairwise_cons.mp ih).1 t ht
      omega

section Counts
variable {t : BlockHeaderState} {chain : List BlockHeaderState} {b : Nat}

theorem confirms_iff : Confirms t b = true ↔ t.blockNum ≤ b + t.header.confirmed ∧ b ≤ t.blockNum := by
  simp [Confirms]

theorem confirmations_cons :
    confirmations (t :: chain) b = confirmations chain b + if Confirms t b then 1 else 0 :=
  List.countP_cons

theorem confirmations_eq_zero (h : ∀ t ∈ chain, t.blockNum < b) : confirmations chain b = 0 :=
  List.countP_eq_zero.mpr fun t ht hc => by
    have := h t ht
    have := (confirms_iff.mp hc).2
    omega

theorem requiredFor_cons_of_ne (h : t.blockNum + 1 ≠ b) :
    requiredFor (t :: chain) b = requiredFor chain b := by
  rw [requiredFor, List.find?_cons_of_neg (by simpa using h)]
  rfl

theorem requiredFor_cons_self : requiredFor (t :: chain) (t.blockNum + 1) = requiredConfs t := by
  rw [requiredFor, List.find?_cons_of_pos (by simp)]
  rfl

end Counts

/-! ## The invariant -/

/-- what the block `b` of a chain still requires -/
def remaining (chain : List BlockHeaderState) (b : Nat) : Nat :=
  requiredFor chain b - confirmations chain b

/-- `confirm_count` along a chain whose newest state is `s`: one entry for each block of the
window above the proposed irreversible block, what that block still requires; each of those
blocks has confirmed itself and is short of what it requires -/
structure ConfirmInv (chain : List BlockHeaderState) (s : BlockHeaderState) : Prop where
  window : s.dposProposedIrreversibleBlocknum + s.confirmCount.length ≤ s.blockNum
  bounded : s.confirmCount.length ≤ maximumTrackedDposConfirmations
  entries : s.confirmCount = (tracked s).map (remaining chain)
  pending : ∀ b ∈ tracked s, 0 < confirmations chain b ∧ confirmations chain b < requiredFor chain b

/-- the entry of the block `b` once `generate_next` has grown `confirm_count` on `s`: the new
block's `required_confs` as a `uint8_t`, or what `b` still requires -/
def grownEntry (chain : List BlockHeaderState) (s : BlockHeaderState) (b : Nat) : Nat :=
  if b = s.blockNum + 1 then requiredConfs s % 256 else remaining chain b

/-- the oldest block of the window once `generate_next` has grown `confirm_count` on `s` -/
def grownStart (s : BlockHeaderState) : Nat :=
  if s.confirmCount.length < maximumTrackedDposConfirmations then
    s.blockNum + 1 - s.confirmCount.length
  else s.blockNum + 2 - s.confirmCount.length

/-- what a step from `s` to `s'` does to the proposed irreversible block, on the chain of `s`:
it never goes down; every block of the window that `s'` brings to what it requires is at most
the new one; and when it moves, it moves to such a block, and the entries of that block and of
every older one are gone -/
structure ProposedStep (chain : List BlockHeaderState) (s s' : BlockHeaderState) : Prop where
  mono : s.dposProposedIrreversibleBlocknum ≤ s'.dposProposedIrreversibleBlocknum
  reached : ∀ b, (b ∈ tracked s ∨ b = s'.blockNum) →
    s'.blockNum < b + maximumTrackedDposConfirmations → Confirms s' b = true →
    confirmations (s' :: chain) b = requiredFor (s' :: chain) b →
    b ≤ s'.dposProposedIrreversibleBlocknum
  set : s'.dposProposedIrreversibleBlocknum ≠ s.dposProposedIrreversibleBlocknum →
    Confirms s' s'.dposProposedIrreversibleBlocknum = true ∧
    confirmations (s' :: chain) s'.dposProposedIrreversibleBlocknum =
      requiredFor (s' :: chain) s'.dposProposedIrreversibleBlocknum ∧
    tracked s' = List.range' (s'.dposProposedIrreversibleBlocknum + 1)
      (s'.blockNum - s'.dposProposedIrreversibleBlocknum)

section Step
variable {c : Crypto} {s s' : BlockHeaderState} {ss : List BlockHeaderState}

theorem mem_tracked {t : BlockHeaderState} {b : Nat} (h : t.confirmCount.length ≤ t.blockNum) :
    b ∈ tracked t ↔ t.blockNum + 1 ≤ b + t.confirmCount.length ∧ b ≤ t.blockNum := by
  rw [tracked, List.mem_range'_1]
  omega

theorem grownCount_eq (hinv : ConfirmInv (s :: ss) s) :
    grownCount s =
      (List.range' (grownStart s) (s.blockNum + 2 - grownStart s)).map (grownEntry (s :: ss) s) := by
  have hw := hinv.window
  obtain ⟨L, hL⟩ : ∃ L, s.confirmCount.length = L := ⟨_, rfl⟩
  have hold : s.confirmCount = (List.range' (s.blockNum + 1 - L) L).map (grownEntry (s :: ss) s) := by
    conv_lhs => rw [hinv.entries, tracked, hL]
    exact List.map_congr_left fun b hb => by
      rw [List.mem_range'_1] at hb
      rw [grownEntry, if_neg (by omega)]
  have hnew : requiredConfs s % 256 = grownEntry (s :: ss) s (s.blockNum + 1) := by
    rw [grownEntry, if_pos rfl]
  rw [hL] at hw
  unfold grownCount grownStart
  rw [hL]
  split
  · rw [hold, hnew, show s.blockNum + 2 - (s.blockNum + 1 - L) = L + 1 by omega,
      List.range'_1_concat, List.map_append, List.map_singleton,
      show s.blockNum + 1 - L + L = s.blockNum + 1 by omega]
  · -- a full window drops its oldest entry
    next hlong =>
    rw [maximumTrackedDposConfirmations] at hlong
    rw [hold, hnew, ← List.map_tail, List.tail_range',
      show s.blockNum + 2 - (s.blockNum + 2 - L) = L - 1 + 1 by omega,
      List.range'_1_concat, List.map_append, List.map_singleton,
      show s.blockNum + 2 - L + (L - 1) = s.blockNum + 1 by omega,
      show s.blockNum + 1 - L + 1 = s.blockNum + 2 - L by omega]

theorem mem_grownWindow (hinv : ConfirmInv (s :: ss) s) {b : Nat} :
    (grownStart s ≤ b ∧ b ≤ s.blockNum + 1) ↔
      (b ∈ tracked s ∨ b = s.blockNum + 1) ∧ s.blockNum + 1 < b + maximumTrackedDposConfirmations := by
  have hw := hinv.window
  have hb := hinv.bounded
  rw [mem_tracked (by omega), grownStart]
  rw [maximumTrackedDposConfirmations] at hb ⊢
  split <;> omega

theorem grownEntry_step (hinv : ConfirmInv (s :: ss) s) (hbelow : ∀ t ∈ ss, t.blockNum < s.blockNum)
    (hreq : requiredConfs s ≤ 256) (hn : s'.blockNum = s.blockNum + 1) {b : Nat}
    (hb : b ∈ tracked s ∨ b = s.blockNum + 1) :
    0 < confirmations (s' :: s :: ss) b ∧
      (Confirms s' b = true → dec8 (grownEntry (s :: ss) s b) = remaining (s' :: s :: ss) b ∧
        confirmations (s' :: s :: ss) b ≤ requiredFor (s' :: s :: ss) b) ∧
      (Confirms s' b = false → grownEntry (s :: ss) s b = remaining (s' :: s :: ss) b ∧
        confirmations (s' :: s :: ss) b < requiredFor (s' :: s :: ss) b) := by
  have hw := hinv.window
  rcases hb with hb | rfl
  · -- a tracked block: one more confirmation if `s'` confirms it
    have hle := ((mem_tracked (by omega)).mp hb).2
    obtain ⟨hpos, hlt⟩ := hinv.pending b hb
    have hreq' : requiredFor (s' :: s :: ss) b = requiredFor (s :: ss) b :=
      requiredFor_cons_of_ne (by omega)
    rw [grownEntry, if_neg (by omega), remaining, remaining, hreq', confirmations_cons]
    refine ⟨by omega, fun hc => ?_, fun hc => ?_⟩
    · rw [if_pos hc, dec8_of_pos (by omega)]
      exact ⟨by omega, by omega⟩
    · rw [if_neg (by simp [hc])]
      exact ⟨by omega, by omega⟩
  · -- the new block: no block of the chain before `s'` confirms it, and `s'` does
    have hzero : confirmations (s :: ss) (s.blockNum + 1) = 0 :=
      confirmations_eq_zero fun t ht => by
        rcases List.mem_cons.mp ht with rfl | ht
        · omega
        · have := hbelow t ht
          omega
    have hself : Confirms s' (s.blockNum + 1) = true := confirms_iff.mpr ⟨by omega, by omega⟩
    have hreq' : requiredFor (s' :: s :: ss) (s.blockNum + 1) = requiredConfs s := by
      rw [requiredFor_cons_of_ne (by omega), requiredFor_cons_self]
    have hone : confirmations (s' :: s :: ss) (s.blockNum + 1) = 1 := by
      rw [confirmations_cons, hzero, if_pos hself]
    have hpos : 1 ≤ requiredConfs s := Nat.le_add_left 1 _
    rw [grownEntry, if_pos rfl, remaining, hreq', hone]
    refine ⟨Nat.one_pos, fun _ => ⟨dec8_mod hpos hreq, hpos⟩, fun hc => ?_⟩
    rw [hself] at hc
    cases hc

/-- **Step lemma.**  One more block `s'` on `s` keeps `ConfirmInv` on the longer chain, and moves
the proposed irreversible block as `ProposedStep` says -/
theorem confirmInv_next {hd : SignedBlockHeader} {trust : Bool} (hinv : ConfirmInv (s :: ss) s)
    (hbelow : ∀ t ∈ ss, t.blockNum < s.blockNum) (hreq : requiredConfs s ≤ 256)
    (h : next c s hd trust = .ok s') :
    ConfirmInv (s' :: s :: ss) s' ∧ ProposedStep (s :: ss) s s' := by
  obtain ⟨hn, hconf, hcc, hprop⟩ := next_confirm h
  have hw := hinv.window
  have hbd := hinv.bounded
  obtain ⟨lo, hlo⟩ : ∃ lo, grownStart s = lo := ⟨_, rfl⟩
  have hlo1 : s.dposProposedIrreversibleBlocknum < lo ∧ lo ≤ s.blockNum + 1 ∧
      s.blockNum + 2 - lo ≤ maximumTrackedDposConfirmations := by
    rw [← hlo, grownStart]
    rw [maximumTrackedDposConfirmations] at hbd ⊢
    split <;> omega
  have hwin : ∀ b ∈ List.range' lo (s.blockNum + 2 - lo), b ∈ tracked s ∨ b = s.blockNum + 1 :=
    fun b hb => ((mem_grownWindow hinv).mp (by rw [hlo]; simp at hb; omega)).1
  have hgrown : grownCount s = (List.range' lo (s.blockNum + 2 - lo)).map (grownEntry (s :: ss) s) :=
    hlo ▸ grownCount_eq hinv
  have hvis : ∀ b, b ≤ s.blockNum + 1 →
      (lo + (s.blockNum + 2 - lo) ≤ b + (hd.confirmed + 1) ↔ Confirms s' b = true) := by
    intro b hb
    rw [confirms_iff, hn, hconf]
    omega
  have hdone : ∀ b ∈ List.range' lo (s.blockNum + 2 - lo), Confirms s' b = true →
      dec8 (grownEntry (s :: ss) s b) = remaining (s' :: s :: ss) b ∧
        (dec8 (grownEntry (s :: ss) s b) = 0 ↔
          confirmations (s' :: s :: ss) b = requiredFor (s' :: s :: ss) b) := by
    intro b hb hc
    obtain ⟨-, hv, -⟩ := grownEntry_step hinv hbelow hreq hn (hwin b hb)
    obtain ⟨hrem, hle⟩ := hv hc
    refine ⟨hrem, ?_⟩
    rw [hrem, remaining]
    omega
  have hloop := setConfirmedLoop_range (s.blockNum + 1) (grownEntry (s :: ss) s)
    (s.blockNum + 2 - lo) lo 0 (hd.confirmed + 1) (by omega)
  simp only [List.range'_zero, List.map_nil, List.append_nil] at hloop
  rw [hgrown, List.length_map, List.length_range'] at hcc hprop
  rcases hloop with ⟨hres, hne⟩ | ⟨z, hz, hzv, hz0, hnewer, hres⟩
  · -- no block reaches what it requires: every visited entry is decremented
    rw [hres] at hcc hprop
    dsimp only [Option.getD_none] at hprop
    have hent : s'.confirmCount =
        (List.range' lo (s.blockNum + 2 - lo)).map (remaining (s' :: s :: ss)) := by
      rw [hcc]
      refine List.map_congr_left fun b hb => ?_
      have hble : b ≤ s.blockNum + 1 := by simp at hb; omega
      by_cases hc : Confirms s' b = true
      · rw [if_pos ((hvis b hble).mpr hc)]
        exact (hdone b hb hc).1
      · rw [if_neg (mt (hvis b hble).mp hc)]
        exact ((grownEntry_step hinv hbelow hreq hn (hwin b hb)).2.2 (by simpa using hc)).1
    have htr : tracked s' = List.range' lo (s.blockNum + 2 - lo) := by
      rw [tracked, hent, List.length_map, List.length_range', hn]
      congr 1
      omega
    refine ⟨⟨?_, ?_, by rw [htr]; exact hent, fun b hb => ?_⟩, ⟨?_, ?_, ?_⟩⟩
    · rw [hent, List.length_map, List.length_range', hn, hprop]
      omega
    · rw [hent, List.length_map, List.length_range']
      exact hlo1.2.2
    · rw [htr] at hb
      have hble : b ≤ s.blockNum + 1 := by simp at hb; omega
      obtain ⟨hpos, hv, hnv⟩ := grownEntry_step hinv hbelow hreq hn (hwin b hb)
      refine ⟨hpos, ?_⟩
      by_cases hc : Confirms s' b = true
      · have := hne b hb ((hvis b hble).mpr hc)
        rw [Ne, (hdone b hb hc).2] at this
        have := (hv hc).2
        omega
      · exact (hnv (by simpa using hc)).2
    · rw [hprop]
    · intro b hb hnew hc hreached
      have hwb : b ∈ List.range' lo (s.blockNum + 2 - lo) := by
        have := (mem_grownWindow hinv).mpr ⟨by rw [← hn]; exact hb, by omega⟩
        rw [hlo] at this
        simp
        omega
      exact absurd ((hdone b hwb hc).2.mpr hreached)
        (hne b hwb ((hvis b (by simp at hwb; omega)).mpr hc))
    · intro hmoved
      exact absurd hprop hmoved
  · -- the newest block that reaches what it requires becomes the proposed irreversible block
    rw [hres] at hcc hprop
    dsimp only [Option.getD_some] at hprop
    have hzle : z ≤ s.blockNum + 1 := by simp at hz; omega
    have hzc : Confirms s' z = true := (hvis z hzle).mp hzv
    have hafter : ∀ b ∈ List.range' (z + 1) (s.blockNum + 1 - z),
        b ∈ List.range' lo (s.blockNum + 2 - lo) ∧ Confirms s' b = true := by
      intro b hb
      simp at hb hz
      exact ⟨by simp; omega, (hvis b (by omega)).mp (by omega)⟩
    have hent : s'.confirmCount =
        (List.range' (z + 1) (s.blockNum + 1 - z)).map (remaining (s' :: s :: ss)) := by
      rw [hcc]
      exact List.map_congr_left fun b hb => (hdone b (hafter b hb).1 (hafter b hb).2).1
    have htr : tracked s' = List.range' (z + 1) (s.blockNum + 1 - z) := by
      rw [tracked, hent, List.length_map, List.length_range', hn]
      congr 1
      omega
    refine ⟨⟨?_, ?_, by rw [htr]; exact hent, fun b hb => ?_⟩, ⟨?_, ?_, fun _ => ?_⟩⟩
    · rw [hent, List.length_map, List.length_range', hn, hprop]
      omega
    · rw [hent, List.length_map, List.length_range']
      have := hlo1.2.2
      simp at hz
      omega
    · rw [htr] at hb
      obtain ⟨hwb, hc⟩ := hafter b hb
      obtain ⟨hpos, hv, -⟩ := grownEntry_step hinv hbelow hreq hn (hwin b hwb)
      refine ⟨hpos, ?_⟩
      have := hnewer b hwb (by simp at hb; omega)
      rw [Ne, (hdone b hwb hc).2] at this
      have := (hv hc).2
      omega
    · rw [hprop]
      simp at hz
      omega
    · intro b hb hnew hc hreached
      have hwb : b ∈ List.range' lo (s.blockNum + 2 - lo) := by
        have := (mem_grownWindow hinv).mpr ⟨by rw [← hn]; exact hb, by omega⟩
        rw [hlo] at this
        simp
        omega
      rw [hprop]
      by_contra hgt
      exact hnewer b hwb (by omega) ((hdone b hwb hc).2.mpr hreached)
    · rw [hprop]
      refine ⟨hzc, (hdone z hz hzc).2.mp hz0, ?_⟩
      rw [htr, hn]

end Step

/-! ## Along a chain -/

theorem requiredConfs_le {s : BlockHeaderState} (h : s.activeSchedule.producers.length ≤ 383) :
    requiredConfs s ≤ 256 := by
  unfold requiredConfs
  omega

/-- **Run lemma.**  Along a chain on a state that keeps `ConfirmInv`, while every schedule has at
most 383 producers, every state keeps it, the proposed irreversible block never goes down, and
each step moves it as `ProposedStep` says -/
theorem confirmInv_chain {c : Crypto} {g s : BlockHeaderState} {chain : List BlockHeaderState}
    (h : HeaderChain c g (s :: chain)) (hg : ConfirmInv [g] g)
    (hwide : ∀ t ∈ s :: chain, t.activeSchedule.producers.length ≤ 383) :
    ConfirmInv (s :: chain) s ∧
      (s :: chain).Pairwise (fun t t' =>
        t'.dposProposedIrreversibleBlocknum ≤ t.dposProposedIrreversibleBlocknum) ∧
      ∀ p rest, chain = p :: rest → ProposedStep chain p s := by
  generalize hl : s :: chain = l at h
  induction h generalizing s chain with
  | base =>
    obtain ⟨rfl, rfl⟩ := List.cons.inj hl
    exact ⟨hg, List.pairwise_singleton _ _, fun _ _ h => nomatch h⟩
  | step hd hprev hs ih =>
    obtain ⟨rfl, rfl⟩ := List.cons.inj hl
    obtain ⟨hinv, hmono, -⟩ := ih (fun t ht => hwide t (List.mem_cons_of_mem _ ht)) rfl
    have hbelow := (List.pairwise_cons.mp hprev.pairwise).1
    obtain ⟨hinv', hstep⟩ := confirmInv_next hinv hbelow
      (requiredConfs_le (hwide _ (List.mem_cons_of_mem _ List.mem_cons_self))) hs
    refine ⟨hinv', List.pairwise_cons.mpr ⟨fun t ht => ?_, hmono⟩, fun p rest heq => ?_⟩
    · rcases List.mem_cons.mp ht with rfl | ht
      · exact hstep.mono
      · exact ((List.pairwise_cons.mp hmono).1 t ht).trans hstep.mono
    · obtain ⟨rfl, rfl⟩ := List.cons.inj heq
      exact hstep

theorem confirmInv_genesis (c : Crypto) (initialKey initialTimestamp chainId : Nat) :
    ConfirmInv [genesisState c initialKey initialTimestamp chainId]
      (genesisState c initialKey initialTimestamp chainId) where
  window := Nat.zero_le _
  bounded := Nat.zero_le _
  entries := rfl
  pending := fun _ hb => absurd hb List.not_mem_nil

/-- **Confirmations are counted exactly.**  Along every chain of header states from genesis in
which every active schedule has at most 383 producers: `confirm_count` has one entry for each
block of the newest window above the proposed irreversible block, the `required_confs` of the
state its block was generated on less the number of blocks of the chain that confirm it, which
is at least one and short of what it requires; the proposed irreversible block never goes down;
and at each step it moves only to the newest block of the window that reaches what it requires,
no such block being above it, and the entries of that block and every older one are dropped -/
theorem confirm_count_exact {c : Crypto} {initialKey initialTimestamp chainId : Nat}
    {s : BlockHeaderState} {chain : List BlockHeaderState}
    (h : HeaderChain c (genesisState c initialKey initialTimestamp chainId) (s :: chain))
    (hwide : ∀ t ∈ s :: chain, t.activeSchedule.producers.length ≤ 383) :
    ConfirmInv (s :: chain) s ∧
      (s :: chain).Pairwise (fun t t' =>
        t'.dposProposedIrreversibleBlocknum ≤ t.dposProposedIrreversibleBlocknum) ∧
      ∀ p rest, chain = p :: rest → ProposedStep chain p s :=
  confirmInv_chain h (confirmInv_genesis c initialKey initialTimestamp chainId) hwide

/-- the states of the nine honest blocks of `sampleSlots`, newest first -/
def sampleChain : List BlockHeaderState :=
  statesOf sampleCrypto sampleGenesis (honestRun sampleCrypto sampleGenesis sampleSlots)

theorem sample_confirm_count :
    HeaderChain sampleCrypto (genesisState sampleCrypto 10 0 0)
        (sampleChain.headD sampleGenesis :: sampleChain.tail) ∧
      (∀ t ∈ sampleChain.headD sampleGenesis :: sampleChain.tail,
        t.activeSchedule.producers.length ≤ 383) ∧
      ConfirmInv (sampleChain.headD sampleGenesis :: sampleChain.tail) (sampleChain.headD sampleGenesis) ∧
      (sampleChain.headD sampleGenesis :: sampleChain.tail).Pairwise (fun t t' =>
        t'.dposProposedIrreversibleBlocknum ≤ t.dposProposedIrreversibleBlocknum) ∧
      ∀ p rest, sampleChain.tail = p :: rest → ProposedStep sampleChain.tail p (sampleChain.headD sampleGenesis) :=
  have hsplit : sampleChain = sampleChain.headD sampleGenesis :: sampleChain.tail := by decide
  have hchain : HeaderChain sampleCrypto (genesisState sampleCrypto 10 0 0)
      (sampleChain.headD sampleGenesis :: sampleChain.tail) :=
    hsplit ▸ headerChain_statesOf sampleCrypto _ sampleGenesis
  have hwide : ∀ t ∈ sampleChain.headD sampleGenesis :: sampleChain.tail,
      t.activeSchedule.producers.length ≤ 383 := by decide
  ⟨hchain, hwide, confirm_count_exact hchain hwide⟩

/-- a schedule of 384 producers, the system account's proposal at block 2 -/
def wideSchedule : ProducerSchedule := ⟨1, List.replicate 384 producerA⟩

/-- the system account proposes `wideSchedule`, promoted at block 4; `A` produces block 5 -/
def wideSlots : List (Nat × Nat × Option ProducerSchedule) :=
  [(1, 0, none), (2, 0, some wideSchedule), (3, 0, none), (48, 0, none)]

def wideChain : List BlockHeaderState :=
  statesOf sampleCrypto sampleGenesis (honestRun sampleCrypto sampleGenesis wideSlots)

/-- Block 5 is generated on a state with 384 active producers: its `required_confs` is 257, stored
as 1, and its own confirmation makes it the proposed irreversible block, confirmed by one block
of the chain -/
theorem wide_schedule_confirms_at_once :
    HeaderChain sampleCrypto sampleGenesis wideChain ∧
      (wideChain.head?.map fun s => (s.blockNum, s.dposProposedIrreversibleBlocknum)) = some (5, 5) ∧
      requiredFor wideChain 5 = 257 ∧ confirmations wideChain 5 = 1 :=
  ⟨headerChain_statesOf _ _ _, by decide +kernel, by decide +kernel, by decide +kernel⟩

end BlockHeaderState

end Eos
