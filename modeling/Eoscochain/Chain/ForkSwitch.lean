import Eoscochain.Chain.ForkDatabase
import Eoscochain.Lib.Table

/-!
# Switching forks along two branches

libraries/chain fork_database.cpp `fetch_branch_from`, and controller.cpp `maybe_switch_forks`
with the pops and replays it makes.

A `Branch` of the fork database is a list of stored blocks, newest first, each linked by
`previous` to the next one and one number above it, the last linked to a block `c` of number
`n`, stored or already pruned.  Two branches down to one `c` that share no block meet at `c`:
their chains of ancestors first meet there.  Then `fetch_branch_from` returns exactly the two
branches, whichever block is higher, and also when one block is the other or lies on the
other's branch; the pops of the old branch reach `c` when it is stored and fail at the pruned
root when it is not; and the new branch replayed ends at its newest block.

* `getBlock_markInCurrentChain_of_ne`, `isSome_getBlock_markInCurrentChain`   lookups after
                     `mark_in_current_chain`, which changes one row and may relink it;
* `walkDown_branch`, `walkBoth_branch`   the loops of `fetch_branch_from` along branches;
* `fetchBranchFrom_branches`   the two branches, from the stored ones;
* `foldlM_popBranchBlock`, `foldlM_applyBranchBlock`   the pops of one branch and the replay
                     of the other;
* `maybeSwitchForks_reaches_head`   the whole switch ends at the head of the fork database.
-/

set_option linter.unusedSectionVars false

namespace Eos.ForkDatabase

open Machine

/-- `xs`, newest first, is a branch of `db` built on the block `c` of number `n`: each block is
stored, links by `previous` to the next one and is one number above it, and the last links to
`c`, which may be stored or pruned -/
inductive Branch (db : ForkDb) : List BlockState → Nat → Nat → Prop
  | last {x : BlockState} {c n : Nat} (hx : getBlock db x.id = some x)
      (hc : x.header.previous = c) (hn : x.blockNum = n + 1) : Branch db [x] c n
  | cons {x y : BlockState} {ys : List BlockState} {c n : Nat} (hx : getBlock db x.id = some x)
      (hl : x.header.previous = y.id) (hn : x.blockNum = y.blockNum + 1)
      (h : Branch db (y :: ys) c n) : Branch db (x :: y :: ys) c n

/-! ## Lookups by id -/

section Lookups
variable {db db' : ForkDb} {j : Nat}

theorem getBlock_id {s : BlockState} (h : getBlock db j = some s) : s.id = j := by
  unfold getBlock at h
  obtain ⟨r, hr, rfl⟩ := Option.map_eq_some_iff.mp h
  simpa using List.find?_some hr

theorem mem_of_getBlock {s : BlockState} (h : getBlock db j = some s) :
    s ∈ db.index.map (·.state) := by
  unfold getBlock at h
  obtain ⟨r, hr, rfl⟩ := Option.map_eq_some_iff.mp h
  exact List.mem_map_of_mem (List.mem_of_find?_eq_some hr)

theorem isSome_getBlock_iff : (getBlock db j).isSome ↔ j ∈ db.index.map (·.state.id) := by
  simp [getBlock]

theorem isSome_findRow (index : List Row) (j : Nat) :
    (findRow index j).isSome = (index.find? (·.state.id == j)).isSome := by
  rw [findRow, Bool.eq_iff_iff, List.findIdx?_isSome, List.find?_isSome, List.any_eq_true]

theorem id_of_findRow {index : List Row} {i : Nat} {r : Row} (h : findRow index j = some i)
    (hr : index[i]? = some r) : r.state.id = j := by
  obtain ⟨hi, hp, -⟩ := List.findIdx?_eq_some_iff_getElem.mp h
  rw [List.getElem?_eq_getElem hi, Option.some.injEq] at hr
  subst hr
  simpa using hp

theorem find?_link_of_neg {p : Row → Bool} {x : Row} (hx : p x = false) :
    ∀ l : List Row, (link x l).find? p = l.find? p
  | [] => by
    rw [link, List.find?_cons_of_neg (by simp [hx])]
  | r :: rs => by
    unfold link
    split
    · rw [List.find?_cons_of_neg (by simp [hx])]
    · rw [List.find?_cons, List.find?_cons, find?_link_of_neg hx rs]

theorem find?_modifyRow_of_neg {l : List Row} {i : Nat} {r : Row} {f : BlockState → BlockState}
    {p : Row → Bool} (hi : l[i]? = some r) (hr : p r = false)
    (hf : p { r with state := f r.state } = false) : (modifyRow l i f).find? p = l.find? p := by
  unfold modifyRow
  rw [hi]
  dsimp only
  split
  · exact Table.find?_set_of_neg hi hr hf
  · rw [find?_link_of_neg hf, Table.find?_eraseIdx_of_neg hi hr]

theorem ids_modifyRow_perm {l : List Row} {i : Nat} {r : Row} {f : BlockState → BlockState}
    (hi : l[i]? = some r) (hf : (f r.state).id = r.state.id) :
    ((modifyRow l i f).map (·.state.id)).Perm (l.map (·.state.id)) := by
  obtain ⟨hlt, hget⟩ := List.getElem?_eq_some_iff.mp hi
  have hset : (l.set i { r with state := f r.state }).map (·.state.id) = l.map (·.state.id) := by
    apply List.ext_getElem (by simp)
    intro k h1 h2
    simp only [List.getElem_map, List.getElem_set]
    split
    · next hk =>
      subst hk
      rw [hf, hget]
    · rfl
  rw [← hset]
  apply List.Perm.map
  unfold modifyRow
  rw [hi]
  dsimp only
  split
  · exact .refl _
  · exact (link_perm _ _).trans (List.set_perm_cons_eraseIdx hlt _).symm

variable {x : BlockState} {flag : Bool}

theorem markInCurrentChain_ok (flag : Bool) (hx : (getBlock db x.id).isSome) :
    ∃ db', markInCurrentChain db x flag = .ok db' := by
  have hrow : (findRow db.index x.id).isSome := by
    rw [isSome_findRow]
    simpa [getBlock] using hx
  obtain ⟨i, hi⟩ := Option.isSome_iff_exists.mp hrow
  obtain ⟨hlt, -⟩ := List.findIdx?_eq_some_iff_getElem.mp hi
  unfold markInCurrentChain
  rw [hi]
  dsimp only
  rw [List.getElem?_eq_getElem hlt]
  dsimp only
  split
  · exact ⟨_, rfl⟩
  · exact ⟨_, rfl⟩

theorem getBlock_markInCurrentChain_of_ne (h : markInCurrentChain db x flag = .ok db')
    (hj : j ≠ x.id) : getBlock db' j = getBlock db j := by
  unfold markInCurrentChain at h
  split at h
  · next i hi =>
    split at h
    · next r hr =>
      have hid := id_of_findRow hi hr
      split at h
      · cases h
        rfl
      · cases h
        unfold getBlock
        rw [find?_modifyRow_of_neg hr (by simp [hid, Ne.symm hj]) (by simp [hid, Ne.symm hj])]
    · cases h
      rfl
  · split at h
    · cases h
      rfl
    · cases h

theorem isSome_getBlock_markInCurrentChain (h : markInCurrentChain db x flag = .ok db') (j : Nat) :
    (getBlock db' j).isSome = (getBlock db j).isSome := by
  unfold markInCurrentChain at h
  split at h
  · next i hi =>
    split at h
    · next r hr =>
      split at h
      · cases h
        rfl
      · cases h
        rw [Bool.eq_iff_iff, isSome_getBlock_iff, isSome_getBlock_iff]
        exact (ids_modifyRow_perm (f := fun s => { s with inCurrentChain := flag }) hr rfl).mem_iff
    · cases h
      rfl
  · split at h
    · cases h
      rfl
    · cases h

theorem ids_modify {l : List Row} (i : Nat) {f : Row → Row} (hf : ∀ r, (f r).state.id = r.state.id) :
    (l.modify i f).map (·.state.id) = l.map (·.state.id) := by
  apply List.ext_getElem (by simp)
  intro k h1 h2
  simp only [List.getElem_map, List.getElem_modify]
  split
  · exact hf _
  · rfl

theorem isSome_getBlock_setValidated (id j : Nat) :
    (getBlock (setValidated db id) j).isSome = (getBlock db j).isSome := by
  unfold setValidated
  split
  · rw [Bool.eq_iff_iff, isSome_getBlock_iff, isSome_getBlock_iff]
    dsimp only
    rw [ids_modify]
    intro r
    rfl
  · rfl

end Lookups

/-! ## Branches -/

namespace Branch

variable {db db' : ForkDb} {c n : Nat} {x y : BlockState} {xs ys : List BlockState}

theorem tail (h : Branch db (x :: y :: ys) c n) : Branch db (y :: ys) c n := by
  cases h with
  | cons _ _ _ h => exact h

theorem previous_eq (h : Branch db (x :: y :: ys) c n) : x.header.previous = y.id := by
  cases h with
  | cons _ hl _ _ => exact hl

theorem blockNum_succ (h : Branch db (x :: y :: ys) c n) : x.blockNum = y.blockNum + 1 := by
  cases h with
  | cons _ _ hn _ => exact hn

theorem previous_of_last (h : Branch db [x] c n) : x.header.previous = c := by
  cases h with
  | last _ hc _ => exact hc

theorem stored (h : Branch db xs c n) : ∀ y ∈ xs, getBlock db y.id = some y := by
  induction h with
  | last hx =>
    intro y hy
    rw [List.mem_singleton.mp hy]
    exact hx
  | cons hx _ _ _ ih =>
    intro y hy
    rcases List.mem_cons.mp hy with rfl | hy
    · exact hx
    · exact ih y hy

theorem blockNum : ∀ {xs : List BlockState} {x : BlockState}, Branch db (x :: xs) c n →
    x.blockNum = n + 1 + xs.length
  | [], _, h => by
    cases h with
    | last _ _ hn => simpa using hn
  | _ :: _, _, h => by
    rw [h.blockNum_succ, blockNum h.tail, List.length_cons]
    omega

theorem pairwise (h : Branch db xs c n) : xs.Pairwise fun x y => y.blockNum < x.blockNum := by
  induction h with
  | last => exact List.pairwise_singleton _ _
  | cons _ _ hn _ ih =>
    refine List.pairwise_cons.mpr ⟨fun z hz => ?_, ih⟩
    rcases List.mem_cons.mp hz with rfl | hz
    · omega
    · have := (List.pairwise_cons.mp ih).1 z hz
      omega

theorem length_le (h : Branch db xs c n) : xs.length ≤ db.index.length := by
  have hnd : xs.Nodup := h.pairwise.imp fun hlt heq => by
    subst heq
    exact Nat.lt_irrefl _ hlt
  have hsub : xs ⊆ db.index.map (·.state) := fun y hy => mem_of_getBlock (h.stored y hy)
  simpa using hnd.length_le_of_subset hsub

theorem id_ne (h : Branch db (x :: xs) c n) : ∀ z ∈ xs, z.id ≠ x.id := by
  intro z hz hid
  have hx := h.stored x List.mem_cons_self
  have hzx : z = x := by
    have hz' := h.stored z (List.mem_cons_of_mem x hz)
    rw [hid, hx] at hz'
    exact (Option.some.inj hz').symm
  have hlt := (List.pairwise_cons.mp h.pairwise).1 z hz
  rw [hzx] at hlt
  exact Nat.lt_irrefl _ hlt

theorem of_append : ∀ (pre : List BlockState), Branch db (pre ++ y :: ys) c n → Branch db (y :: ys) c n
  | [], h => h
  | [_], h => h.tail
  | _ :: _ :: pre, h => of_append (_ :: pre) h.tail

theorem congr (h : Branch db xs c n) (heq : ∀ z ∈ xs, getBlock db' z.id = getBlock db z.id) :
    Branch db' xs c n := by
  induction h with
  | last hx hc hn =>
    exact .last ((heq _ List.mem_cons_self).trans hx) hc hn
  | cons hx hl hn _ ih =>
    exact .cons ((heq _ List.mem_cons_self).trans hx) hl hn
      (ih fun z hz => heq z (List.mem_cons_of_mem _ hz))

theorem getPrevious_eq (h : Branch db (x :: y :: ys) c n) : getPrevious db x = .ok y := by
  rw [getPrevious, h.previous_eq, h.tail.stored y List.mem_cons_self]
  rfl

theorem getLast_previous (h : Branch db xs c n) : xs.getLast?.map (·.header.previous) = some c := by
  induction h with
  | last _ hc _ => simp [hc]
  | cons _ _ _ _ ih =>
    rw [List.getLast?_cons_cons]
    exact ih

end Branch

/-! ## `fetch_branch_from` -/

section Fetch
variable {db : ForkDb} {c n : Nat}

theorem walkDown_of_le {x : BlockState} {m : Nat} (hx : x.blockNum ≤ m) (fuel : Nat)
    (acc : List BlockState) : walkDown db fuel x m acc = .ok (x, acc) := by
  cases fuel with
  | zero => rfl
  | succ fuel =>
    rw [walkDown, if_neg (by omega)]
    rfl

theorem walkDown_branch {m : Nat} (hm : n < m) :
    ∀ {xs : List BlockState} {x : BlockState} (fuel : Nat) (acc : List BlockState),
      Branch db (x :: xs) c n → x.blockNum - m ≤ fuel →
      ∃ pre y ys, x :: xs = pre ++ y :: ys ∧ pre.length = x.blockNum - m ∧
        walkDown db fuel x m acc = .ok (y, acc ++ pre) := by
  intro xs
  induction xs with
  | nil =>
    intro x fuel acc h _
    have hx := h.blockNum
    refine ⟨[], x, [], rfl, ?_, ?_⟩
    · simp only [List.length_nil, List.length_nil] at hx ⊢
      omega
    · rw [walkDown_of_le (by simp at hx; omega), List.append_nil]
  | cons y ys ih =>
    intro x fuel acc h hf
    by_cases hx : m < x.blockNum
    · -- `x` is above `m`: one step to `y`, then the rest of the walk from there
      obtain ⟨fuel, rfl⟩ : ∃ k, fuel = k + 1 := ⟨fuel - 1, by omega⟩
      have hn := h.blockNum_succ
      obtain ⟨pre, z, zs, hsplit, hlen, hw⟩ := ih fuel (acc ++ [x]) h.tail (by omega)
      refine ⟨x :: pre, z, zs, by rw [hsplit, List.cons_append], ?_, ?_⟩
      · rw [List.length_cons, hlen]
        omega
      · rw [walkDown, if_pos hx, h.getPrevious_eq, ok_bind, hw, List.append_assoc,
          List.singleton_append]
    · refine ⟨[], x, y :: ys, rfl, by simp only [List.length_nil]; omega, ?_⟩
      rw [walkDown_of_le (by omega), List.append_nil]

theorem walkBoth_branch :
    ∀ {F S : List BlockState} {f s : BlockState} (fuel : Nat) (fs ss : List BlockState),
      Branch db (f :: F) c n → Branch db (s :: S) c n → F.length = S.length →
      (∀ x ∈ F, ∀ y ∈ S, x.id ≠ y.id) → F.length < fuel →
      walkBoth db fuel f s (fs, ss) = .ok (fs ++ f :: F, ss ++ s :: S)
  | [], S, f, s, fuel, fs, ss, hf, hs, hlen, _, hfuel => by
    obtain rfl : S = [] := List.eq_nil_of_length_eq_zero hlen.symm
    obtain ⟨fuel, rfl⟩ : ∃ k, fuel = k + 1 := ⟨fuel - 1, by simp at hfuel; omega⟩
    have hsame : f.header.previous = s.header.previous := by
      rw [hf.previous_of_last, hs.previous_of_last]
    rw [walkBoth, if_neg (by simp [hsame])]
    rfl
  | f' :: F, [], _, _, _, _, _, _, _, hlen, _, _ => by simp at hlen
  | f' :: F, s' :: S, f, s, fuel, fs, ss, hf, hs, hlen, hd, hfuel => by
    obtain ⟨fuel, rfl⟩ : ∃ k, fuel = k + 1 := ⟨fuel - 1, by simp at hfuel; omega⟩
    have hne : f.header.previous ≠ s.header.previous := by
      rw [hf.previous_eq, hs.previous_eq]
      exact hd f' List.mem_cons_self s' List.mem_cons_self
    rw [walkBoth, if_pos (by simp [hne]), hf.getPrevious_eq, ok_bind, hs.getPrevious_eq, ok_bind,
      walkBoth_branch fuel _ _ hf.tail hs.tail (by simpa using hlen)
        (fun x hx y hy => hd x (List.mem_cons_of_mem _ hx) y (List.mem_cons_of_mem _ hy))
        (by simp at hfuel ⊢; omega)]
    simp

theorem mem_of_split {x f : BlockState} {xs pre F : List BlockState}
    (h : x :: xs = pre ++ f :: F) : ∀ z ∈ F, z ∈ xs := by
  intro z hz
  cases pre with
  | nil =>
    obtain ⟨-, rfl⟩ := List.cons.inj h
    exact hz
  | cons p pre =>
    obtain ⟨-, rfl⟩ := List.cons.inj h
    simp [hz]

/-- **`fetch_branch_from`.**  For two branches down to one block `c`, with no block in common
(the chains of ancestors of `a` and `b` meet at `c`), the result is the two branches, whatever
the numbers of `a` and `b` -/
theorem fetchBranchFrom_branches {a b : BlockState} {A B : List BlockState}
    (hA : Branch db (a :: A) c n) (hB : Branch db (b :: B) c n)
    (hd : ∀ x ∈ A, ∀ y ∈ B, x.id ≠ y.id) :
    fetchBranchFrom db a.id b.id = .ok (a :: A, b :: B) := by
  have hfa := hA.length_le
  have hfb := hB.length_le
  have hna := hA.blockNum
  have hnb := hB.blockNum
  simp only [List.length_cons] at hfa hfb
  obtain ⟨pre1, f, F, h1, hl1, hw1⟩ := walkDown_branch (m := b.blockNum) (by omega)
    (db.index.length + 1) [] hA (by omega)
  have hF : Branch db (f :: F) c n := Branch.of_append pre1 (h1 ▸ hA)
  have hlen1 := congrArg List.length h1
  have hnf := hF.blockNum
  simp only [List.length_cons, List.length_append] at hlen1
  obtain ⟨pre2, s, S, h2, hl2, hw2⟩ := walkDown_branch (m := f.blockNum) (by omega)
    (db.index.length + 1) [] hB (by omega)
  have hS : Branch db (s :: S) c n := Branch.of_append pre2 (h2 ▸ hB)
  have hlen2 := congrArg List.length h2
  have hns := hS.blockNum
  simp only [List.length_cons, List.length_append] at hlen2
  have hFS : F.length = S.length := by omega
  have hw3 := walkBoth_branch (db.index.length + 1) pre1 pre2 hF hS hFS
    (fun x hx y hy => hd x (mem_of_split h1 x hx) y (mem_of_split h2 y hy)) (by omega)
  unfold fetchBranchFrom
  rw [hA.stored a List.mem_cons_self, hB.stored b List.mem_cons_self]
  dsimp only
  rw [pure_bind]
  dsimp only
  rw [hw1, ok_bind]
  dsimp only
  rw [hw2, ok_bind]
  dsimp only
  rw [List.nil_append, List.nil_append, hw3, ← h1, ← h2]

end Fetch

/-! ## The pops and the replay -/

section Switch
variable {c n : Nat}

theorem foldlM_popBranchBlock :
    ∀ {xs : List BlockState} {x : BlockState} {ctl : Controller},
      Branch ctl.forkDb (x :: xs) c n → ctl.head = x →
      ∃ db' z, z.header.previous = c ∧
        (∀ j, (getBlock db' j).isSome = (getBlock ctl.forkDb j).isSome) ∧
        (x :: xs).foldlM popBranchBlock ctl = popBlock { forkDb := db', head := z } := by
  intro xs
  induction xs with
  | nil =>
    intro x ctl h hh
    obtain ⟨db', hdb'⟩ := markInCurrentChain_ok false
      (Option.isSome_of_eq_some (h.stored x List.mem_cons_self))
    refine ⟨db', x, h.previous_of_last, isSome_getBlock_markInCurrentChain hdb', ?_⟩
    simp only [List.foldlM_cons, List.foldlM_nil, bind_pure]
    rw [popBranchBlock, hdb', ok_bind, ← hh]
  | cons y ys ih =>
    intro x ctl h hh
    obtain ⟨db1, hdb1⟩ := markInCurrentChain_ok false
      (Option.isSome_of_eq_some (h.stored x List.mem_cons_self))
    have hsame : ∀ z ∈ y :: ys, getBlock db1 z.id = getBlock ctl.forkDb z.id :=
      fun z hz => getBlock_markInCurrentChain_of_ne hdb1 (h.id_ne z hz)
    have hy : getBlock db1 x.header.previous = some y := by
      rw [h.previous_eq, hsame y List.mem_cons_self, h.tail.stored y List.mem_cons_self]
    have hpop : popBranchBlock ctl x = .ok { forkDb := db1, head := y } := by
      rw [popBranchBlock, hdb1, ok_bind, popBlock, hh]
      dsimp only
      rw [hy]
      rfl
    obtain ⟨db', z, hz, hids, hfold⟩ := @ih y { forkDb := db1, head := y } (h.tail.congr hsame) rfl
    refine ⟨db', z, hz, fun j => (hids j).trans (isSome_getBlock_markInCurrentChain hdb1 j), ?_⟩
    rw [List.foldlM_cons, hpop, ok_bind, hfold]

theorem foldlM_applyBranchBlock :
    ∀ {xs : List BlockState} {ctl : Controller}, (∀ x ∈ xs, (getBlock ctl.forkDb x.id).isSome) →
      ∃ ctl', xs.foldlM applyBranchBlock ctl = .ok ctl' ∧ ctl'.head = xs.getLast?.getD ctl.head
  | [], ctl, _ => ⟨ctl, rfl, rfl⟩
  | x :: xs, ctl, h => by
    obtain ⟨db1, hdb1⟩ := markInCurrentChain_ok true (h x List.mem_cons_self)
    have hids : ∀ j, (getBlock (setValidated db1 x.id) j).isSome = (getBlock ctl.forkDb j).isSome :=
      fun j => (isSome_getBlock_setValidated x.id j).trans (isSome_getBlock_markInCurrentChain hdb1 j)
    obtain ⟨ctl', hfold, hhead⟩ := @foldlM_applyBranchBlock xs
      { forkDb := setValidated db1 x.id, head := x }
      fun z hz => (hids z.id).trans (h z (List.mem_cons_of_mem x hz))
    refine ⟨ctl', ?_, ?_⟩
    · rw [List.foldlM_cons, applyBranchBlock, hdb1, ok_bind]
      exact hfold
    · rw [hhead]
      cases xs with
      | nil => rfl
      | cons z zs => simp only [List.getLast?_cons, Option.getD_some]

theorem popBranch_of_stored {ctl : Controller} {B : List BlockState}
    (hB : Branch ctl.forkDb (ctl.head :: B) c n) (hc : (getBlock ctl.forkDb c).isSome) :
    ∃ ctl', (ctl.head :: B).foldlM popBranchBlock ctl = .ok ctl' ∧ ctl'.head.id = c ∧
      ∀ j, (getBlock ctl'.forkDb j).isSome = (getBlock ctl.forkDb j).isSome := by
  obtain ⟨db', z, hz, hids, hpop⟩ := foldlM_popBranchBlock hB rfl
  obtain ⟨p, hp⟩ := Option.isSome_iff_exists.mp ((hids c).trans hc)
  refine ⟨{ forkDb := db', head := p }, ?_, getBlock_id hp, hids⟩
  rw [hpop, popBlock]
  dsimp only
  rw [hz, hp]
  rfl

theorem popBranch_of_pruned {ctl : Controller} {B : List BlockState}
    (hB : Branch ctl.forkDb (ctl.head :: B) c n) (hc : getBlock ctl.forkDb c = none) :
    (ctl.head :: B).foldlM popBranchBlock ctl =
      .error "attempt to pop beyond last irreversible block" := by
  obtain ⟨db', z, hz, hids, hpop⟩ := foldlM_popBranchBlock hB rfl
  have hc' : getBlock db' c = none := by
    rw [← Option.not_isSome_iff_eq_none, hids c, Option.not_isSome_iff_eq_none]
    exact hc
  rw [hpop, popBlock]
  dsimp only
  rw [hz, hc']
  rfl

theorem replayBranch {db : ForkDb} {ctl : Controller} {a : BlockState} {A : List BlockState}
    (hA : Branch db (a :: A) c n) (hids : ∀ j, (getBlock ctl.forkDb j).isSome = (getBlock db j).isSome) :
    ∃ ctl', (a :: A).reverse.foldlM applyBranchBlock ctl = .ok ctl' ∧ ctl'.head = a := by
  obtain ⟨ctl', hfold, hhead⟩ := @foldlM_applyBranchBlock (a :: A).reverse ctl
    fun x hx => (hids x.id).trans (Option.isSome_of_eq_some (hA.stored x (List.mem_reverse.mp hx)))
  refine ⟨ctl', hfold, ?_⟩
  rw [hhead, List.getLast?_reverse]
  rfl

/-- **Fork branches meet at the common ancestor.**  For two branches of `a` and `b` down to one
block `c` with no block in common, `fetch_branch_from( a, b )` returns the two branches; with the
controller's head at `b`, popping the second one leaves the head at the block its last block
links to (the check after the pops) when `c` is stored, and the first one replayed oldest first
then ends at `a`; when `c` is pruned, the last pop fails. -/
theorem fork_branches_meet_at_ancestor {db : ForkDb} {a b : BlockState} {A B : List BlockState}
    (hA : Branch db (a :: A) c n) (hB : Branch db (b :: B) c n)
    (hd : ∀ x ∈ A, ∀ y ∈ B, x.id ≠ y.id) :
    fetchBranchFrom db a.id b.id = .ok (a :: A, b :: B) ∧
      ∀ ctl : Controller, ctl.forkDb = db → ctl.head = b →
        ((getBlock db c).isSome →
          ∃ ctl', (b :: B).foldlM popBranchBlock ctl = .ok ctl' ∧
            (b :: B).getLast?.map (·.header.previous) = some ctl'.head.id ∧
            ∃ ctl'', (a :: A).reverse.foldlM applyBranchBlock ctl' = .ok ctl'' ∧ ctl''.head = a) ∧
        (getBlock db c = none →
          (b :: B).foldlM popBranchBlock ctl =
            .error "attempt to pop beyond last irreversible block") := by
  refine ⟨fetchBranchFrom_branches hA hB hd, ?_⟩
  rintro ctl rfl rfl
  refine ⟨fun hc => ?_, popBranch_of_pruned hB⟩
  obtain ⟨ctl', hpop, hhead, hids⟩ := popBranch_of_stored hB hc
  obtain ⟨ctl'', hfold, hlast⟩ := replayBranch hA hids
  exact ⟨ctl', hpop, by rw [hB.getLast_previous, hhead], ctl'', hfold, hlast⟩

/-- block 1, with the branch of 3 on 2 on 1 and the branch of 4 on 1 -/
def sampleRoot : BlockState := { id := 1, blockNum := 1 }
def sampleLeft2 : BlockState := { id := 2, blockNum := 2, header := { previous := 1 } }
def sampleLeft3 : BlockState := { id := 3, blockNum := 3, header := { previous := 2 } }
def sampleRight2 : BlockState := { id := 4, blockNum := 2, header := { previous := 1 } }

def sampleBranchDb : ForkDb :=
  { index := [⟨sampleRoot, 0⟩, ⟨sampleLeft2, 1⟩, ⟨sampleRight2, 3⟩, ⟨sampleLeft3, 2⟩], inserted := 4 }

theorem sample_branches_meet :
    Branch sampleBranchDb [sampleLeft3, sampleLeft2] 1 1 ∧ Branch sampleBranchDb [sampleRight2] 1 1 ∧
      (∀ x ∈ [sampleLeft2], ∀ y ∈ ([] : List BlockState), x.id ≠ y.id) ∧
      fetchBranchFrom sampleBranchDb sampleLeft3.id sampleRight2.id =
        .ok ([sampleLeft3, sampleLeft2], [sampleRight2]) ∧
      ∀ ctl : Controller, ctl.forkDb = sampleBranchDb → ctl.head = sampleRight2 →
        ((getBlock sampleBranchDb 1).isSome →
          ∃ ctl', [sampleRight2].foldlM popBranchBlock ctl = .ok ctl' ∧
            [sampleRight2].getLast?.map (·.header.previous) = some ctl'.head.id ∧
            ∃ ctl'', [sampleLeft3, sampleLeft2].reverse.foldlM applyBranchBlock ctl' = .ok ctl'' ∧
              ctl''.head = sampleLeft3) ∧
        (getBlock sampleBranchDb 1 = none →
          [sampleRight2].foldlM popBranchBlock ctl =
            .error "attempt to pop beyond last irreversible block") :=
  have hA : Branch sampleBranchDb [sampleLeft3, sampleLeft2] 1 1 :=
    .cons rfl rfl rfl (.last rfl rfl rfl)
  have hB : Branch sampleBranchDb [sampleRight2] 1 1 := .last rfl rfl rfl
  have hd : ∀ x ∈ [sampleLeft2], ∀ y ∈ ([] : List BlockState), x.id ≠ y.id := by simp
  ⟨hA, hB, hd, fork_branches_meet_at_ancestor hA hB hd⟩

/-- **The switch.**  When the head of the fork database and the controller's head have branches
that meet at a stored block, `maybe_switch_forks` succeeds, with the check after the pops, and
ends with the head of the fork database as its head: also when that block is built on the head,
or is the head -/
theorem maybeSwitchForks_reaches_head {ctl : Controller} {a : BlockState} {A B : List BlockState}
    (hhead : ctl.forkDb.head = some a) (hA : Branch ctl.forkDb (a :: A) c n)
    (hB : Branch ctl.forkDb (ctl.head :: B) c n) (hd : ∀ x ∈ A, ∀ y ∈ B, x.id ≠ y.id)
    (hc : (getBlock ctl.forkDb c).isSome) :
    ∃ ctl', maybeSwitchForks ctl = .ok ctl' ∧ ctl'.head = a := by
  have ha := hA.stored a List.mem_cons_self
  unfold maybeSwitchForks
  rw [hhead]
  dsimp only
  rw [pure_bind]
  split
  · -- the block is built on the head: it is applied alone
    obtain ⟨db', hdb'⟩ := markInCurrentChain_ok true (Option.isSome_of_eq_some ha)
    refine ⟨{ forkDb := setValidated db' a.id, head := a }, ?_, rfl⟩
    rw [hdb', ok_bind]
    rfl
  · split
    · -- a fork: the old branch is popped, checked, and the new one replayed
      obtain ⟨ctl1, hpop, hhead1, hids⟩ := popBranch_of_stored hB hc
      obtain ⟨ctl2, hfold, hhead2⟩ := replayBranch hA hids
      refine ⟨ctl2, ?_, hhead2⟩
      rw [fetchBranchFrom_branches hA hB hd, ok_bind]
      dsimp only
      rw [hpop, ok_bind, assert_of_true _ (by simp [hB.getLast_previous, hhead1]), ok_bind, hfold]
    · -- the same id: the same stored block
      next hne =>
      have hid : a.id = ctl.head.id := by simpa using hne
      have hb := hB.stored ctl.head List.mem_cons_self
      rw [← hid, ha] at hb
      exact ⟨ctl, rfl, (Option.some.inj hb).symm⟩

end Switch

end Eos.ForkDatabase
