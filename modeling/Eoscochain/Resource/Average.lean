import Eoscochain.Resource.Billing

/-!
# The bound of the moving average

`exponential_moving_average_accumulator::add` over a run of calls with one window `W`.  Let the
units of the calls at any one ordinal sum to at most `U`, and at most `k` calls share an
ordinal.  Each call adds `⌈u * P / W⌉` for its `u` units (`P = rate_limiting_precision`), and a
later ordinal first scales the value by `(W - δ) / W`, rounded down.  The value never exceeds
`B = U * P + k * (W - 1)`: the calls of one ordinal add at most `(U * P + k * (W - 1)) / W`,
which is what one period of decay takes off `B` (`Bounded`, kept by every call).

The bounds `add` checks are another matter.  It checks `value_ex + contribution` against
`UINT64_MAX` before the decay, and the decay checks the product `value_ex * (W - δ)`; the
first is `B` plus up to `U * P`, the second up to `B * (W - 1)`.  That `U * P + k * W` fits in
64 bits is not enough (`average_overflow_within_bound`); that `(U * P + k * W) * (W + 1)` fits
is (`addAll_ok`).
-/

set_option linter.unusedSectionVars false

namespace Eos.Resource

open Machine

namespace UsageAccumulator

/-- the calls `add(units, ordinal, window_size)` of a run, one after the other -/
def addAll (a : UsageAccumulator) (calls : List (Nat × Nat)) (windowSize : Nat) :
    Except String UsageAccumulator :=
  calls.foldlM (fun a c => a.add c.1 c.2 windowSize) a

/-- the units of the calls at `ordinal` -/
def unitsAt (calls : List (Nat × Nat)) (ordinal : Nat) : Nat :=
  ((calls.filter fun c => c.2 = ordinal).map Prod.fst).sum

/-- the number of calls at `ordinal` -/
def callsAt (calls : List (Nat × Nat)) (ordinal : Nat) : Nat :=
  (calls.filter fun c => c.2 = ordinal).length

/-- the largest value a run whose ordinals take at most `U` units in at most `k` calls reaches -/
def bound (U k W : Nat) : Nat := U * rateLimitingPrecision + k * (W - 1)

theorem unitsAt_cons (c : Nat × Nat) (calls : List (Nat × Nat)) (o : Nat) :
    unitsAt (c :: calls) o = (if c.2 = o then c.1 else 0) + unitsAt calls o := by
  unfold unitsAt
  by_cases h : c.2 = o <;> simp [h]

theorem callsAt_cons (c : Nat × Nat) (calls : List (Nat × Nat)) (o : Nat) :
    callsAt (c :: calls) o = (if c.2 = o then 1 else 0) + callsAt calls o := by
  unfold callsAt
  by_cases h : c.2 = o <;> simp [h, Nat.add_comm]

theorem unitsAt_append (calls rest : List (Nat × Nat)) (o : Nat) :
    unitsAt (calls ++ rest) o = unitsAt calls o + unitsAt rest o := by
  simp [unitsAt]

theorem callsAt_append (calls rest : List (Nat × Nat)) (o : Nat) :
    callsAt (calls ++ rest) o = callsAt calls o + callsAt rest o := by
  simp [callsAt]

theorem unitsAt_of_not_mem {calls : List (Nat × Nat)} {o : Nat} (h : ∀ c ∈ calls, c.2 ≠ o) :
    unitsAt calls o = 0 ∧ callsAt calls o = 0 := by
  have hnil : (calls.filter fun c => c.2 = o) = [] :=
    List.filter_eq_nil_iff.mpr fun c hc => by simpa using h c hc
  simp [unitsAt, callsAt, hnil]

theorem addAll_cons (a : UsageAccumulator) (c : Nat × Nat) (calls : List (Nat × Nat)) (W : Nat) :
    addAll a (c :: calls) W = (a.add c.1 c.2 W >>= fun a => addAll a calls W) := rfl

/-! ## One call -/

theorem add_eq_ok {a a' : UsageAccumulator} {units ordinal W : Nat}
    (h : a.add units ordinal W = .ok a') :
    a.Room units W ∧ ∃ a1, (if a.lastOrdinal = ordinal then .ok a else a.advance ordinal W) =
      .ok a1 ∧ a' = { a1 with
        consumed := a1.consumed + units
        valueEx := a1.valueEx + integerDivideCeil (units * rateLimitingPrecision) W } := by
  unfold add at h
  obtain ⟨h1, h⟩ := assert_bind_eq_ok.mp h
  obtain ⟨h2, h⟩ := assert_bind_eq_ok.mp h
  obtain ⟨c, hc, h⟩ := bind_eq_ok.mp h
  obtain ⟨rfl, -⟩ := downgradeCast_eq_ok hc
  obtain ⟨h3, h⟩ := assert_bind_eq_ok.mp h
  obtain ⟨a1, h1', h⟩ := bind_eq_ok.mp h
  exact ⟨⟨of_decide_eq_true h1, of_decide_eq_true h2, of_decide_eq_true h3⟩, a1, h1',
    (Except.ok.inj h).symm⟩

theorem advance_eq_ok {a a1 : UsageAccumulator} {ordinal W : Nat}
    (h : a.advance ordinal W = .ok a1) :
    a.lastOrdinal < ordinal ∧ a1.lastOrdinal = ordinal ∧
      W * a1.valueEx ≤ a.valueEx * (W - (ordinal - a.lastOrdinal)) ∧ a1.consumed = a1.average := by
  unfold advance at h
  obtain ⟨hlt, h⟩ := assert_bind_eq_ok.mp h
  obtain ⟨v, hv, h⟩ := bind_eq_ok.mp h
  cases h
  refine ⟨of_decide_eq_true hlt, rfl, ?_, rfl⟩
  split at hv
  · -- within the window: `value_ex * decay`, the product checked
    unfold mulRatio at hv
    obtain ⟨-, hv⟩ := assert_bind_eq_ok.mp hv
    cases hv
    exact Nat.mul_div_le _ _
  · cases hv
    simp

theorem mul_contribution_le {u W : Nat} (hW : 0 < W) :
    W * integerDivideCeil (u * rateLimitingPrecision) W ≤ rateLimitingPrecision * u + (W - 1) := by
  rw [integerDivideCeil_eq hW, Nat.mul_comm W, Nat.mul_comm rateLimitingPrecision]
  have := FixedPoint.ceilDiv_mul_le (u * rateLimitingPrecision) W
  omega

theorem average_le (a : UsageAccumulator) : a.average ≤ a.valueEx := by
  unfold average integerDivideCeil rateLimitingPrecision
  split <;> omega

theorem integerDivideCeil_le {x W : Nat} (hW : 0 < W) : integerDivideCeil x W ≤ x := by
  rw [integerDivideCeil_eq hW, ceilDiv_le_iff_le_mul hW]
  exact Nat.le_mul_of_pos_left x hW

theorem add_ok {a : UsageAccumulator} {units ordinal W : Nat} (hroom : a.Room units W)
    (hadv : a.lastOrdinal ≠ ordinal → ∃ a1, a.advance ordinal W = .ok a1) :
    ∃ a', a.add units ordinal W = .ok a' := by
  obtain ⟨h1, h2, h3⟩ := hroom
  have hcast : downgradeCast uint64Max (integerDivideCeil (units * rateLimitingPrecision) W)
      = .ok (integerDivideCeil (units * rateLimitingPrecision) W) := by
    unfold downgradeCast
    rw [decide_eq_true (by omega)]
    rfl
  unfold add
  simp only [decide_eq_true h1, decide_eq_true h2, assert_true, pure_bind]
  rw [hcast, ok_bind]
  simp only [decide_eq_true h3, assert_true, pure_bind]
  by_cases hord : a.lastOrdinal = ordinal
  · rw [if_pos hord]
    exact ⟨_, rfl⟩
  · obtain ⟨a1, ha1⟩ := hadv hord
    rw [if_neg hord, ha1]
    exact ⟨_, rfl⟩

theorem advance_ok {a : UsageAccumulator} {ordinal W : Nat} (hlt : a.lastOrdinal < ordinal)
    (hfit : a.valueEx * (W - (ordinal - a.lastOrdinal)) ≤ uint64Max) :
    ∃ a1, a.advance ordinal W = .ok a1 := by
  unfold advance
  simp only [decide_eq_true hlt, assert_true, pure_bind]
  split
  · have hcheck : ((W - (ordinal - a.lastOrdinal)) == 0 ||
        decide (a.valueEx ≤ uint64Max / (W - (ordinal - a.lastOrdinal)))) = true := by
      by_cases h0 : W - (ordinal - a.lastOrdinal) = 0
      · simp [h0]
      · simp only [Bool.or_eq_true, beq_iff_eq, decide_eq_true_eq]
        exact .inr ((Nat.le_div_iff_mul_le (Nat.pos_of_ne_zero h0)).mpr hfit)
    unfold mulRatio
    rw [hcheck, assert_true, pure_bind]
    exact ⟨_, rfl⟩
  · exact ⟨_, rfl⟩

/-! ## The invariant of a run -/

/-- the bound carried along a run, with `u` units in `n` calls so far at the last ordinal: the
value is at most `B` less a period of decay, plus what those calls added -/
structure Bounded (U k W : Nat) (a : UsageAccumulator) (u n : Nat) : Prop where
  value : W * a.valueEx ≤ (W - 1) * bound U k W + rateLimitingPrecision * u + (W - 1) * n
  consumed : a.consumed ≤ bound U k W + u

theorem bounded_zero (U k W : Nat) : Bounded U k W {} 0 0 where
  value := by simp
  consumed := by simp

theorem Bounded.valueEx_le {U k W u n : Nat} {a : UsageAccumulator} (hW : 0 < W)
    (h : Bounded U k W a u n) (hu : u ≤ U) (hn : n ≤ k) : a.valueEx ≤ bound U k W := by
  have hPu : rateLimitingPrecision * u ≤ rateLimitingPrecision * U := Nat.mul_le_mul_left _ hu
  have hWn : (W - 1) * n ≤ (W - 1) * k := Nat.mul_le_mul_left _ hn
  have hB : W * bound U k W = (W - 1) * bound U k W + (rateLimitingPrecision * U + (W - 1) * k) :=
    calc W * bound U k W = (W - 1 + 1) * bound U k W := by rw [Nat.sub_add_cancel hW]
      _ = (W - 1) * bound U k W + bound U k W := Nat.succ_mul _ _
      _ = _ := by rw [bound, Nat.mul_comm U, Nat.mul_comm k]
  refine Nat.le_of_mul_le_mul_left ?_ hW
  rw [hB]
  have := h.value
  omega

theorem Bounded.same {U k W u n : Nat} {a : UsageAccumulator} (units : Nat) (hW : 0 < W)
    (h : Bounded U k W a u n) :
    Bounded U k W { a with
        consumed := a.consumed + units
        valueEx := a.valueEx + integerDivideCeil (units * rateLimitingPrecision) W }
      (u + units) (n + 1) where
  value := by
    have hc := mul_contribution_le (u := units) hW
    have := h.value
    simp only [Nat.mul_add, Nat.mul_one] at hc this ⊢
    omega
  consumed := by
    have := h.consumed
    simp only
    omega

theorem Bounded.advance {U k W u n ordinal : Nat} {a a1 : UsageAccumulator} (hW : 0 < W)
    (h : Bounded U k W a u n) (hu : u ≤ U) (hn : n ≤ k) (ha : a.advance ordinal W = .ok a1) :
    Bounded U k W a1 0 0 := by
  obtain ⟨hlt, -, hdecay, hcons⟩ := advance_eq_ok ha
  have hB := h.valueEx_le hW hu hn
  have hstep : a.valueEx * (W - (ordinal - a.lastOrdinal)) ≤ bound U k W * (W - 1) :=
    Nat.mul_le_mul hB (by omega)
  constructor
  · rw [Nat.mul_comm (W - 1)]
    simp only [Nat.mul_zero, Nat.add_zero]
    omega
  · rw [hcons]
    have hav := average_le a1
    have : W * a1.valueEx ≤ W * bound U k W := by
      have : bound U k W * (W - 1) ≤ W * bound U k W := by
        rw [Nat.mul_comm W]
        exact Nat.mul_le_mul_left _ (Nat.sub_le W 1)
      omega
    have := Nat.le_of_mul_le_mul_left this hW
    omega

/-- the units and calls still to come at each ordinal, with those of the last ordinal so far,
within `U` and `k` -/
def Within (U k : Nat) (a : UsageAccumulator) (u n : Nat) (calls : List (Nat × Nat)) : Prop :=
  ∀ o, (if o = a.lastOrdinal then u else 0) + unitsAt calls o ≤ U ∧
    (if o = a.lastOrdinal then n else 0) + callsAt calls o ≤ k

theorem Within.last {U k u n : Nat} {a : UsageAccumulator} {calls : List (Nat × Nat)}
    (hw : Within U k a u n calls) : u ≤ U ∧ n ≤ k := by
  have h := hw a.lastOrdinal
  simp only [↓reduceIte] at h
  omega

/-- **One call keeps the bound.** -/
theorem Bounded.add {U k W u n : Nat} {a a' : UsageAccumulator} {c : Nat × Nat}
    {calls : List (Nat × Nat)} (hW : 0 < W) (h : Bounded U k W a u n)
    (hw : Within U k a u n (c :: calls)) (ha : a.add c.1 c.2 W = .ok a') :
    ∃ u' n', Bounded U k W a' u' n' ∧ Within U k a' u' n' calls := by
  obtain ⟨-, a1, h1, rfl⟩ := add_eq_ok ha
  obtain ⟨hu, hn⟩ := hw.last
  split at h1
  · -- the same ordinal: the call joins the calls counted so far
    next hord =>
    cases h1
    refine ⟨u + c.1, n + 1, h.same c.1 hW, fun o => ?_⟩
    have ho := hw o
    simp only [unitsAt_cons, callsAt_cons, hord] at ho ⊢
    by_cases hoc : o = c.2
    · subst hoc
      simp only [↓reduceIte] at ho ⊢
      omega
    · simp only [if_neg hoc, if_neg (Ne.symm hoc)] at ho ⊢
      omega
  · -- a later ordinal: the call is the first counted there
    next hord =>
    have hb := h.advance hW hu hn h1
    obtain ⟨-, hlast1, -, -⟩ := advance_eq_ok h1
    refine ⟨c.1, 1, ?_, fun o => ?_⟩
    · simpa using hb.same c.1 hW
    · have ho := hw o
      simp only [unitsAt_cons, callsAt_cons, hlast1] at ho ⊢
      by_cases hoc : o = c.2
      · subst hoc
        simp only [↓reduceIte, if_neg (Ne.symm hord)] at ho ⊢
        omega
      · simp only [if_neg hoc, if_neg (Ne.symm hoc)] at ho ⊢
        split at ho <;> omega

/-- **The bound along a run.** -/
theorem Bounded.valueEx_le_run {U k W : Nat} (hW : 0 < W) :
    ∀ (calls : List (Nat × Nat)) (a a' : UsageAccumulator) (u n : Nat), Bounded U k W a u n →
      Within U k a u n calls → addAll a calls W = .ok a' → a'.valueEx ≤ bound U k W
  | [], a, a', u, n, h, hw, hrun => by
    cases hrun
    obtain ⟨hu, hn⟩ := hw.last
    exact h.valueEx_le hW hu hn
  | c :: calls, a, a', u, n, h, hw, hrun => by
    obtain ⟨a1, h1, hrun⟩ := bind_eq_ok.mp hrun
    obtain ⟨u1, n1, hb, hw1⟩ := h.add hW hw h1
    exact Bounded.valueEx_le_run hW calls a1 a' u1 n1 hb hw1 hrun

theorem Bounded.add_ok {U k W u n : Nat} {a : UsageAccumulator} {c : Nat × Nat}
    {calls : List (Nat × Nat)} (hW : 0 < W)
    (hfit : (U * rateLimitingPrecision + k * W) * (W + 1) ≤ uint64Max)
    (h : Bounded U k W a u n) (hw : Within U k a u n (c :: calls)) (hle : a.lastOrdinal ≤ c.2) :
    ∃ a', a.add c.1 c.2 W = .ok a' := by
  obtain ⟨hu, hn⟩ := hw.last
  have hc : u + c.1 ≤ 2 * U ∧ c.1 ≤ U := by
    have := (hw c.2).1
    rw [unitsAt_cons, if_pos rfl] at this
    split at this <;> omega
  have hP : 2 ≤ rateLimitingPrecision := by decide
  have hUP : U * 2 ≤ U * rateLimitingPrecision := Nat.mul_le_mul_left U hP
  have hB : bound U k W ≤ U * rateLimitingPrecision + k * W :=
    Nat.add_le_add_left (Nat.mul_le_mul_left k (Nat.sub_le W 1)) _
  have hCW : (U * rateLimitingPrecision + k * W) * W + (U * rateLimitingPrecision + k * W) ≤
      uint64Max := by
    rw [Nat.mul_succ] at hfit
    exact hfit
  have hC2 : 2 * (U * rateLimitingPrecision + k * W) ≤ uint64Max := by
    have : (U * rateLimitingPrecision + k * W) * 1 ≤ (U * rateLimitingPrecision + k * W) * W :=
      Nat.mul_le_mul_left _ hW
    omega
  have hv := h.valueEx_le hW hu hn
  have hcons := h.consumed
  have hcontrib : integerDivideCeil (c.1 * rateLimitingPrecision) W ≤ U * rateLimitingPrecision :=
    (integerDivideCeil_le hW).trans (Nat.mul_le_mul_right _ hc.2)
  refine UsageAccumulator.add_ok ⟨?_, ?_, ?_⟩ fun hne => advance_ok (by omega) ?_
  · -- `units <= max_raw_value`
    have : c.1 * rateLimitingPrecision ≤ uint64Max :=
      (Nat.mul_le_mul_right _ hc.2).trans (by omega)
    exact (Nat.le_div_iff_mul_le (by decide)).mpr this
  · omega
  · omega
  · -- the decay's product: at most `B * W`
    calc a.valueEx * (W - (c.2 - a.lastOrdinal))
        ≤ (U * rateLimitingPrecision + k * W) * W := Nat.mul_le_mul (hv.trans hB) (Nat.sub_le _ _)
      _ ≤ uint64Max := by omega

/-- **The run goes through** where `(U * P + k * W) * (W + 1)` fits. -/
theorem Bounded.addAll_ok {U k W : Nat} (hW : 0 < W)
    (hfit : (U * rateLimitingPrecision + k * W) * (W + 1) ≤ uint64Max) :
    ∀ (calls : List (Nat × Nat)) (a : UsageAccumulator) (u n : Nat), Bounded U k W a u n →
      Within U k a u n calls → calls.Pairwise (fun c d => c.2 ≤ d.2) →
      (∀ c ∈ calls, a.lastOrdinal ≤ c.2) → ∃ a', addAll a calls W = .ok a'
  | [], a, _, _, _, _, _, _ => ⟨a, rfl⟩
  | c :: calls, a, u, n, h, hw, hord, hle => by
    obtain ⟨a1, h1⟩ := h.add_ok hW hfit hw (hle c List.mem_cons_self)
    obtain ⟨u1, n1, hb, hw1⟩ := h.add hW hw h1
    have hlast := add_lastOrdinal h1
    obtain ⟨hc, hord⟩ := List.pairwise_cons.mp hord
    obtain ⟨a', h'⟩ := Bounded.addAll_ok hW hfit calls a1 u1 n1 hb hw1 hord
      (fun d hd => hlast ▸ hc d hd)
    exact ⟨a', by rw [addAll_cons, h1, ok_bind, h']⟩

theorem within_zero {U k : Nat} {calls : List (Nat × Nat)}
    (hunits : ∀ c ∈ calls, unitsAt calls c.2 ≤ U) (hcalls : ∀ c ∈ calls, callsAt calls c.2 ≤ k) :
    Within U k {} 0 0 calls := by
  intro o
  simp only [ite_self, Nat.zero_add]
  by_cases ho : ∃ c ∈ calls, c.2 = o
  · obtain ⟨c, hc, rfl⟩ := ho
    exact ⟨hunits c hc, hcalls c hc⟩
  · have h0 : unitsAt calls o = 0 ∧ callsAt calls o = 0 :=
      unitsAt_of_not_mem fun c hc hco => ho ⟨c, hc, hco⟩
    omega

theorem average_le_of_valueEx_le {a : UsageAccumulator} {U k W : Nat}
    (h : a.valueEx ≤ bound U k W) :
    a.average ≤ U + integerDivideCeil (k * W) rateLimitingPrecision := by
  have hP : 0 < rateLimitingPrecision := by decide
  have hkW : bound U k W ≤ k * W + rateLimitingPrecision * U := by
    rw [bound, Nat.mul_comm U]
    have := Nat.mul_le_mul_left k (Nat.sub_le W 1)
    omega
  unfold average
  rw [integerDivideCeil_eq hP, integerDivideCeil_eq hP, Nat.ceilDiv_eq_add_pred_div,
    Nat.ceilDiv_eq_add_pred_div]
  calc (a.valueEx + rateLimitingPrecision - 1) / rateLimitingPrecision
      ≤ (k * W + rateLimitingPrecision - 1 + rateLimitingPrecision * U) / rateLimitingPrecision :=
        Nat.div_le_div_right (by omega)
    _ = U + (k * W + rateLimitingPrecision - 1) / rateLimitingPrecision := by
        rw [Nat.add_mul_div_left _ _ hP, Nat.add_comm]

/-- **The moving average stays within the usage of a period.**  Along a run of `add` calls with
window `W` from the zero accumulator, with non-decreasing ordinals, at most `U` units and at
most `k` calls at any one ordinal: after every call that went through, `value_ex` is at most
`U * P + k * (W - 1)` and the average at most `U + ⌈k * W / P⌉`; and where
`(U * P + k * W) * (W + 1)` fits in 64 bits, every call goes through. -/
theorem average_bounded {U k W : Nat} {calls : List (Nat × Nat)} (hW : 0 < W)
    (hord : calls.Pairwise fun c d => c.2 ≤ d.2)
    (hunits : ∀ c ∈ calls, unitsAt calls c.2 ≤ U) (hcalls : ∀ c ∈ calls, callsAt calls c.2 ≤ k) :
    (∀ pre a, pre <+: calls → addAll {} pre W = .ok a →
      a.valueEx ≤ U * rateLimitingPrecision + k * (W - 1) ∧
        a.average ≤ U + integerDivideCeil (k * W) rateLimitingPrecision) ∧
    ((U * rateLimitingPrecision + k * W) * (W + 1) ≤ uint64Max →
      ∃ a, addAll {} calls W = .ok a) := by
  have hw := within_zero hunits hcalls
  refine ⟨fun pre a hpre hrun => ?_, fun hfit =>
    Bounded.addAll_ok hW hfit calls {} 0 0 (bounded_zero U k W) hw hord (fun _ _ => Nat.zero_le _)⟩
  obtain ⟨rest, rfl⟩ := hpre
  have hwpre : Within U k {} 0 0 pre := by
    intro o
    have := hw o
    rw [unitsAt_append, callsAt_append] at this
    omega
  have hv := Bounded.valueEx_le_run hW pre {} a 0 0 (bounded_zero U k W) hwpre hrun
  exact ⟨hv, average_le_of_valueEx_le hv⟩

/-- three calls at window 10, at most five units in two calls per ordinal -/
theorem sample_average_bounded :
    (∀ pre a, pre <+: [(3, 0), (2, 0), (5, 4)] → addAll {} pre 10 = .ok a →
      a.valueEx ≤ 5 * rateLimitingPrecision + 2 * (10 - 1) ∧
        a.average ≤ 5 + integerDivideCeil (2 * 10) rateLimitingPrecision) ∧
    ((5 * rateLimitingPrecision + 2 * 10) * (10 + 1) ≤ uint64Max →
      ∃ a, addAll {} [(3, 0), (2, 0), (5, 4)] 10 = .ok a) :=
  average_bounded (by decide) (by decide) (by decide) (by decide)

/-- window 1, the largest units `add` takes at ordinals 0 and 1: `U * P + k * W` fits in 64
bits, and the second call fails the check on the value before its decay -/
theorem average_overflow_within_bound :
    maxRawValue * rateLimitingPrecision + 1 * 1 ≤ uint64Max ∧
      addAll {} [(maxRawValue, 0), (maxRawValue, 1)] 1 =
        .error "Overflow in accumulated value when adding usage!" := by
  decide

end UsageAccumulator

end Eos.Resource
