import Mathlib.Logic.Basic

/-!
# Assertions in the exception monad

Code that checks a condition and throws (an assertion macro, a failed lookup) is a computation
in `Except ε`.  Here the assertion and the rules that peel such a computation apart: a
successful run of `x >>= f` is a successful `x` followed by a successful `f`, and a successful
assertion is a true condition.

* `assert b e`             `pure ()` if `b`, else the error `e`;
* `bind_eq_ok`             the inversion rule for a successful bind;
* `assert_bind_eq_ok`, `assert_bind_of_false`   a guard that passes, a guard that fails;
* `ite_bind_eq_ok`         a check made only under a condition;
* `bind_eq_error`          where the error of a bind comes from;
* `foldlM_inv`             the induction rule for a loop over a list: what each iteration keeps
                           holds after the loop;
* `forM_eq_ok`             a loop of checks passes iff each check does.
-/

set_option linter.unusedSectionVars false

namespace Machine

section
variable {ε α β : Type}

/-- an assertion: nothing if `b` holds, the error `e` otherwise -/
def assert (b : Bool) (e : ε) : Except ε Unit := if b then pure () else throw e

@[simp] theorem assert_true (e : ε) : assert true e = pure () := rfl

@[simp] theorem assert_false (e : ε) : assert false e = throw e := rfl

theorem assert_of_true {b : Bool} (e : ε) (h : b = true) : assert b e = .ok () := by
  subst h
  rfl

theorem eq_true_of_assert_eq_ok {b : Bool} {e : ε} (h : assert b e = .ok ()) : b = true := by
  cases b with
  | false => cases h
  | true => rfl

theorem bind_eq_ok {x : Except ε α} {f : α → Except ε β} {r : β} :
    x >>= f = .ok r ↔ ∃ a, x = .ok a ∧ f a = .ok r := by
  cases x with
  | error e =>
    constructor
    · intro h
      cases h
    · rintro ⟨a, h, _⟩
      cases h
  | ok a =>
    constructor
    · intro h
      exact ⟨a, rfl, h⟩
    · rintro ⟨b, hb, h⟩
      cases hb
      exact h

theorem assert_bind_eq_ok {b : Bool} {e : ε} {f : Unit → Except ε β} {r : β} :
    assert b e >>= f = .ok r ↔ b = true ∧ f () = .ok r := by
  cases b with
  | false =>
    constructor
    · intro h
      cases h
    · rintro ⟨h, _⟩
      cases h
  | true => exact ⟨fun h => ⟨rfl, h⟩, fun ⟨_, h⟩ => h⟩

theorem assert_bind_of_false {b : Bool} {e : ε} (f : Unit → Except ε β) (h : b = false) :
    assert b e >>= f = .error e := by
  subst h
  rfl

theorem map_eq_ok {f : α → β} {x : Except ε α} {r : β} :
    f <$> x = .ok r ↔ ∃ a, x = .ok a ∧ f a = r := by
  cases x with
  | error e =>
    constructor
    · intro h
      cases h
    · rintro ⟨a, h, _⟩
      cases h
  | ok a =>
    constructor
    · intro h
      cases h
      exact ⟨a, rfl, rfl⟩
    · rintro ⟨b, hb, rfl⟩
      cases hb
      rfl

theorem bind_eq_error {x : Except ε α} {f : α → Except ε β} {e : ε} :
    x >>= f = .error e ↔ x = .error e ∨ ∃ a, x = .ok a ∧ f a = .error e := by
  cases x with
  | error e' =>
    constructor
    · intro h
      cases h
      exact .inl rfl
    · rintro (h | ⟨a, h, _⟩)
      · cases h
        rfl
      · cases h
  | ok a =>
    constructor
    · intro h
      exact .inr ⟨a, rfl, h⟩
    · rintro (h | ⟨b, hb, h⟩)
      · cases h
      · cases hb
        exact h

theorem ite_bind_eq_ok {c : Prop} [Decidable c] {y : Except ε Unit} {x : Except ε β} {r : β}
    (h : (if c then y >>= fun _ => x else x) = .ok r) : x = .ok r := by
  split at h
  · obtain ⟨-, -, h⟩ := bind_eq_ok.mp h
    exact h
  · exact h

/-- **Induction over a loop.** -/
theorem foldlM_inv {f : β → α → Except ε β} (P : β → Prop)
    (hf : ∀ s a s', P s → f s a = .ok s' → P s') :
    ∀ (l : List α) (s s' : β), P s → l.foldlM f s = .ok s' → P s'
  | [], s, s', hs, h => by
    cases h
    exact hs
  | a :: l, s, s', hs, h => by
    rw [List.foldlM_cons] at h
    obtain ⟨s1, h1, h⟩ := bind_eq_ok.mp h
    exact foldlM_inv P hf l s1 s' (hf s a s1 hs h1) h

theorem forM_eq_ok {f : α → Except ε Unit} :
    ∀ {l : List α}, l.forM f = .ok () ↔ ∀ a ∈ l, f a = .ok ()
  | [] => iff_of_true rfl fun _ h => absurd h List.not_mem_nil
  | a :: l => by
    change (f a >>= fun _ => l.forM f) = .ok () ↔ _
    rw [bind_eq_ok, List.forall_mem_cons, ← forM_eq_ok]
    constructor
    · rintro ⟨⟨⟩, ha, hl⟩
      exact ⟨ha, hl⟩
    · rintro ⟨ha, hl⟩
      exact ⟨(), ha, hl⟩

theorem error_bind {e : ε} (f : α → Except ε β) : (Except.error e >>= f) = .error e := rfl

theorem ok_bind {a : α} (f : α → Except ε β) : (Except.ok a >>= f) = f a := rfl

end

end Machine
