import Mathlib.Logic.Basic

/-!
# Transactional state machines

A component whose every request is one transaction is a step function
`step : σ → α → Except ε σ`: an action either aborts, and the transaction that carried it is
rolled back, or it yields the next state.

* `apply1 step s a`            one action; an aborted action leaves the state as it was;
* `exec step s as`             the actions of a list, one after the other;
* `Reachable step init s`      `s` is reached from `init` by successful actions;
* `ReachableWhen adm step init s`  the same, with every action admitted by `adm` in the state
                               it is applied to (a discipline on the runs, such as "this
                               administrative action only while a table is empty");
* `Admitted adm step s as`     each action of `as` is admitted in the state the run reaches
                               before it;
* `Reachable.inv`, `ReachableWhen.inv`  the induction rules: an invariant that holds initially
                               and is kept by every successful (admitted) step holds in every
                               reachable state;
* `succeeded step s as`        the actions of a run that succeeded, its log; `exec_succeeded_inv`
                               (`exec_succeeded_inv_when` for runs of admitted actions) the
                               induction rule for an invariant of a state and its log;
* `sinceLast p l`              the part of a log after its last entry satisfying `p`.
-/

set_option linter.unusedSectionVars false

namespace Machine

section
variable {σ α ε : Type*}

/-- one action of a transactional machine; an abort rolls the state back -/
def apply1 (step : σ → α → Except ε σ) (s : σ) (a : α) : σ :=
  match step s a with
  | .ok s' => s'
  | .error _ => s

/-- the actions of a list, in order -/
def exec (step : σ → α → Except ε σ) : σ → List α → σ
  | s, [] => s
  | s, a :: as => exec step (apply1 step s a) as

theorem exec_nil (step : σ → α → Except ε σ) (s : σ) : exec step s [] = s := rfl

theorem exec_cons (step : σ → α → Except ε σ) (s : σ) (a : α) (as : List α) :
    exec step s (a :: as) = exec step (apply1 step s a) as := rfl

theorem exec_append (step : σ → α → Except ε σ) (s : σ) (as bs : List α) :
    exec step s (as ++ bs) = exec step (exec step s as) bs := by
  induction as generalizing s with
  | nil => rfl
  | cons a as ih => exact ih (apply1 step s a)

theorem apply1_of_ok {step : σ → α → Except ε σ} {s s' : σ} {a : α} (h : step s a = .ok s') :
    apply1 step s a = s' := by
  simp [apply1, h]

theorem apply1_of_error {step : σ → α → Except ε σ} {s : σ} {a : α} {e : ε}
    (h : step s a = .error e) : apply1 step s a = s := by
  simp [apply1, h]

/-- states reached by successful actions, each admitted by `adm` in the state it acts on -/
inductive ReachableWhen (adm : σ → α → Prop) (step : σ → α → Except ε σ) (init : σ) : σ → Prop
  | init : ReachableWhen adm step init init
  | step {s s' : σ} {a : α} :
      ReachableWhen adm step init s → adm s a → step s a = .ok s' → ReachableWhen adm step init s'

/-- states reached by successful actions -/
def Reachable (step : σ → α → Except ε σ) (init : σ) (s : σ) : Prop :=
  ReachableWhen (fun _ _ => True) step init s

/-- **Induction over admitted runs.** -/
theorem ReachableWhen.inv {adm : σ → α → Prop} {step : σ → α → Except ε σ} {init s : σ}
    (I : σ → Prop) (h0 : I init)
    (hstep : ∀ s a s', I s → adm s a → step s a = .ok s' → I s')
    (h : ReachableWhen adm step init s) : I s := by
  induction h with
  | init => exact h0
  | step _ ha hs ih => exact hstep _ _ _ ih ha hs

/-- **Induction over runs.** -/
theorem Reachable.inv {step : σ → α → Except ε σ} {init s : σ} (I : σ → Prop) (h0 : I init)
    (hstep : ∀ s a s', I s → step s a = .ok s' → I s') (h : Reachable step init s) : I s :=
  ReachableWhen.inv I h0 (fun s a s' hs _ hst => hstep s a s' hs hst) h

theorem ReachableWhen.mono {adm adm' : σ → α → Prop} {step : σ → α → Except ε σ} {init s : σ}
    (hadm : ∀ s a, adm s a → adm' s a) (h : ReachableWhen adm step init s) :
    ReachableWhen adm' step init s := by
  induction h with
  | init => exact .init
  | step _ ha hs ih => exact .step ih (hadm _ _ ha) hs

theorem reachableWhen_exec {adm : σ → α → Prop} {step : σ → α → Except ε σ} {init : σ} :
    ∀ (as : List α) (s : σ), ReachableWhen adm step init s →
      (∀ t a, a ∈ as → adm t a) → ReachableWhen adm step init (exec step s as)
  | [], _, hs, _ => hs
  | a :: as, s, hs, hadm => by
    rw [exec_cons]
    apply reachableWhen_exec as
    · unfold apply1
      split
      · next s' h => exact .step hs (hadm s a List.mem_cons_self) h
      · exact hs
    · exact fun t b hb => hadm t b (List.mem_cons_of_mem _ hb)

/-- each action of the list is admitted in the state it is applied to -/
def Admitted (adm : σ → α → Prop) (step : σ → α → Except ε σ) : σ → List α → Prop
  | _, [] => True
  | s, a :: as => adm s a ∧ Admitted adm step (apply1 step s a) as

theorem reachableWhen_exec_admitted {adm : σ → α → Prop} {step : σ → α → Except ε σ}
    {init : σ} : ∀ (as : List α) (s : σ), ReachableWhen adm step init s →
      Admitted adm step s as → ReachableWhen adm step init (exec step s as)
  | [], _, hs, _ => hs
  | a :: as, s, hs, ⟨ha, hadm⟩ => by
    rw [exec_cons]
    apply reachableWhen_exec_admitted as _ _ hadm
    unfold apply1
    split
    · next s' h => exact .step hs ha h
    · exact hs

theorem reachable_exec {step : σ → α → Except ε σ} {init : σ} (as : List α) :
    Reachable step init (exec step init as) :=
  reachableWhen_exec as init .init (fun _ _ _ => trivial)

/-- the actions of a run that succeeded, in order -/
def succeeded (step : σ → α → Except ε σ) : σ → List α → List α
  | _, [] => []
  | s, a :: as =>
    match step s a with
    | .ok s' => a :: succeeded step s' as
    | .error _ => succeeded step s as

/-- **Induction over runs with their log.**  An invariant of a state and the log of the actions
that led to it, kept by every successful step of an admitted action, holds at the end of every
run of admitted actions. -/
theorem exec_succeeded_inv_when {step : σ → α → Except ε σ} (adm : α → Prop)
    (I : σ → List α → Prop) (hstep : ∀ s l a s', adm a → I s l → step s a = .ok s' → I s' (l ++ [a])) :
    ∀ (as : List α) (s : σ) (l : List α), (∀ a ∈ as, adm a) → I s l →
      I (exec step s as) (l ++ succeeded step s as)
  | [], s, l, _, h => by
    rw [exec_nil, succeeded, List.append_nil]
    exact h
  | a :: as, s, l, hadm, h => by
    rw [exec_cons, succeeded]
    have hrest : ∀ b ∈ as, adm b := fun b hb => hadm b (List.mem_cons_of_mem _ hb)
    cases hs : step s a with
    | ok s' =>
      dsimp only
      rw [apply1_of_ok hs, ← List.singleton_append, ← List.append_assoc]
      exact exec_succeeded_inv_when adm I hstep as s' (l ++ [a]) hrest
        (hstep s l a s' (hadm a List.mem_cons_self) h hs)
    | error e =>
      dsimp only
      rw [apply1_of_error hs]
      exact exec_succeeded_inv_when adm I hstep as s l hrest h

theorem exec_succeeded_inv {step : σ → α → Except ε σ} (I : σ → List α → Prop)
    (hstep : ∀ s l a s', I s l → step s a = .ok s' → I s' (l ++ [a])) (as : List α) (s : σ)
    (l : List α) (h : I s l) : I (exec step s as) (l ++ succeeded step s as) :=
  exec_succeeded_inv_when (fun _ => True) I (fun s l a s' _ => hstep s l a s') as s l
    (fun _ _ => trivial) h

/-- the entries of a log after its last one satisfying `p`; all of it if none does -/
def sinceLast (p : α → Bool) (l : List α) : List α := (l.reverse.takeWhile (fun a => !p a)).reverse

@[simp] theorem sinceLast_nil (p : α → Bool) : sinceLast p [] = [] := rfl

theorem sinceLast_concat_of_pos {p : α → Bool} (l : List α) {a : α} (h : p a = true) :
    sinceLast p (l ++ [a]) = [] := by
  simp [sinceLast, h]

theorem sinceLast_concat_of_neg {p : α → Bool} (l : List α) {a : α} (h : p a = false) :
    sinceLast p (l ++ [a]) = sinceLast p l ++ [a] := by
  simp [sinceLast, h]

theorem sinceLast_suffix (p : α → Bool) (l : List α) : (sinceLast p l).IsSuffix l := by
  rw [← List.reverse_prefix, sinceLast, List.reverse_reverse]
  exact List.takeWhile_prefix _

end

end Machine
