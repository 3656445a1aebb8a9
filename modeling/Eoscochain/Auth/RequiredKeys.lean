import Eoscochain.Auth.Manager

/-!
# Required keys

What `get_required_keys` answers, and what `check_authorization` then does with the answer.
`get_required_keys` succeeds exactly when each declared authorization is satisfied by the
candidate keys on its own (`getRequiredKeys_ok_iff`), and answers candidate keys only.  But the
answer is read off the key marks, and a permission that a failed authority checked keeps its
cached verdict while its keys lose their marks: a permission satisfied only through such a
cached verdict gets no key in the answer, and `check_authorization` then rejects the answer
(`required_keys_rejected_by_check_authorization`), and rejects the needed key as irrelevant
(`needed_key_reported_irrelevant`).
-/

set_option linter.unusedSectionVars false

namespace Eos.Auth

open Machine

theorem satisfyEach_ok_iff {c : AuthorityChecker} {msg : String} :
    ∀ (levels : List (PermissionLevel × Nat)) (marks : List Bool),
      (∃ marks', satisfyEach c msg levels marks = .ok marks') ↔
        ∀ l ∈ levels, (c.satisfiedWithDelay l.1 l.2 c.freshMarks).1 = true
  | [], marks => ⟨fun _ _ hl => absurd hl List.not_mem_nil, fun _ => ⟨marks, rfl⟩⟩
  | (level, delay) :: rest, marks => by
    have hfresh : (c.satisfiedWithDelay level delay marks).1
        = (c.satisfiedWithDelay level delay c.freshMarks).1 :=
      AuthorityChecker.satisfied_marks _ level c.freshMarks marks
    rw [List.forall_mem_cons]
    cases hr : (c.satisfiedWithDelay level delay marks).1 with
    | false =>
      constructor
      · rintro ⟨marks', h⟩
        simp only [satisfyEach, hr, assert_false] at h
        exact nomatch h
      · rintro ⟨hhead, -⟩
        rw [← hfresh, hr] at hhead
        cases hhead
    | true =>
      have hstep : satisfyEach c msg ((level, delay) :: rest) marks
          = satisfyEach c msg rest (c.satisfiedWithDelay level delay marks).2 := by
        simp [satisfyEach, hr]
      rw [hstep, satisfyEach_ok_iff rest, ← hfresh, hr]
      simp

/-- **`get_required_keys` succeeds exactly when every declared authorization is satisfied by
the candidate keys, each checked alone.** -/
theorem getRequiredKeys_ok_iff (m : AuthStore) (cfg : AuthConfig) (trx : List Action)
    (candidateKeys : List Nat) (providedDelay : Nat) :
    (∃ keys, getRequiredKeys m cfg trx candidateKeys providedDelay = .ok keys) ↔
      ∀ act ∈ trx, ∀ p ∈ act.authorization,
        let c := m.checker cfg candidateKeys [] providedDelay
        (c.satisfied p c.freshMarks).1 = true := by
  let c := m.checker cfg candidateKeys [] providedDelay
  have heach := @satisfyEach_ok_iff c "transaction declares authority '${auth}', but does not have signatures for it."
    ((trx.flatMap (·.authorization)).map (·, providedDelay)) c.freshMarks
  constructor
  · rintro ⟨keys, h⟩ act hact p hp
    obtain ⟨marks, hmarks, -⟩ := bind_eq_ok.mp h
    have hall := heach.mp ⟨marks, hmarks⟩
    exact hall (p, providedDelay) (List.mem_map.mpr ⟨p, List.mem_flatMap.mpr ⟨act, hact, hp⟩, rfl⟩)
  · intro h
    obtain ⟨marks, hmarks⟩ := heach.mpr fun l hl => by
      obtain ⟨p, hp, rfl⟩ := List.mem_map.mp hl
      obtain ⟨act, hact, hp⟩ := List.mem_flatMap.mp hp
      exact h act hact p hp
    exact ⟨c.usedKeys marks, bind_eq_ok.mpr ⟨marks, hmarks, rfl⟩⟩

/-! ## A permission satisfied through a failed authority -/

/-- `1@active` needs `2@5` (weight two) or `3@6`; `2@5` needs both `3@6` and the key `200`;
`3@6` needs the key `300` -/
def sampleAuthStore : AuthStore where
  accounts := [{ name := 1 }, { name := 2 }, { name := 3 }]
  permissions := [
    { id := 0, parent := 0, owner := 0, name := 0, auth := {} },
    { id := 1, parent := 0, owner := 1, name := ownerName, auth := { threshold := 1, keys := [⟨100, 1⟩] } },
    { id := 2, parent := 1, owner := 1, name := activeName,
      auth := { threshold := 1, accounts := [⟨⟨2, 5⟩, 2⟩, ⟨⟨3, 6⟩, 1⟩] } },
    { id := 3, parent := 0, owner := 2, name := ownerName, auth := { threshold := 1, keys := [⟨101, 1⟩] } },
    { id := 4, parent := 3, owner := 2, name := 5,
      auth := { threshold := 2, keys := [⟨200, 1⟩], accounts := [⟨⟨3, 6⟩, 1⟩] } },
    { id := 5, parent := 0, owner := 3, name := ownerName, auth := { threshold := 1, keys := [⟨102, 1⟩] } },
    { id := 6, parent := 5, owner := 3, name := 6, auth := { threshold := 1, keys := [⟨300, 1⟩] } }]
  links := []
  nextPermissionId := 7

/-- one action of the contract `7` declaring `1@active` -/
def sampleTrx : List Action := [{ body := .other 7 8, authorization := [⟨1, activeName⟩] }]

theorem required_keys_rejected_by_check_authorization :
    getRequiredKeys sampleAuthStore defaultAuthConfig sampleTrx [300] 0 = .ok [] ∧
      checkAuthorization sampleAuthStore defaultAuthConfig [] sampleTrx [] [] 0 false
        = .error unsatisfiedMessage :=
  ⟨by decide +kernel, by decide +kernel⟩

theorem needed_key_reported_irrelevant :
    checkAuthorization sampleAuthStore defaultAuthConfig [] sampleTrx [300] [] 0 true = .ok () ∧
      checkAuthorization sampleAuthStore defaultAuthConfig [] sampleTrx [300] [] 0 false
        = .error "transaction bears irrelevant signatures from these keys: ${keys}" :=
  ⟨by decide +kernel, by decide +kernel⟩

end Eos.Auth
