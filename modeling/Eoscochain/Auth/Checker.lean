import Eoscochain.Auth.Authority
import Mathlib.Algebra.Order.BigOperators.Group.List
import Mathlib.Algebra.Order.Group.Nat

/-!
# The authority checker

libraries/chain authority_checker.hpp.  A checker holds the provided keys, permissions and
delay, and a mark for each key that some satisfied authority used.  Checking a permission walks
its authority's entries from the heaviest down, summing the weights satisfied until the
threshold is reached; a permission of another account is checked one level deeper, through a
cache that remembers each verdict.  An authority that is not satisfied puts the key marks back
as they were (`KeyReverter`), but not the cache.

* `visit`, `tally`, `satisfiedAuth`   `weight_tally_visitor` and the private `satisfied`, with
                                      `fuel` the levels left before `recursion_depth_limit`;
* `satisfied`, `satisfiedWithDelay`   the public `satisfied` on a permission level;
* `usedKeys`, `allKeysUsed`           what the marks report;
* `satisfiedAuth_marks`               the verdicts and the cache never depend on the marks.
-/

set_option linter.unusedSectionVars false

namespace Eos.Auth

/-- `permission_cache_status` -/
inductive PermissionCacheStatus
  | beingEvaluated
  | permissionUnsatisfied
  | permissionSatisfied
  deriving DecidableEq, Repr

/-- `permission_cache_type`, newest entry first -/
abbrev PermissionCache := List (PermissionLevel × PermissionCacheStatus)

/-- `permission_status_in_cache`: the level, else the actor with an empty permission name -/
def permissionStatusInCache (cache : PermissionCache) (level : PermissionLevel) :
    Option PermissionCacheStatus :=
  match cache.lookup level with
  | some st => some st
  | none => cache.lookup { level with permission := 0 }

/-- `authority_checker`, but for `_used_keys`: what it is built with -/
structure AuthorityChecker where
  /-- `permission_to_authority`; `none` where it throws `permission_query_exception` -/
  permissionToAuthority : PermissionLevel → Option Authority
  recursionDepthLimit : Nat
  providedKeys : List Nat
  providedPermissions : List PermissionLevel
  /-- in microseconds -/
  providedDelay : Nat

/-- what a check changes: `_used_keys`, a mark for each provided key, and the permission
cache -/
structure TallyState where
  usedKeyMarks : List Bool
  cache : PermissionCache

/-- the check of an authority one level down, or `none` at the depth limit -/
abbrev SubCheck := Option (Authority → TallyState → Bool × TallyState)

namespace AuthorityChecker

variable (c : AuthorityChecker)

/-- `_used_keys` as `make_auth_checker` sets it -/
def freshMarks : List Bool := c.providedKeys.map fun _ => false

/-- `weight_tally_visitor` on one entry: the total weight after it -/
def visit (sub : SubCheck) (total : Nat) (s : TallyState) : MetaPermission → Nat × TallyState
  | .wait w => if w.waitSec * 1000000 ≤ c.providedDelay then (total + w.weight, s) else (total, s)
  | .key k =>
    match c.providedKeys.idxOf? k.key with
    | some i => (total + k.weight, { s with usedKeyMarks := s.usedKeyMarks.set i true })
    | none => (total, s)
  | .account p =>
    match permissionStatusInCache s.cache p.permission with
    | some .permissionSatisfied => (total + p.weight, s)
    | some _ => (total, s)
    | none =>
      -- past the depth limit, and for a permission that does not exist, nothing is added
      match sub, c.permissionToAuthority p.permission with
      | some sub, some auth =>
        let (r, s) := sub auth { s with cache := (p.permission, .beingEvaluated) :: s.cache }
        if r then (total + p.weight, { s with cache := (p.permission, .permissionSatisfied) :: s.cache })
        else (total, { s with cache := (p.permission, .permissionUnsatisfied) :: s.cache })
      | _, _ => (total, s)

/-- the loop of `satisfied(authority, …)`: the entries in order until the threshold is met -/
def tally (sub : SubCheck) (threshold : Nat) :
    List MetaPermission → Nat → TallyState → Bool × TallyState
  | [], _, s => (false, s)
  | p :: ps, total, s =>
    let (total, s) := c.visit sub total s p
    if threshold ≤ total then (true, s) else tally sub threshold ps total s

/-- `KeyReverter`: the marks as they were at `s`, unless the authority was satisfied -/
def keyReverter (s : TallyState) : Bool × TallyState → Bool × TallyState
  | (true, s') => (true, s')
  | (false, s') => (false, { s' with usedKeyMarks := s.usedKeyMarks })

/-- the private `satisfied(authority, cached_permissions, depth)`, with `fuel` the depth limit
less `depth` -/
def satisfiedAuth : Nat → Authority → TallyState → Bool × TallyState
  | 0, auth, s => keyReverter s (c.tally none auth.threshold (metaPermissions auth) 0 s)
  | f + 1, auth, s =>
    keyReverter s (c.tally (some (satisfiedAuth f)) auth.threshold (metaPermissions auth) 0 s)

/-- the check one level below the top, or none with a depth limit of zero -/
def topSub : SubCheck :=
  match c.recursionDepthLimit with
  | 0 => none
  | f + 1 => some (c.satisfiedAuth f)

/-- `satisfied(permission)` from the marks `marks`: a fresh cache holding the provided
permissions, and the permission visited as an account of weight one -/
def satisfied (p : PermissionLevel) (marks : List Bool) : Bool × List Bool :=
  let s : TallyState :=
    { usedKeyMarks := marks, cache := c.providedPermissions.map (·, .permissionSatisfied) }
  let r := c.visit c.topSub 0 s (.account { permission := p, weight := 1 })
  (decide (0 < r.1), r.2.usedKeyMarks)

/-- `satisfied(authority)`: a fresh cache holding the provided permissions, the authority at
depth `0` -/
def satisfiedAuthority (auth : Authority) (marks : List Bool) : Bool × List Bool :=
  let s : TallyState :=
    { usedKeyMarks := marks, cache := c.providedPermissions.map (·, .permissionSatisfied) }
  let r := c.satisfiedAuth c.recursionDepthLimit auth s
  (r.1, r.2.usedKeyMarks)

/-- `satisfied(permission, override_provided_delay)` -/
def satisfiedWithDelay (p : PermissionLevel) (delay : Nat) (marks : List Bool) :
    Bool × List Bool :=
  { c with providedDelay := delay }.satisfied p marks

/-- `used_keys()` -/
def usedKeys (marks : List Bool) : List Nat :=
  ((c.providedKeys.zip marks).filter (·.2)).map (·.1)

/-- `all_keys_used()` -/
def allKeysUsed (marks : List Bool) : Bool := marks.all id

/-! ## The marks are written, never read -/

/-- a check that, from other marks, runs the same and ends with other marks only -/
def MarksBlind {α : Type} (f : TallyState → α × TallyState) : Prop :=
  ∀ s u, ∃ u', f { s with usedKeyMarks := u } = ((f s).1, { (f s).2 with usedKeyMarks := u' })

/-- a depth with no check below, or one whose checks are all blind to the marks -/
def SubBlind : SubCheck → Prop
  | none => True
  | some sub => ∀ auth, MarksBlind (sub auth)

theorem visit_marks {sub : SubCheck} (hsub : SubBlind sub) (total : Nat) (p : MetaPermission) :
    MarksBlind fun s => c.visit sub total s p := by
  intro s u
  cases p with
  | wait w =>
    by_cases hw : w.waitSec * 1000000 ≤ c.providedDelay
    · exact ⟨u, by simp only [visit, if_pos hw]⟩
    · exact ⟨u, by simp only [visit, if_neg hw]⟩
  | key k =>
    cases hi : c.providedKeys.idxOf? k.key with
    | some i => exact ⟨u.set i true, by simp only [visit, hi]⟩
    | none => exact ⟨u, by simp only [visit, hi]⟩
  | account p =>
    cases hc : permissionStatusInCache s.cache p.permission with
    | some st => cases st <;> exact ⟨u, by simp only [visit, hc]⟩
    | none =>
      cases sub with
      | none => exact ⟨u, by simp only [visit, hc]⟩
      | some sub =>
        cases ha : c.permissionToAuthority p.permission with
        | none => exact ⟨u, by simp only [visit, hc, ha]⟩
        | some auth =>
          obtain ⟨u1, h1⟩ := hsub auth { s with cache := (p.permission, .beingEvaluated) :: s.cache } u
          simp only at h1
          cases hr : (sub auth { s with cache := (p.permission, .beingEvaluated) :: s.cache }).1 with
          | false => exact ⟨u1, by simp only [visit, hc, ha, h1, hr, Bool.false_eq_true, ↓reduceIte]⟩
          | true => exact ⟨u1, by simp only [visit, hc, ha, h1, hr, ↓reduceIte]⟩

theorem tally_marks {sub : SubCheck} (hsub : SubBlind sub) (threshold : Nat) :
    ∀ (ps : List MetaPermission) (total : Nat), MarksBlind fun s => c.tally sub threshold ps total s
  | [], _ => fun _ u => ⟨u, rfl⟩
  | p :: ps, total => by
    intro s u
    obtain ⟨u1, h1⟩ := c.visit_marks hsub total p s u
    beta_reduce at h1
    simp only [tally]
    rw [h1]
    obtain ⟨total1, s1⟩ := c.visit sub total s p
    simp only
    split
    · exact ⟨u1, rfl⟩
    · exact tally_marks hsub threshold ps total1 s1 u1

theorem satisfiedAuth_marks : ∀ (fuel : Nat) (auth : Authority), MarksBlind (c.satisfiedAuth fuel auth)
  | 0, auth => by
    intro s u
    obtain ⟨u1, h1⟩ := c.tally_marks (show SubBlind none from trivial) auth.threshold
      (metaPermissions auth) 0 s u
    beta_reduce at h1
    simp only [satisfiedAuth]
    rw [h1]
    obtain ⟨r, s1⟩ := c.tally none auth.threshold (metaPermissions auth) 0 s
    cases r
    · exact ⟨u, rfl⟩
    · exact ⟨u1, rfl⟩
  | f + 1, auth => by
    intro s u
    obtain ⟨u1, h1⟩ :=
      c.tally_marks (show SubBlind (some (c.satisfiedAuth f)) from fun a => satisfiedAuth_marks f a)
        auth.threshold (metaPermissions auth) 0 s u
    beta_reduce at h1
    simp only [satisfiedAuth]
    rw [h1]
    obtain ⟨r, s1⟩ := c.tally (some (c.satisfiedAuth f)) auth.threshold (metaPermissions auth) 0 s
    cases r
    · exact ⟨u, rfl⟩
    · exact ⟨u1, rfl⟩

theorem topSub_blind : SubBlind c.topSub := by
  unfold topSub
  split
  · trivial
  · exact fun auth => c.satisfiedAuth_marks _ auth

/-- **The verdict on a permission does not depend on the keys already marked.** -/
theorem satisfied_marks (p : PermissionLevel) (marks marks' : List Bool) :
    (c.satisfied p marks').1 = (c.satisfied p marks).1 := by
  obtain ⟨u, h⟩ := c.visit_marks c.topSub_blind 0 (.account { permission := p, weight := 1 })
    { usedKeyMarks := marks, cache := c.providedPermissions.map (·, .permissionSatisfied) } marks'
  simp only at h
  simp only [satisfied]
  rw [h]

/-! ## The uncached reference

What the cache stands for: an authority is satisfied iff the weights of its satisfied entries
reach its threshold, an account entry being satisfied iff its level or its actor's wildcard is
provided, or, above the depth limit, its permission exists and its authority is satisfied one
level down. -/

/-- the level, or its actor's wildcard, is a provided permission -/
def provided (level : PermissionLevel) : Bool :=
  c.providedPermissions.contains level || c.providedPermissions.contains { level with permission := 0 }

/-- a satisfied entry in the reference, `sub` deciding an authority one level down -/
def referenceEntry (sub : Option (Authority → Bool)) : MetaPermission → Bool
  | .wait w => decide (w.waitSec * 1000000 ≤ c.providedDelay)
  | .key k => c.providedKeys.contains k.key
  | .account p =>
    c.provided p.permission ||
      match sub, c.permissionToAuthority p.permission with
      | some sub, some auth => sub auth
      | _, _ => false

/-- the weight of the satisfied entries of an authority -/
def referenceWeight (sub : Option (Authority → Bool)) (auth : Authority) : Nat :=
  (((metaPermissions auth).filter (c.referenceEntry sub)).map MetaPermission.weight).sum

/-- the reference for an authority with `fuel` levels left above the depth limit -/
def referenceSatisfied : Nat → Authority → Bool
  | 0, auth => decide (auth.threshold ≤ c.referenceWeight none auth)
  | f + 1, auth => decide (auth.threshold ≤ c.referenceWeight (some (referenceSatisfied f)) auth)

/-- the reference for an authority at depth `0` -/
def reference (auth : Authority) : Bool := c.referenceSatisfied c.recursionDepthLimit auth

/-! ## Without recursion the cache is the provided permissions -/

theorem lookup_providedCache (l : List PermissionLevel) (level : PermissionLevel) :
    (l.map (·, PermissionCacheStatus.permissionSatisfied)).lookup level =
      if l.contains level then some .permissionSatisfied else none := by
  induction l with
  | nil => rfl
  | cons b l ih =>
    simp only [List.map_cons, List.lookup_cons, List.contains_cons, ih]
    cases level == b <;> rfl

theorem permissionStatusInCache_provided (level : PermissionLevel) :
    permissionStatusInCache (c.providedPermissions.map (·, .permissionSatisfied)) level =
      if c.provided level then some .permissionSatisfied else none := by
  unfold permissionStatusInCache provided
  rw [lookup_providedCache, lookup_providedCache]
  cases c.providedPermissions.contains level <;> rfl

theorem visit_none {s : TallyState} (hs : s.cache = c.providedPermissions.map (·, .permissionSatisfied))
    (total : Nat) (p : MetaPermission) :
    (c.visit none total s p).1 = total + (if c.referenceEntry none p then p.weight else 0) ∧
      (c.visit none total s p).2.cache = s.cache := by
  cases p with
  | wait w =>
    by_cases hw : w.waitSec * 1000000 ≤ c.providedDelay <;> simp [visit, referenceEntry, hw, MetaPermission.weight]
  | key k =>
    cases hi : c.providedKeys.idxOf? k.key with
    | some i =>
      have hmem : k.key ∈ c.providedKeys := List.isSome_idxOf?.1 (by rw [hi]; rfl)
      simp [visit, referenceEntry, hi, hmem, MetaPermission.weight]
    | none =>
      have hmem : k.key ∉ c.providedKeys := List.idxOf?_eq_none_iff.1 hi
      simp [visit, referenceEntry, hi, hmem]
  | account p =>
    by_cases hp : c.provided p.permission
    · simp [visit, referenceEntry, hs, permissionStatusInCache_provided, hp, MetaPermission.weight]
    · simp [visit, referenceEntry, hs, permissionStatusInCache_provided, hp]

theorem tally_none (threshold : Nat) :
    ∀ (ps : List MetaPermission) (total : Nat) (s : TallyState),
      s.cache = c.providedPermissions.map (·, .permissionSatisfied) → total < threshold →
      (c.tally none threshold ps total s).1 =
        decide (threshold ≤ total + ((ps.filter (c.referenceEntry none)).map MetaPermission.weight).sum)
  | [], total, s, _, hlt => by simp [tally, hlt]
  | p :: ps, total, s, hs, hlt => by
    obtain ⟨hv, hcache⟩ := c.visit_none hs total p
    rcases hstep : c.visit none total s p with ⟨total', s'⟩
    rw [hstep] at hv hcache
    simp only at hv hcache
    have hsum : (((p :: ps).filter (c.referenceEntry none)).map MetaPermission.weight).sum =
        (if c.referenceEntry none p then p.weight else 0) +
          ((ps.filter (c.referenceEntry none)).map MetaPermission.weight).sum := by
      by_cases he : c.referenceEntry none p <;> simp [he]
    generalize (if c.referenceEntry none p then p.weight else 0) = w at hv hsum
    simp only [tally, hstep, hsum]
    split
    · next hreach =>
      rw [eq_comm, decide_eq_true_iff]
      omega
    · next hshort =>
      rw [tally_none threshold ps total' s' (hcache.trans hs) (by omega), hv, Nat.add_assoc]

theorem keyReverter_fst (s : TallyState) (r : Bool × TallyState) : (keyReverter s r).1 = r.1 := by
  obtain ⟨b, s'⟩ := r
  cases b <;> rfl

end AuthorityChecker

/-! ## The reference is monotone -/

namespace AuthorityChecker

/-- `c'` checks against the database and the depth limit of `c`, and provides at least the
keys, the permissions and the delay `c` provides -/
structure Provides (c c' : AuthorityChecker) : Prop where
  database : c'.permissionToAuthority = c.permissionToAuthority
  depth : c'.recursionDepthLimit = c.recursionDepthLimit
  keys : ∀ k ∈ c.providedKeys, k ∈ c'.providedKeys
  permissions : ∀ p ∈ c.providedPermissions, p ∈ c'.providedPermissions
  delay : c.providedDelay ≤ c'.providedDelay

/-- a check one level down that accepts at least what another accepts -/
def SubLe : Option (Authority → Bool) → Option (Authority → Bool) → Prop
  | none, _ => True
  | some _, none => False
  | some f, some g => ∀ auth, f auth = true → g auth = true

section Mono
variable {c c' : AuthorityChecker} (h : Provides c c')
include h

theorem provided_mono {level : PermissionLevel} (hp : c.provided level = true) :
    c'.provided level = true := by
  simp only [provided, Bool.or_eq_true, List.contains_iff_mem] at hp ⊢
  exact hp.imp (h.permissions _) (h.permissions _)

theorem referenceEntry_mono {sub sub' : Option (Authority → Bool)} (hsub : SubLe sub sub')
    {p : MetaPermission} (hp : c.referenceEntry sub p = true) : c'.referenceEntry sub' p = true := by
  cases p with
  | wait w =>
    simp only [referenceEntry, decide_eq_true_eq] at hp ⊢
    exact Nat.le_trans hp h.delay
  | key k =>
    simp only [referenceEntry, List.contains_iff_mem] at hp ⊢
    exact h.keys _ hp
  | account p =>
    simp only [referenceEntry, Bool.or_eq_true] at hp ⊢
    rcases hp with hp | hp
    · exact .inl (provided_mono h hp)
    · -- the authority one level down is the same, and the larger check accepts it too
      right
      rw [h.database]
      cases sub with
      | none => simp at hp
      | some f =>
        cases sub' with
        | none => exact absurd hsub id
        | some g =>
          cases ha : c.permissionToAuthority p.permission with
          | none => simp [ha] at hp
          | some auth =>
            simp only [ha] at hp ⊢
            exact hsub auth hp

theorem referenceWeight_mono {sub sub' : Option (Authority → Bool)} (hsub : SubLe sub sub')
    (auth : Authority) : c.referenceWeight sub auth ≤ c'.referenceWeight sub' auth :=
  List.Sublist.sum_le_sum
    ((List.monotone_filter_right _ fun _ hp => referenceEntry_mono h hsub hp).map _)
    fun _ _ => Nat.zero_le _

theorem referenceSatisfied_mono :
    ∀ fuel auth, c.referenceSatisfied fuel auth = true → c'.referenceSatisfied fuel auth = true
  | 0, auth => by
    simp only [referenceSatisfied, decide_eq_true_eq]
    exact fun hs => Nat.le_trans hs (referenceWeight_mono h (show SubLe none none from trivial) auth)
  | f + 1, auth => by
    simp only [referenceSatisfied, decide_eq_true_eq]
    have hsub : SubLe (some (c.referenceSatisfied f)) (some (c'.referenceSatisfied f)) :=
      fun a => referenceSatisfied_mono f a
    exact fun hs => Nat.le_trans hs (referenceWeight_mono h hsub auth)

end Mono

end AuthorityChecker

/-! ## A database where the cache decides

`S = 1@1` is satisfied by key `10` or through `Q = 4@1`; `U = 2@1` through `V = 3@1`, itself
through `Q`; `Q` through `R = 5@1`, which key `20` satisfies.  The authority checked asks for
`S` and `U`. -/

/-- the authorities of `S`, `U`, `V`, `Q` and `R` -/
def sampleDatabase (level : PermissionLevel) : Option Authority :=
  match level.actor, level.permission with
  | 1, 1 => some { threshold := 1, keys := [⟨10, 2⟩], accounts := [⟨⟨4, 1⟩, 1⟩] }
  | 2, 1 => some { threshold := 1, accounts := [⟨⟨3, 1⟩, 1⟩] }
  | 3, 1 => some { threshold := 1, accounts := [⟨⟨4, 1⟩, 1⟩] }
  | 4, 1 => some { threshold := 1, accounts := [⟨⟨5, 1⟩, 1⟩] }
  | 5, 1 => some { threshold := 1, keys := [⟨20, 1⟩] }
  | _, _ => none

/-- the checker of the keys `keys` over `sampleDatabase`, nothing else provided, depth limit 3 -/
def sampleChecker (keys : List Nat) : AuthorityChecker where
  permissionToAuthority := sampleDatabase
  recursionDepthLimit := 3
  providedKeys := keys
  providedPermissions := []
  providedDelay := 0

/-- threshold 3 over `S` with weight 2 and `U` with weight 1 -/
def sampleAuthority : Authority := { threshold := 3, accounts := [⟨⟨1, 1⟩, 2⟩, ⟨⟨2, 1⟩, 1⟩] }

/-- With key `20`, `Q` is first checked under `S`, at depth 2, and cached satisfied; `V` reads
the cache at depth 2, where the reference checks `Q` at depth 3, below the limit of `R`: the
checker accepts what the reference refuses. -/
theorem permission_cache_not_transparent :
    ((sampleChecker [20]).satisfiedAuthority sampleAuthority [false]).1 = true ∧
      (sampleChecker [20]).reference sampleAuthority = false := by
  decide

/-- Adding key `10` satisfies `S` at its first entry, so `Q` is no longer checked there; it is
first checked under `V`, at depth 3, and cached unsatisfied: the checker refuses what it
accepted with fewer keys. -/
theorem authorization_not_monotone :
    AuthorityChecker.Provides (sampleChecker [20]) (sampleChecker [10, 20]) ∧
      ((sampleChecker [20]).satisfiedAuthority sampleAuthority [false]).1 = true ∧
      ((sampleChecker [10, 20]).satisfiedAuthority sampleAuthority [false, false]).1 = false :=
  ⟨⟨rfl, rfl, by decide, by decide, Nat.le_refl 0⟩, by decide, by decide⟩

end Eos.Auth
