import Eoscochain.Chain.Types

/-!
# Authorities

libraries/chain authority.hpp and the ordering of authority_checker.hpp: an authority is a
threshold over weighted keys, permissions of accounts and delays.  Names and keys are `Nat`; a
`weight_type` is a `uint16_t` and the sums of weights stay far below `2^32` for the authorities
`validate` accepts, so the weights are `Nat` too.

* `Authority`, `validate`   the authority and the check of `newaccount` and `updateauth`;
* `MetaPermission`          one weighted entry, of any of the three kinds;
* `metaPermissions`         the entries in the order `authority_checker` visits them: a
                            `flat_multiset` ordered by weight, then kind, descending.
-/

set_option linter.unusedSectionVars false

namespace Eos.Auth

/-- `permission_level` -/
structure PermissionLevel where
  actor : Nat
  permission : Nat
  deriving DecidableEq, Repr

namespace PermissionLevel

/-- `operator<`: by actor, then permission -/
def lt (a b : PermissionLevel) : Bool :=
  a.actor < b.actor || (a.actor == b.actor && a.permission < b.permission)

end PermissionLevel

/-- `key_weight` -/
structure KeyWeight where
  key : Nat
  weight : Nat
  deriving DecidableEq, Repr

/-- `permission_level_weight` -/
structure PermissionLevelWeight where
  permission : PermissionLevel
  weight : Nat
  deriving DecidableEq, Repr

/-- `wait_weight` -/
structure WaitWeight where
  waitSec : Nat
  weight : Nat
  deriving DecidableEq, Repr

/-- `authority` -/
structure Authority where
  threshold : Nat := 0
  keys : List KeyWeight := []
  accounts : List PermissionLevelWeight := []
  waits : List WaitWeight := []
  deriving DecidableEq, Repr

/-- consecutive entries in strictly increasing order by `lt` -/
def strictlyIncreasing {α : Type} (lt : α → α → Bool) : List α → Bool
  | a :: b :: rest => lt a b && strictlyIncreasing lt (b :: rest)
  | _ => true

/-- `validate(authority)` -/
def validate (auth : Authority) : Bool :=
  let total := (auth.keys.map (·.weight)).sum + (auth.accounts.map (·.weight)).sum
    + (auth.waits.map (·.weight)).sum
  auth.keys.length + auth.accounts.length + auth.waits.length ≤ 2 ^ 16
    && auth.threshold != 0
    && strictlyIncreasing (fun a b => a.key < b.key) auth.keys
    && strictlyIncreasing (fun a b => a.permission.lt b.permission) auth.accounts
    && (auth.waits.head?.map (·.waitSec) != some 0)
    && strictlyIncreasing (fun a b => a.waitSec < b.waitSec) auth.waits
    && decide (total ≥ auth.threshold)

/-- `meta_permission`: the alternatives in the order of the `static_variant` -/
inductive MetaPermission
  | account (p : PermissionLevelWeight)
  | key (k : KeyWeight)
  | wait (w : WaitWeight)
  deriving DecidableEq, Repr

namespace MetaPermission

def weight : MetaPermission → Nat
  | account p => p.weight
  | key k => k.weight
  | wait w => w.weight

/-- `which()` -/
def which : MetaPermission → Nat
  | account _ => 0
  | key _ => 1
  | wait _ => 2

/-- `meta_permission_comparator`: `(weight, which)` descending -/
def before (a b : MetaPermission) : Bool :=
  b.weight < a.weight || (a.weight == b.weight && b.which < a.which)

end MetaPermission

/-- `flat_multiset::insert`: at the end of the entries not ordered after it -/
def insertMeta (x : MetaPermission) : List MetaPermission → List MetaPermission
  | [] => [x]
  | e :: es => if x.before e then x :: e :: es else e :: insertMeta x es

/-- the entries of an authority, in the order they are inserted: waits, keys, accounts -/
def entries (auth : Authority) : List MetaPermission :=
  auth.waits.map MetaPermission.wait ++ auth.keys.map MetaPermission.key
    ++ auth.accounts.map MetaPermission.account

/-- the entries of an authority as `authority_checker` visits them -/
def metaPermissions (auth : Authority) : List MetaPermission :=
  (entries auth).foldl (fun set x => insertMeta x set) []

theorem mem_insertMeta {x y : MetaPermission} :
    ∀ {set : List MetaPermission}, y ∈ insertMeta x set ↔ y = x ∨ y ∈ set
  | [] => by simp [insertMeta]
  | e :: es => by
    unfold insertMeta
    split
    · simp
    · simp only [List.mem_cons, mem_insertMeta]
      tauto

theorem mem_foldl_insertMeta {y : MetaPermission} :
    ∀ (xs set : List MetaPermission),
      y ∈ xs.foldl (fun set x => insertMeta x set) set ↔ y ∈ xs ∨ y ∈ set
  | [], set => by simp
  | x :: xs, set => by
    rw [List.foldl_cons, mem_foldl_insertMeta xs, mem_insertMeta]
    simp only [List.mem_cons]
    tauto

theorem mem_metaPermissions {auth : Authority} {y : MetaPermission} :
    y ∈ metaPermissions auth ↔ y ∈ entries auth := by
  rw [metaPermissions, mem_foldl_insertMeta]
  simp

end Eos.Auth
