import Eoscochain.Auth.Checker
import Eoscochain.Lib.Assert

/-!
# The authorization manager

libraries/chain authorization_manager.cpp, permission_object.hpp and permission_link_object.hpp:
the permissions of the accounts, each under a parent, the links of actions to a minimum
permission, and the two checks of a transaction's authorizations.

* `AuthStore`            the tables `account`, `permission` (with the object reserving id 0) and
                         `permission_link`;
* `getPermission`, `lookupMinimumPermission`, `PermissionObject.satisfies`   the queries;
* `checkAuthorization`   every declared authorization relevant and satisfied by the provided
                         keys, permissions and delay, and no key provided in vain;
* `getRequiredKeys`      the candidate keys that satisfying the declared authorizations uses.

`permission_object::satisfies` walks up a chain of parents: `none` stands for a walk that does
not end, and the checks that meet it fail with `satisfiesLoopError`.
-/

set_option linter.unusedSectionVars false

namespace Eos.Auth

open Machine

/-! ## Names -/

/-- `config::system_account_name` -/
def systemAccountName : Nat := stringToName "eosio"
/-- `config::owner_name` -/
def ownerName : Nat := stringToName "owner"
/-- `config::active_name` -/
def activeName : Nat := stringToName "active"
/-- `config::eosio_any_name` -/
def eosioAnyName : Nat := stringToName "eosio.any"

def updateauthName : Nat := stringToName "updateauth"
def deleteauthName : Nat := stringToName "deleteauth"
def linkauthName : Nat := stringToName "linkauth"
def unlinkauthName : Nat := stringToName "unlinkauth"
def canceldelayName : Nat := stringToName "canceldelay"

/-- `fc::microseconds::maximum()` -/
def microsecondsMaximum : Nat := 2 ^ 63 - 1

/-! ## The store -/

/-- `account_object`, the fields the authorization actions read -/
structure AccountObject where
  name : Nat
  privileged : Bool := false
  deriving DecidableEq, Repr

/-- `permission_object` -/
structure PermissionObject where
  id : Nat
  parent : Nat
  owner : Nat
  name : Nat
  auth : Authority
  deriving DecidableEq, Repr

/-- `permission_link_object` -/
structure PermissionLinkObject where
  account : Nat
  code : Nat
  messageType : Nat
  requiredPermission : Nat
  deriving DecidableEq, Repr

/-- the chain's `chain_config`, the fields the checks read -/
structure AuthConfig where
  maxAuthorityDepth : Nat
  /-- in seconds -/
  maxTransactionDelay : Nat

/-- `config::default_max_auth_depth` and `config::default_max_trx_delay` -/
def defaultAuthConfig : AuthConfig := ⟨6, 45 * 24 * 3600⟩

/-- the tables of the authorization manager; `nextPermissionId` is the id the next permission
gets -/
structure AuthStore where
  accounts : List AccountObject := []
  permissions : List PermissionObject := []
  links : List PermissionLinkObject := []
  nextPermissionId : Nat := 0

/-- `initialize_database`: the permission reserving id 0, every field default -/
def AuthStore.initial : AuthStore where
  permissions := [{ id := 0, parent := 0, owner := 0, name := 0, auth := {} }]
  nextPermissionId := 1

namespace AuthStore

variable (m : AuthStore)

/-- `find_permission` -/
def findPermission (level : PermissionLevel) : Except String (Option PermissionObject) := do
  assert (level.actor != 0 && level.permission != 0) "Failed to retrieve permission: ${level}"
  pure (m.permissions.find? fun p => p.owner == level.actor && p.name == level.permission)

/-- `get_permission` -/
def getPermission (level : PermissionLevel) : Except String PermissionObject := do
  match ← m.findPermission level with
  | some p => pure p
  | none => throw "Failed to retrieve permission: ${level}"

/-- `[&](const permission_level& p){ return get_permission(p).auth; }`; every error of
`get_permission` is a `permission_query_exception` -/
def permissionToAuthority (level : PermissionLevel) : Option Authority :=
  match m.getPermission level with
  | .ok p => some p.auth
  | .error _ => none

/-- `lookup_linked_permission`: the link of the action, else the contract's default link -/
def lookupLinkedPermission (account scope actName : Nat) : Option Nat :=
  match m.links.find? fun l => l.account == account && l.code == scope && l.messageType == actName with
  | some l => some l.requiredPermission
  | none =>
    (m.links.find? fun l => l.account == account && l.code == scope && l.messageType == 0).map
      (·.requiredPermission)

/-- the native actions that cannot be linked -/
def unlinkableNames : List Nat :=
  [updateauthName, deleteauthName, linkauthName, unlinkauthName, canceldelayName]

/-- `lookup_minimum_permission`: `active` without a link, none for a link to `eosio.any` -/
def lookupMinimumPermission (account scope actName : Nat) : Except String (Option Nat) := do
  if scope = systemAccountName then
    assert (!unlinkableNames.contains actName)
      "cannot call lookup_minimum_permission on native actions that are not allowed to be linked to minimum permissions"
  match m.lookupLinkedPermission account scope actName with
  | none => pure (some activeName)
  | some name => pure (if name = eosioAnyName then none else some name)

end AuthStore

/-- the walk up the parents of `permission_object::satisfies` from the permission `parentId`,
`fuel` steps at most -/
def satisfiesLoop (perms : List PermissionObject) (id : Nat) : Nat → Nat → Option Bool
  | 0, _ => none
  | fuel + 1, parentId =>
    match perms.find? (·.id == parentId) with
    | none => none
    | some parent =>
      if id = parent.parent then some true
      else if parent.parent = 0 then some false
      else satisfiesLoop perms id fuel parent.parent

/-- `permission_object::satisfies`: `other` is this permission or one of its descendants -/
def PermissionObject.satisfies (this other : PermissionObject) (perms : List PermissionObject) :
    Option Bool :=
  if this.owner ≠ other.owner then some false
  else if this.id = other.id ∨ this.id = other.parent then some true
  else satisfiesLoop perms this.id (perms.length + 1) other.parent

/-- the failure of a check that meets a walk of `satisfies` that does not end -/
def satisfiesLoopError : String := "permission_object::satisfies does not terminate"

/-- `EOS_ASSERT(declared.satisfies(minimum, …), irrelevant_auth_exception, msg)` -/
def requireSatisfies (m : AuthStore) (declared minimum : PermissionObject) (msg : String) :
    Except String Unit :=
  match declared.satisfies minimum m.permissions with
  | some true => pure ()
  | some false => throw msg
  | none => throw satisfiesLoopError

/-! ## Transactions -/

/-- `updateauth` -/
structure UpdateAuth where
  account : Nat
  permission : Nat
  parent : Nat
  auth : Authority
  deriving DecidableEq, Repr

/-- `deleteauth` -/
structure DeleteAuth where
  account : Nat
  permission : Nat
  deriving DecidableEq, Repr

/-- `linkauth` -/
structure LinkAuth where
  account : Nat
  code : Nat
  type : Nat
  requirement : Nat
  deriving DecidableEq, Repr

/-- `unlinkauth` -/
structure UnlinkAuth where
  account : Nat
  code : Nat
  type : Nat
  deriving DecidableEq, Repr

/-- `canceldelay` -/
structure CancelDelay where
  cancelingAuth : PermissionLevel
  trxId : Nat
  deriving DecidableEq, Repr

/-- what an action does: one of the native actions the checks read, or the action `name` of
the contract `account`, neither `eosio` with a native name -/
inductive ActionBody
  | updateauth (u : UpdateAuth)
  | deleteauth (d : DeleteAuth)
  | linkauth (l : LinkAuth)
  | unlinkauth (u : UnlinkAuth)
  | canceldelay (c : CancelDelay)
  | other (account name : Nat)
  deriving DecidableEq, Repr

/-- `action`, the fields the checks read -/
structure Action where
  body : ActionBody
  authorization : List PermissionLevel
  deriving DecidableEq, Repr

namespace Action

def account (a : Action) : Nat :=
  match a.body with
  | .other account _ => account
  | _ => systemAccountName

def name (a : Action) : Nat :=
  match a.body with
  | .updateauth _ => updateauthName
  | .deleteauth _ => deleteauthName
  | .linkauth _ => linkauthName
  | .unlinkauth _ => unlinkauthName
  | .canceldelay _ => canceldelayName
  | .other _ name => name

end Action

/-- a row of `generated_transaction`, the fields `canceldelay` reads -/
structure GeneratedTransaction where
  trxId : Nat
  sender : Nat
  /-- the declared authorizations of its actions -/
  authorizations : List PermissionLevel
  /-- `delay_until - published`, in microseconds -/
  delay : Nat

/-! ## The native actions' own checks -/

namespace AuthStore

variable (m : AuthStore)

/-- the one declared authorization of a native action -/
def singleAuth (auths : List PermissionLevel) (msg : String) : Except String PermissionLevel :=
  match auths with
  | [auth] => pure auth
  | _ => throw msg

/-- `check_updateauth_authorization` -/
def checkUpdateauthAuthorization (update : UpdateAuth) (auths : List PermissionLevel) :
    Except String Unit := do
  let auth ← singleAuth auths "updateauth action should only have one declared authorization"
  assert (auth.actor == update.account)
    "the owner of the affected permission needs to be the actor of the declared authorization"
  -- a new permission is checked against its parent
  let minPermission ← match ← m.findPermission ⟨update.account, update.permission⟩ with
    | some p => pure p
    | none => m.getPermission ⟨update.account, update.parent⟩
  let declared ← m.getPermission auth
  requireSatisfies m declared minPermission
    "updateauth action declares irrelevant authority '${auth}'; minimum authority is ${min}"

/-- `check_deleteauth_authorization` -/
def checkDeleteauthAuthorization (del : DeleteAuth) (auths : List PermissionLevel) :
    Except String Unit := do
  let auth ← singleAuth auths "deleteauth action should only have one declared authorization"
  assert (auth.actor == del.account)
    "the owner of the permission to delete needs to be the actor of the declared authorization"
  let minPermission ← m.getPermission ⟨del.account, del.permission⟩
  let declared ← m.getPermission auth
  requireSatisfies m declared minPermission
    "updateauth action declares irrelevant authority '${auth}'; minimum authority is ${min}"

/-- `check_linkauth_authorization` -/
def checkLinkauthAuthorization (link : LinkAuth) (auths : List PermissionLevel) :
    Except String Unit := do
  let auth ← singleAuth auths "link action should only have one declared authorization"
  assert (auth.actor == link.account)
    "the owner of the linked permission needs to be the actor of the declared authorization"
  assert (link.type != updateauthName) "Cannot link eosio::updateauth to a minimum permission"
  assert (link.type != deleteauthName) "Cannot link eosio::deleteauth to a minimum permission"
  assert (link.type != linkauthName) "Cannot link eosio::linkauth to a minimum permission"
  assert (link.type != unlinkauthName) "Cannot link eosio::unlinkauth to a minimum permission"
  assert (link.type != canceldelayName) "Cannot link eosio::canceldelay to a minimum permission"
  match ← m.lookupMinimumPermission link.account link.code link.type with
  | none => pure ()
  | some linked =>
    let declared ← m.getPermission auth
    let minPermission ← m.getPermission ⟨link.account, linked⟩
    requireSatisfies m declared minPermission
      "link action declares irrelevant authority '${auth}'; minimum authority is ${min}"

/-- `check_unlinkauth_authorization` -/
def checkUnlinkauthAuthorization (unlink : UnlinkAuth) (auths : List PermissionLevel) :
    Except String Unit := do
  let auth ← singleAuth auths "unlink action should only have one declared authorization"
  assert (auth.actor == unlink.account)
    "the owner of the linked permission needs to be the actor of the declared authorization"
  match m.lookupLinkedPermission unlink.account unlink.code unlink.type with
  | none =>
    throw "cannot unlink non-existent permission link of account '${account}' for actions matching '${code}::${action}'"
  | some unlinked =>
    if unlinked = eosioAnyName then pure ()
    else do
      let declared ← m.getPermission auth
      let minPermission ← m.getPermission ⟨unlink.account, unlinked⟩
      requireSatisfies m declared minPermission
        "unlink action declares irrelevant authority '${auth}'; minimum authority is ${min}"

/-- `check_canceldelay_authorization`: the delay of the transaction to cancel -/
def checkCanceldelayAuthorization (deferred : List GeneratedTransaction) (cancel : CancelDelay)
    (auths : List PermissionLevel) : Except String Nat := do
  let auth ← singleAuth auths "canceldelay action should only have one declared authorization"
  let declared ← m.getPermission auth
  let minPermission ← m.getPermission cancel.cancelingAuth
  requireSatisfies m declared minPermission
    "canceldelay action declares irrelevant authority '${auth}'; specified authority to satisfy is ${min}"
  match deferred.find? (·.trxId == cancel.trxId) with
  | some trx =>
    assert (trx.sender == 0)
      "cannot cancel trx_id=${tid}, there is no deferred transaction with that transaction id"
    assert (trx.authorizations.contains cancel.cancelingAuth)
      "canceling_auth in canceldelay action was not found as authorization in the original delayed transaction"
    pure trx.delay
  | none => throw "cannot cancel trx_id=${tid}, there is no deferred transaction with that transaction id"

/-- the special cases of `check_authorization`: the delay a native action is checked under, or
`none` for an action that is not one -/
def checkNative (deferred : List GeneratedTransaction) (act : Action) (delay : Nat) :
    Except String (Option Nat) :=
  match act.body with
  | .updateauth u => (fun _ => some delay) <$> m.checkUpdateauthAuthorization u act.authorization
  | .deleteauth d => (fun _ => some delay) <$> m.checkDeleteauthAuthorization d act.authorization
  | .linkauth l => (fun _ => some delay) <$> m.checkLinkauthAuthorization l act.authorization
  | .unlinkauth u => (fun _ => some delay) <$> m.checkUnlinkauthAuthorization u act.authorization
  | .canceldelay c =>
    (fun d => some (max delay d)) <$> m.checkCanceldelayAuthorization deferred c act.authorization
  | .other _ _ => pure none

/-- the check that a declared authorization of an ordinary action is at least its minimum -/
def checkRelevant (act : Action) (declared : PermissionLevel) : Except String Unit := do
  match ← m.lookupMinimumPermission declared.actor act.account act.name with
  | none => pure ()
  | some minName =>
    let minPermission ← m.getPermission ⟨declared.actor, minName⟩
    let declaredPermission ← m.getPermission declared
    requireSatisfies m declaredPermission minPermission
      "action declares irrelevant authority '${auth}'; minimum authority is ${min}"

end AuthStore

/-- `permissions_to_satisfy.emplace`: a level declared again keeps the least delay; the map in
ascending order of levels -/
def emplaceMin (level : PermissionLevel) (delay : Nat) :
    List (PermissionLevel × Nat) → List (PermissionLevel × Nat)
  | [] => [(level, delay)]
  | (l, d) :: rest =>
    if l = level then (l, min d delay) :: rest
    else if level.lt l then (level, delay) :: (l, d) :: rest
    else (l, d) :: emplaceMin level delay rest

namespace AuthStore

variable (m : AuthStore)

/-- the declared authorizations of one action, checked and put in the map -/
def declareAction (deferred : List GeneratedTransaction) (delay : Nat)
    (toSatisfy : List (PermissionLevel × Nat)) (act : Action) :
    Except String (List (PermissionLevel × Nat)) := do
  let special ← m.checkNative deferred act delay
  let declare (toSatisfy : List (PermissionLevel × Nat)) (declared : PermissionLevel) :
      Except String (List (PermissionLevel × Nat)) := do
    match special with
    | some d => pure (emplaceMin declared d toSatisfy)
    | none =>
      m.checkRelevant act declared
      pure (emplaceMin declared delay toSatisfy)
  act.authorization.foldlM declare toSatisfy

end AuthStore

/-- the checker over the permissions of the store -/
def AuthStore.checker (m : AuthStore) (cfg : AuthConfig) (keys : List Nat)
    (permissions : List PermissionLevel) (delay : Nat) : AuthorityChecker where
  permissionToAuthority := m.permissionToAuthority
  recursionDepthLimit := cfg.maxAuthorityDepth
  providedKeys := keys
  providedPermissions := permissions
  providedDelay := delay

/-- each level satisfied in turn under its delay, the key marks carried along -/
def satisfyEach (c : AuthorityChecker) (msg : String) :
    List (PermissionLevel × Nat) → List Bool → Except String (List Bool)
  | [], marks => pure marks
  | (level, delay) :: rest, marks => do
    let r := c.satisfiedWithDelay level delay marks
    assert r.1 msg
    satisfyEach c msg rest r.2

/-- the failure of `check_authorization` on a declared authorization -/
def unsatisfiedMessage : String :=
  "transaction declares authority '${auth}', but does not have signatures for it under a provided delay of ${provided_delay} ms, provided permissions ${provided_permissions}, provided keys ${provided_keys}, and a delay max limit of ${delay_max_limit_ms} ms"

/-- `authorization_manager::check_authorization` on the actions of a transaction -/
def checkAuthorization (m : AuthStore) (cfg : AuthConfig) (deferred : List GeneratedTransaction)
    (actions : List Action) (providedKeys : List Nat) (providedPermissions : List PermissionLevel)
    (providedDelay : Nat) (allowUnusedKeys : Bool) : Except String Unit := do
  let delayMaxLimit := cfg.maxTransactionDelay * 1000000
  let effectiveProvidedDelay :=
    if providedDelay ≥ delayMaxLimit then microsecondsMaximum else providedDelay
  let c := m.checker cfg providedKeys providedPermissions effectiveProvidedDelay
  let toSatisfy ← actions.foldlM (m.declareAction deferred effectiveProvidedDelay) []
  let marks ← satisfyEach c unsatisfiedMessage toSatisfy c.freshMarks
  if !allowUnusedKeys then
    assert (AuthorityChecker.allKeysUsed marks) "transaction bears irrelevant signatures from these keys: ${keys}"

/-- `authorization_manager::get_required_keys` -/
def getRequiredKeys (m : AuthStore) (cfg : AuthConfig) (trx : List Action)
    (candidateKeys : List Nat) (providedDelay : Nat) : Except String (List Nat) := do
  let c := m.checker cfg candidateKeys [] providedDelay
  let marks ← satisfyEach c
    "transaction declares authority '${auth}', but does not have signatures for it."
    ((trx.flatMap (·.authorization)).map (·, providedDelay)) c.freshMarks
  pure (c.usedKeys marks)

end Eos.Auth
