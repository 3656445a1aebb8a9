import Eoscochain.Auth.Manager

/-!
# The native authorization actions

libraries/chain eosio_contract.cpp: `newaccount`, `updateauth`, `deleteauth`, `linkauth` and
`unlinkauth`, and the genesis accounts of controller.cpp.  A transaction of one such action is
first checked by `check_authorization` and then applied; the RAM it bills and the resource
limits `newaccount` initializes are not modelled here.

* `nameToString`                 `name::to_string()`, for the checks on names;
* `newaccount` … `unlinkauth`    the actions, with their checks in the order of the source;
* `AuthStore.genesis`            `eosio`, `eosio.null` and `eosio.prods` with their permissions;
* `NativeTransaction`, `step`    a signed transaction of one action, as a transactional step.
-/

set_option linter.unusedSectionVars false

namespace Eos.Auth

open Machine

def newaccountName : Nat := stringToName "newaccount"
/-- `config::eosio_code_name` -/
def eosioCodeName : Nat := stringToName "eosio.code"
/-- `config::null_account_name` -/
def nullAccountName : Nat := stringToName "eosio.null"
/-- `config::producers_account_name` -/
def producersAccountName : Nat := stringToName "eosio.prods"
/-- `config::majority_producers_permission_name` -/
def majorityProducersPermissionName : Nat := stringToName "prod.major"
/-- `config::minority_producers_permission_name` -/
def minorityProducersPermissionName : Nat := stringToName "prod.minor"

/-- the characters of `name::to_string()` -/
def nameCharmap : List Char := ".12345abcdefghijklmnopqrstuvwxyz".toList

/-- `name::to_string()`: twelve characters of five bits from the top, a thirteenth of four,
trailing dots trimmed -/
def nameToString (value : Nat) : List Char :=
  let str := (List.range 12).map (fun j => nameCharmap.getD ((value >>> (59 - 5 * j)) % 32) '.')
    ++ [nameCharmap.getD (value % 16) '.']
  (str.reverse.dropWhile (· == '.')).reverse

/-- the text starts with `eosio.` -/
def reservedName (value : Nat) : Bool := "eosio.".toList.isPrefixOf (nameToString value)

example : nameToString (stringToName "alice") = "alice".toList := by decide
example : reservedName (stringToName "eosio.code") = true := by decide

/-- what the actions read of their transaction and of the chain -/
structure NativeContext where
  /-- the declared authorizations of the action -/
  auths : List PermissionLevel
  producing : Bool := false
  keyBlacklist : List Nat := []
  /-- `max_transaction_delay`, in seconds -/
  maxTransactionDelay : Nat

/-- `apply_context::require_authorization(account)` -/
def requireAuthorization (ctx : NativeContext) (account : Nat) : Except String Unit :=
  assert (ctx.auths.any (·.actor == account)) "missing authority of ${account}"

/-- `newaccount` -/
structure NewAccount where
  creator : Nat
  name : Nat
  owner : Authority
  active : Authority
  deriving DecidableEq, Repr

namespace AuthStore

variable (m : AuthStore)

/-- `db.get<account_object, by_name>` -/
def getAccount (name : Nat) : Except String AccountObject :=
  match m.accounts.find? (·.name == name) with
  | some a => pure a
  | none => throw unknownKeyError

/-- `create_permission`: the next id, after the others -/
def createPermission (account name parent : Nat) (auth : Authority) :
    Except String (AuthStore × PermissionObject) := do
  assert (!(m.permissions.any fun q => q.owner == account && q.name == name)) insertViolation
  let p : PermissionObject := { id := m.nextPermissionId, parent, owner := account, name, auth }
  pure ({ m with permissions := m.permissions ++ [p], nextPermissionId := m.nextPermissionId + 1 }, p)

/-- `modify_permission` -/
def modifyPermission (p : PermissionObject) (auth : Authority) : AuthStore :=
  { m with permissions := m.permissions.map fun q => if q.id = p.id then { q with auth } else q }

/-- `remove_permission` -/
def removePermission (p : PermissionObject) : Except String AuthStore := do
  assert (!(m.permissions.any (·.parent == p.id)))
    "Cannot remove a permission which has children. Remove the children first."
  pure { m with permissions := m.permissions.filter (·.id != p.id) }

/-- `validate_authority_precondition`: the accounts an authority names exist, and so do their
permissions but `owner`, `active` and `eosio.code`; no blacklisted key while producing -/
def validateAuthorityPrecondition (ctx : NativeContext) (auth : Authority) : Except String Unit := do
  auth.accounts.forM fun a => do
    assert (m.accounts.any (·.name == a.permission.actor)) "account '${account}' does not exist"
    if a.permission.permission = ownerName ∨ a.permission.permission = activeName
        ∨ a.permission.permission = eosioCodeName then pure ()
    else
      match m.getPermission a.permission with
      | .ok _ => pure ()
      | .error _ => throw "permission '${perm}' does not exist"
  if ctx.producing then
    auth.keys.forM fun k =>
      assert (!ctx.keyBlacklist.contains k.key) "public key '${key}' is on the key blacklist"

/-- the owner and the active permission of a new account -/
def createAccountPermissions (name : Nat) (owner active : Authority) : Except String AuthStore := do
  let (m, ownerPermission) ← m.createPermission name ownerName 0 owner
  let (m, _) ← m.createPermission name activeName ownerPermission.id active
  pure m

/-- `apply_eosio_newaccount` -/
def newaccount (ctx : NativeContext) (create : NewAccount) : Except String AuthStore := do
  requireAuthorization ctx create.creator
  assert (validate create.owner) "Invalid owner authority"
  assert (validate create.active) "Invalid active authority"
  assert (create.name != 0) "account name cannot be empty"
  assert (decide ((nameToString create.name).length ≤ 12)) "account names can only be 12 chars long"
  let creator ← m.getAccount create.creator
  assert (creator.privileged || !reservedName create.name)
    "only privileged accounts can have names that start with 'eosio.'"
  assert (!(m.accounts.any (·.name == create.name)))
    "Cannot create account named ${name}, as that name is already taken"
  let m : AuthStore := { m with accounts := m.accounts ++ [{ name := create.name }] }
  m.validateAuthorityPrecondition ctx create.owner
  m.validateAuthorityPrecondition ctx create.active
  m.createAccountPermissions create.name create.owner create.active

/-- the parent that `updateauth` asks for: none for `owner`, which alone may have none -/
def checkParent (update : UpdateAuth) : Except String Unit :=
  if update.permission = ownerName then
    assert (update.parent == 0) "Cannot change owner authority's parent"
  else assert (update.parent != 0) "Only owner permission can have empty parent"

/-- the id of the parent of the permission `updateauth` sets -/
def parentId (update : UpdateAuth) : Except String Nat :=
  if update.permission = ownerName then pure 0
  else (·.id) <$> m.getPermission ⟨update.account, update.parent⟩

/-- `apply_eosio_updateauth` -/
def updateauth (ctx : NativeContext) (update : UpdateAuth) : Except String AuthStore := do
  requireAuthorization ctx update.account
  assert (update.permission != 0) "Cannot create authority with empty name"
  assert (!reservedName update.permission) "Permission names that start with 'eosio.' are reserved"
  assert (update.permission != update.parent) "Cannot set an authority as its own parent"
  let _ ← m.getAccount update.account
  assert (validate update.auth) "Invalid authority: ${auth}"
  assert (update.permission != activeName || update.parent == ownerName)
    "Cannot change active authority's parent from owner"
  checkParent update
  assert (update.auth.waits.getLast?.all (·.waitSec ≤ ctx.maxTransactionDelay))
    "Cannot set delay longer than max_transacton_delay, which is ${max_delay} seconds"
  m.validateAuthorityPrecondition ctx update.auth
  let permission ← m.findPermission ⟨update.account, update.permission⟩
  let parent ← m.parentId update
  match permission with
  | some p =>
    assert (parent == p.parent) "Changing parent authority is not currently supported"
    pure (m.modifyPermission p update.auth)
  | none => Prod.fst <$> m.createPermission update.account update.permission parent update.auth

/-- `apply_eosio_deleteauth` -/
def deleteauth (ctx : NativeContext) (remove : DeleteAuth) : Except String AuthStore := do
  requireAuthorization ctx remove.account
  assert (remove.permission != activeName) "Cannot delete active authority"
  assert (remove.permission != ownerName) "Cannot delete owner authority"
  assert (!(m.links.any fun l => l.account == remove.account && l.requiredPermission == remove.permission))
    "Cannot delete a linked authority. Unlink the authority first. This authority is linked to ${code}::${type}."
  let permission ← m.getPermission ⟨remove.account, remove.permission⟩
  m.removePermission permission

/-- the link of `account` for `code::type` -/
def findLink (account code type : Nat) : Option PermissionLinkObject :=
  m.links.find? fun l => l.account == account && l.code == code && l.messageType == type

/-- `apply_eosio_linkauth` -/
def linkauth (ctx : NativeContext) (requirement : LinkAuth) : Except String AuthStore := do
  assert (requirement.requirement != 0) "Required permission cannot be empty"
  requireAuthorization ctx requirement.account
  assert (m.accounts.any (·.name == requirement.account)) "Failed to retrieve account: ${account}"
  assert (m.accounts.any (·.name == requirement.code)) "Failed to retrieve code for account: ${account}"
  -- `find<permission_object, by_name>` on the name alone: a permission of any account
  assert (requirement.requirement == eosioAnyName
      || m.permissions.any (·.name == requirement.requirement))
    "Failed to retrieve permission: ${permission}"
  match m.findLink requirement.account requirement.code requirement.type with
  | some link =>
    assert (link.requiredPermission != requirement.requirement)
      "Attempting to update required authority, but new requirement is same as old"
    pure { m with links := m.links.map fun l =>
      if l = link then { l with requiredPermission := requirement.requirement } else l }
  | none =>
    pure { m with links := m.links ++
      [{ account := requirement.account, code := requirement.code,
         messageType := requirement.type, requiredPermission := requirement.requirement }] }

/-- `apply_eosio_unlinkauth` -/
def unlinkauth (ctx : NativeContext) (unlink : UnlinkAuth) : Except String AuthStore := do
  requireAuthorization ctx unlink.account
  match m.findLink unlink.account unlink.code unlink.type with
  | some link => pure { m with links := m.links.erase link }
  | none => throw "Attempting to unlink authority, but no link found"

end AuthStore

/-- a native action of the authorization manager -/
inductive NativeAction
  | newaccount (c : NewAccount)
  | updateauth (u : UpdateAuth)
  | deleteauth (d : DeleteAuth)
  | linkauth (l : LinkAuth)
  | unlinkauth (u : UnlinkAuth)
  deriving DecidableEq, Repr

/-- the action as `check_authorization` reads it -/
def NativeAction.body : NativeAction → ActionBody
  | .newaccount _ => .other systemAccountName newaccountName
  | .updateauth u => .updateauth u
  | .deleteauth d => .deleteauth d
  | .linkauth l => .linkauth l
  | .unlinkauth u => .unlinkauth u

/-- the handler of `eosio` for the action -/
def AuthStore.applyNative (m : AuthStore) (ctx : NativeContext) : NativeAction → Except String AuthStore
  | .newaccount c => m.newaccount ctx c
  | .updateauth u => m.updateauth ctx u
  | .deleteauth d => m.deleteauth ctx d
  | .linkauth l => m.linkauth ctx l
  | .unlinkauth u => m.unlinkauth ctx u

/-- a transaction of one native action: its declared authorizations, the keys that signed it
and its delay -/
structure NativeTransaction where
  action : NativeAction
  authorization : List PermissionLevel
  keys : List Nat
  delay : Nat := 0
  deriving DecidableEq, Repr

/-- the transaction checked by `check_authorization`, then its action applied -/
def step (cfg : AuthConfig) (m : AuthStore) (t : NativeTransaction) : Except String AuthStore := do
  checkAuthorization m cfg [] [{ body := t.action.body, authorization := t.authorization }]
    t.keys [] t.delay false
  m.applyNative { auths := t.authorization, maxTransactionDelay := cfg.maxTransactionDelay } t.action

/-- `authority(k)`: the key alone -/
def Authority.ofKey (k : Nat) : Authority := { threshold := 1, keys := [⟨k, 1⟩] }

/-- `create_native_account` -/
def AuthStore.createNativeAccount (m : AuthStore) (name : Nat) (owner active : Authority)
    (privileged : Bool) : Except String AuthStore :=
  let m : AuthStore := { m with accounts := m.accounts ++ [⟨name, privileged⟩] }
  m.createAccountPermissions name owner active

/-- `initialize_database` of the controller: `eosio` with the initial key, `eosio.null`, and
`eosio.prods` with its producers' permissions -/
def AuthStore.genesis (initialKey : Nat) : Except String AuthStore := do
  let m ← AuthStore.initial.createNativeAccount systemAccountName (Authority.ofKey initialKey)
    (Authority.ofKey initialKey) true
  let empty : Authority := { threshold := 1 }
  let producers : Authority := { threshold := 1, accounts := [⟨⟨systemAccountName, activeName⟩, 1⟩] }
  let m ← m.createNativeAccount nullAccountName empty empty false
  let m ← m.createNativeAccount producersAccountName empty producers false
  let active ← m.getPermission ⟨producersAccountName, activeName⟩
  let (m, majority) ← m.createPermission producersAccountName majorityProducersPermissionName
    active.id producers
  let (m, _) ← m.createPermission producersAccountName minorityProducersPermissionName
    majority.id producers
  pure m

end Eos.Auth
