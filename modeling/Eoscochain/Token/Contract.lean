import Eoscochain.Token.Asset
import Eoscochain.Icp.Contract

/-!
# The icp.token contract

contracts/icp.token icp.token.cpp and token.cpp: the contract that mirrors on this chain the
tokens of a peer chain.  A token issued by the contract `c` of the peer chain is kept in tables
scoped by `c`: its supply in `stat`, its holders in `accounts`.  Tokens of this chain sent to
the peer are first deposited (`deposit`) and locked while their packet is in flight (`locked`).

* `TokenState`    the singleton `co` and the tables `stat`, `accounts`, `deposit`, `locked`;
* `TokenEnv`      what the transaction gives an action: its authorities, the accounts that
                  exist, the state of the icp contracts;
* `TokenSend`     the inline actions the contract sends;
* `debit`, `credit`   `sub_balance` and `add_balance` on a table of balances;
* `apply`, `step` the dispatcher: this contract's actions, and the `transfer` of another token
                  contract that notifies this one.
-/

set_option linter.unusedSectionVars false

namespace Eos.Token

open Machine Table

/-- `token::collaborative_contract` -/
structure CollaborativeContract where
  icp : UInt64 := 0
  peer : UInt64 := 0
  deriving DecidableEq, Repr

/-- `token::account`, a row of `accounts` -/
structure Account where
  pk : UInt64
  account : UInt64
  balance : Asset
  deriving DecidableEq, Repr

/-- `token::account_deposit`, a row of `deposit`: the fields of `account` -/
abbrev AccountDeposit := Account

/-- `by_account_asset`, the key of the index `accountasset` -/
def Account.byAccountAsset (a : Account) : Nat := accountAssetKey a.account a.balance

/-- `token::account_stats`, a row of `stat` -/
structure AccountStats where
  supply : Asset
  deriving DecidableEq, Repr

def AccountStats.primaryKey (s : AccountStats) : Nat := (symbolName s.supply.symbol).toNat

/-- `token::account_locked`, a row of `locked` -/
structure AccountLocked where
  seq : Nat
  contract : UInt64
  account : UInt64
  balance : Asset
  refund : Bool
  deriving DecidableEq, Repr

/-- the tables of the contract; `stat`, `accounts` and `deposit` have a scope each -/
structure TokenState where
  co : Option CollaborativeContract := none
  stats : UInt64 → List AccountStats := fun _ => []
  accounts : UInt64 → List Account := fun _ => []
  deposits : UInt64 → List AccountDeposit := fun _ => []
  locked : List AccountLocked := []

/-- `_co`, read with `get_or_default` by the constructor -/
def TokenState.coContract (st : TokenState) : CollaborativeContract := st.co.getD {}

/-- what a transaction gives an action -/
structure TokenEnv where
  self : UInt64
  /-- the accounts whose authority the action carries -/
  auth : List UInt64
  isAccount : UInt64 → Bool
  /-- the icp contract at an account -/
  icp : UInt64 → Icp.IcpState

/-- `icp::transfer_args` -/
structure TransferArgs where
  contract : UInt64
  from' : UInt64
  to' : UInt64
  quantity : Asset
  memo : String
  refund : Bool
  deriving DecidableEq, Repr

/-- an inline action of the contract -/
inductive TokenSend
  /-- `icp::sendaction` of the icp contract `icp`: the packet's action is `icpreceive` of the
  peer token contract, its receipt's action `icpreceipt` of this contract -/
  | sendaction (icp : UInt64) (seq : Nat) (peer : UInt64) (args : TransferArgs)
      (expiration : UInt32) (self : UInt64)
  /-- `transfer` of a token contract -/
  | transfer (contract from' to' : UInt64) (quantity : Asset) (memo : String)
  deriving DecidableEq, Repr

/-- `require_auth(account)` -/
def requireAuth (env : TokenEnv) (account : UInt64) : Except String Unit :=
  assert (env.auth.contains account) "missing authority of ${account}"

/-- `std::numeric_limits<int64_t>::max()` -/
def int64Max : Int := 2 ^ 63 - 1

/-- `available_primary_key()` of a table of `uint64_t` keys; the two largest keys are tags -/
def availablePrimaryKey {α : Type} (pk : α → UInt64) (rows : List α) : Except String UInt64 := do
  let k := nextPk (fun r => (pk r).toNat) rows
  assert (decide (k < 2 ^ 64 - 2)) "next primary key in table is at autoincrement limit"
  pure (UInt64.ofNat k)

/-! ## Balances -/

/-- the row of `owner` for the symbol of `value` in a table of balances, found on the index
`accountasset` and erased if it holds exactly `value`, lowered by `value` otherwise:
`sub_balance`, and the deposit taken by `icptransfer` -/
def debit (rows : List Account) (owner : UInt64) (value : Asset) (msg : String) :
    Except String (List Account) := do
  let (i, a) ← getKey Account.byAccountAsset (accountAssetKey owner value) rows msg
  assert (decide (a.balance.amount ≥ value.amount)) "overdrawn balance"
  if a.balance.amount = value.amount then pure (rows.eraseIdx i)
  else do
    let b ← a.balance.sub value
    pure (rows.set i { a with balance := b })

/-- `add_balance` on a table of balances: a new row under the next primary key, or `+=` -/
def credit (rows : List Account) (owner : UInt64) (value : Asset) :
    Except String (List Account) :=
  match findKey Account.byAccountAsset (accountAssetKey owner value) rows with
  | none => do
    let pk ← availablePrimaryKey (·.pk) rows
    Icp.emplace (·.pk.toNat) { pk, account := owner, balance := value } rows
  | some (i, a) => do
    let b ← a.balance.add value
    pure (rows.set i { a with balance := b })

/-- `token::sub_balance` -/
def subBalance (st : TokenState) (contract owner : UInt64) (value : Asset) :
    Except String TokenState := do
  let rows ← debit (st.accounts contract) owner value "no balance object found"
  pure { st with accounts := Function.update st.accounts contract rows }

/-- `token::add_balance`; the RAM payer is not modelled -/
def addBalance (st : TokenState) (contract owner : UInt64) (value : Asset) :
    Except String TokenState := do
  let rows ← credit (st.accounts contract) owner value
  pure { st with accounts := Function.update st.accounts contract rows }

/-! ## Supply -/

/-- `token::mint` -/
def mint (env : TokenEnv) (st : TokenState) (contract to' : UInt64) (quantity : Asset) :
    Except String TokenState := do
  requireAuth env env.self
  assert (env.isAccount to') "to account does not exist"
  assert quantity.isValid "invalid quantity"
  assert (decide (quantity.amount > 0)) "must mint positive quantity"
  let symName := symbolName quantity.symbol
  let rows := st.stats contract
  let (i, s) ← getKey AccountStats.primaryKey symName.toNat rows
    "token with symbol does not exist, create token before mint"
  assert (quantity.symbol == s.supply.symbol) "symbol precision mismatch"
  assert (decide (quantity.amount ≤ int64Max - s.supply.amount)) "quantity exceeds available supply"
  let supply ← s.supply.add quantity
  let st := { st with stats := Function.update st.stats contract (rows.set i { supply }) }
  addBalance st contract to' quantity

/-- `token::burn` -/
def burn (env : TokenEnv) (st : TokenState) (contract from' : UInt64) (quantity : Asset) :
    Except String TokenState := do
  requireAuth env env.self
  assert (env.isAccount from') "from account does not exist"
  assert quantity.isValid "invalid quantity"
  assert (decide (quantity.amount > 0)) "must burn positive quantity"
  let symName := symbolName quantity.symbol
  -- `stats statstable(_self, sym_name)`: the scope is the symbol's name, not `contract`
  let rows := st.stats symName
  let (i, s) ← getKey AccountStats.primaryKey symName.toNat rows
    "token with symbol does not exist, create token before burn"
  assert (quantity.symbol == s.supply.symbol) "symbol precision mismatch"
  assert (decide (quantity.amount ≤ s.supply.amount)) "quantity exceeds available supply"
  let supply ← s.supply.sub quantity
  let st := { st with stats := Function.update st.stats symName (rows.set i { supply }) }
  subBalance st contract from' quantity

/-! ## Actions -/

/-- `token::setcontracts` -/
def setcontracts (env : TokenEnv) (st : TokenState) (icp peer : UInt64) :
    Except String TokenState := do
  requireAuth env env.self
  assert st.co.isNone "contracts already exist"
  pure { st with co := some { icp, peer } }

/-- `token::create`: the supply is a default `asset` given the symbol -/
def create (env : TokenEnv) (st : TokenState) (contract symbol : UInt64) :
    Except String TokenState := do
  requireAuth env env.self
  assert (isValidSymbol symbol) "invalid symbol name"
  let rows := st.stats contract
  assert (findKey AccountStats.primaryKey (symbolName symbol).toNat rows).isNone
    "token with symbol already exists"
  let rows ← Icp.emplace AccountStats.primaryKey { supply := { amount := 0, symbol } } rows
  pure { st with stats := Function.update st.stats contract rows }

/-- `token::transfer` -/
def transfer (env : TokenEnv) (st : TokenState) (contract from' to' : UInt64) (quantity : Asset)
    (memo : String) : Except String TokenState := do
  assert (from' != to') "cannot transfer to self"
  requireAuth env from'
  assert (env.isAccount to') "to account does not exist"
  let sym := symbolName quantity.symbol
  let (_, s) ← getKey AccountStats.primaryKey sym.toNat (st.stats contract) "unable to find key"
  assert quantity.isValid "invalid quantity"
  assert (decide (quantity.amount > 0)) "must transfer positive quantity"
  assert (quantity.symbol == s.supply.symbol) "symbol precision mismatch"
  assert (decide (memo.utf8ByteSize ≤ 256)) "memo has more than 256 bytes"
  let st ← subBalance st contract from' quantity
  addBalance st contract to' quantity

/-- `token::icp_transfer`: the asset locked under the packet's sequence number, and the packet
sent through the icp contract -/
def icpTransfer (env : TokenEnv) (st : TokenState) (contract from' icpTo : UInt64)
    (quantity : Asset) (memo : String) (expiration : UInt32) (refund : Bool) :
    Except String (TokenState × List TokenSend) := do
  let co := st.coContract
  assert (co.peer != 0) "empty remote peer contract"
  assert (co.icp != 0) "empty local icp contract"
  let seq ← (env.icp co.icp).nextPacketSeq
  let locked ← Icp.emplace (·.seq)
    { seq, contract, account := from', balance := quantity, refund } st.locked
  pure ({ st with locked },
    [.sendaction co.icp seq co.peer
      { contract, from', to' := icpTo, quantity, memo, refund } expiration env.self])

/-- `token::icpreceive` -/
def icpreceive (env : TokenEnv) (st : TokenState) (contract to' : UInt64) (quantity : Asset)
    (memo : String) (refund : Bool) : Except String (TokenState × List TokenSend) := do
  requireAuth env env.self
  assert (decide (memo.utf8ByteSize ≤ 256)) "memo has more than 256 bytes"
  if refund then pure (st, [.transfer contract env.self to' quantity memo])
  else (·, []) <$> mint env st contract to' quantity

/-- what `icpreceipt` does with the locked row of its packet before erasing it -/
def releaseLocked (env : TokenEnv) (st : TokenState) (l : AccountLocked) (status : Nat) :
    Except String (TokenState × List TokenSend) :=
  if status = Icp.receiptStatusExpired then
    if l.refund then (·, []) <$> mint env st l.contract l.account l.balance
    else pure (st, [.transfer l.contract env.self l.account l.balance "icp release locked asset"])
  else pure (st, [])

/-- `token::icpreceipt` -/
def icpreceipt (env : TokenEnv) (st : TokenState) (seq status : Nat) :
    Except String (TokenState × List TokenSend) := do
  requireAuth env env.self
  match st.locked.find? (·.seq == seq) with
  | none => pure (st, [])
  | some l => do
    let (st, sends) ← releaseLocked env st l status
    pure ({ st with locked := st.locked.erase l }, sends)

/-- `token::icprefund` -/
def icprefund (env : TokenEnv) (st : TokenState) (contract from' icpTo : UInt64)
    (quantity : Asset) (memo : String) (expiration : UInt32) :
    Except String (TokenState × List TokenSend) := do
  requireAuth env from'
  assert (decide (memo.utf8ByteSize ≤ 256)) "memo has more than 256 bytes"
  let st ← burn env st contract from' quantity
  icpTransfer env st contract from' icpTo quantity memo expiration true

/-- `token::icptransfer` -/
def icptransfer (env : TokenEnv) (st : TokenState) (contract from' icpTo : UInt64)
    (quantity : Asset) (memo : String) (expiration : UInt32) :
    Except String (TokenState × List TokenSend) := do
  requireAuth env from'
  let rows ← debit (st.deposits contract) from' quantity "no deposit object found"
  let st := { st with deposits := Function.update st.deposits contract rows }
  icpTransfer env st contract from' icpTo quantity memo expiration false

/-! ## Transfers of other token contracts -/

/-- `isspace` -/
def isSpace (c : Char) : Bool :=
  c = ' ' || c = '\t' || c = '\n' || c = '\x0b' || c = '\x0c' || c = '\r'

/-- the decimal value of a list of digits -/
def digitsValue (ds : List Char) : Nat :=
  ds.foldl (fun v d => v * 10 + (d.toNat - '0'.toNat)) 0

/-- `std::stoul` with a 32-bit `unsigned long`: blanks, a sign, decimal digits.  No digit, or a
value past `2^32 - 1`, throws, and the exception aborts the transaction -/
def stoul (h : String) : Except String Nat := do
  let cs := h.toList.dropWhile isSpace
  let neg := cs.head? == some '-'
  let cs := if neg || cs.head? == some '+' then cs.tail else cs
  let ds := cs.takeWhile Char.isDigit
  assert (!ds.isEmpty) "abort() called"
  let v := digitsValue ds
  assert (decide (v < 2 ^ 32)) "abort() called"
  pure (if neg then (2 ^ 32 - v) % 2 ^ 32 else v)

/-- the memo `icp <account> <expiration>`: the text up to the blank after `icp `, and the text
after that blank -/
def splitIcpMemo (memo : String) : Option (String × String) :=
  let rest := memo.toList.drop 4
  match rest.findIdx? (· == ' ') with
  | some j => some (String.ofList (rest.take j), String.ofList (rest.drop (j + 1)))
  | none => none

/-- the deposit branch: the row whose primary key is the symbol's name; a new row gets only its
balance, the primary key and the account keep what the new object holds, taken to be zero -/
def deposit (st : TokenState) (contract : UInt64) (quantity : Asset) :
    Except String TokenState := do
  let rows := st.deposits contract
  match findKey (·.pk.toNat) (symbolName quantity.symbol).toNat rows with
  | none =>
    let rows ← Icp.emplace (·.pk.toNat) { pk := 0, account := 0, balance := quantity } rows
    pure { st with deposits := Function.update st.deposits contract rows }
  | some (i, dp) =>
    let b ← dp.balance.add quantity
    pure { st with deposits := Function.update st.deposits contract (rows.set i { dp with balance := b }) }

/-- `token::icp_transfer_or_deposit` -/
def icpTransferOrDeposit (env : TokenEnv) (st : TokenState) (contract from' to' : UInt64)
    (quantity : Asset) (memo : String) : Except String (TokenState × List TokenSend) :=
  if to' ≠ env.self then pure (st, [])
  else if "icp ".toList.isPrefixOf memo.toList then
    match splitIcpMemo memo with
    | none => throw "invalid icp token transfer memo"
    | some (n, h) => do
      let expiration ← stoul h
      icpTransfer env st contract from' (UInt64.ofNat (stringToName n)) quantity memo
        (UInt32.ofNat expiration) false
  else (·, []) <$> deposit st contract quantity

/-! ## Dispatcher -/

/-- a request to the contract: one of its actions, or the `transfer` of the token contract
`code` that notifies it -/
inductive TokenRequest
  | setcontracts (icp peer : UInt64)
  | create (contract symbol : UInt64)
  | transfer (contract from' to' : UInt64) (quantity : Asset) (memo : String)
  | icpreceive (contract icpFrom to' : UInt64) (quantity : Asset) (memo : String) (refund : Bool)
  | icpreceipt (seq status : Nat) (data : Codec.Bytes)
  | icptransfer (contract from' icpTo : UInt64) (quantity : Asset) (memo : String)
      (expiration : UInt32)
  | icprefund (contract from' icpTo : UInt64) (quantity : Asset) (memo : String)
      (expiration : UInt32)
  | tokenTransfer (code from' to' : UInt64) (quantity : Asset) (memo : String)
  deriving DecidableEq, Repr

/-- `apply`: the actions of `EOSIO_API`, and a `transfer` of another contract -/
def apply (env : TokenEnv) (st : TokenState) :
    TokenRequest → Except String (TokenState × List TokenSend)
  | .setcontracts icp peer => (·, []) <$> setcontracts env st icp peer
  | .create contract symbol => (·, []) <$> create env st contract symbol
  | .transfer contract from' to' quantity memo =>
    (·, []) <$> transfer env st contract from' to' quantity memo
  | .icpreceive contract _ to' quantity memo refund =>
    icpreceive env st contract to' quantity memo refund
  | .icpreceipt seq status _ => icpreceipt env st seq status
  | .icptransfer contract from' icpTo quantity memo expiration =>
    icptransfer env st contract from' icpTo quantity memo expiration
  | .icprefund contract from' icpTo quantity memo expiration =>
    icprefund env st contract from' icpTo quantity memo expiration
  | .tokenTransfer code from' to' quantity memo =>
    if code ≠ env.self then icpTransferOrDeposit env st code from' to' quantity memo
    else pure (st, [])

/-- the contract as a transactional machine: a request with its transaction's environment -/
def step (st : TokenState) (e : TokenEnv × TokenRequest) : Except String TokenState :=
  Prod.fst <$> apply e.1 st e.2

end Eos.Token
