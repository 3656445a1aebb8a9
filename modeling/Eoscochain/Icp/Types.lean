import Eoscochain.Lib.Codec
import Eoscochain.Chain.Types
import Eoscochain.Lib.Assert

/-!
# The records of the ICP contract and their bytes

contracts/icp types.hpp and eosiolib action.hpp, with the layout the datastream gives them:

* `Action`, `PermissionLevel`   an action as it is packed into an `icp_action` or a packet;
* `ActionReceipt`               the contract's `action_receipt`, whose code and abi sequences
                                are 32-bit integers;
* `IcpPacket`, `IcpReceipt`     the rows of tables `packets` and `receipts`, and the data of the
                                contract's `null` actions;
* a range `std::pair<uint64_t, uint64_t>`, the data of a cleanup's `null` action.

Integers are little-endian, a `bool` is one byte read as nonzero, `bytes` and vectors carry a
`unsigned_int` count.
-/

set_option linter.unusedSectionVars false

namespace Eos.Icp

open Codec

/-- `N(null)` -/
def nameNull : Nat := stringToName "null"

/-- `N(active)` -/
def nameActive : Nat := stringToName "active"

/-- `permission_level` -/
structure PermissionLevel where
  actor : Nat
  permission : Nat
  deriving DecidableEq, Repr

/-- `action` -/
structure Action where
  account : Nat
  name : Nat
  authorization : List PermissionLevel
  data : Bytes
  deriving DecidableEq, Repr

def PermissionLevel.pack (p : PermissionLevel) : Bytes := leBytes 8 p.actor ++ leBytes 8 p.permission

/-- `pack(action)`, as a contract packs the action it puts in a packet -/
def Action.pack (a : Action) : Bytes :=
  leBytes 8 a.account ++ leBytes 8 a.name ++ packVarUInt32 a.authorization.length ++
    a.authorization.flatMap PermissionLevel.pack ++ packBytes a.data

def PermissionLevel.unpack : Decoder PermissionLevel := fun bs => do
  let (actor, bs) ← readUInt 8 bs
  let (permission, bs) ← readUInt 8 bs
  pure (⟨actor, permission⟩, bs)

def Action.unpack : Decoder Action := fun bs => do
  let (account, bs) ← readUInt 8 bs
  let (name, bs) ← readUInt 8 bs
  let (authorization, bs) ← unpackVector PermissionLevel.unpack bs
  let (data, bs) ← unpackBytes bs
  pure (⟨account, name, authorization, data⟩, bs)

/-- `action_receipt` of types.hpp -/
structure ActionReceipt where
  receiver : Nat
  actDigest : Nat
  globalSequence : Nat
  recvSequence : Nat
  authSequence : FlatMap
  codeSequence : Nat
  abiSequence : Nat
  deriving DecidableEq, Repr

/-- a `flat_map<account_name, uint64_t>` read: the pairs emplaced one by one -/
def unpackFlatMap (bs : Bytes) : Except String (FlatMap × Bytes) := do
  let (pairs, bs) ← unpackVector (fun bs => do
    let (k, bs) ← readUInt 8 bs
    let (v, bs) ← readUInt 8 bs
    pure ((k, v), bs)) bs
  pure (pairs.foldl (fun m kv => m.emplace kv.1 kv.2) [], bs)

def ActionReceipt.unpack : Decoder ActionReceipt := fun bs => do
  let (receiver, bs) ← readUInt 8 bs
  let (actDigest, bs) ← readUInt 32 bs
  let (globalSequence, bs) ← readUInt 8 bs
  let (recvSequence, bs) ← readUInt 8 bs
  let (authSequence, bs) ← unpackFlatMap bs
  let (codeSequence, bs) ← readUInt 4 bs
  let (abiSequence, bs) ← readUInt 4 bs
  pure (⟨receiver, actDigest, globalSequence, recvSequence, authSequence, codeSequence,
    abiSequence⟩, bs)

def ActionReceipt.pack (r : ActionReceipt) : Bytes :=
  leBytes 8 r.receiver ++ leBytes 32 r.actDigest ++ leBytes 8 r.globalSequence
    ++ leBytes 8 r.recvSequence ++ packVarUInt32 r.authSequence.length
    ++ (r.authSequence.flatMap fun kv => leBytes 8 kv.1 ++ leBytes 8 kv.2)
    ++ leBytes 4 r.codeSequence ++ leBytes 4 r.abiSequence

/-- `icp_action`: the packed action, its packed receipt, the block and the action digests of
the block -/
structure IcpAction where
  action : Bytes
  actionReceipt : Bytes
  blockId : Nat
  merklePath : List Nat
  deriving DecidableEq, Repr

/-- `receipt_status` -/
def receiptStatusUnknown : Nat := 0
def receiptStatusExecuted : Nat := 1
def receiptStatusExpired : Nat := 2

/-- `icp_packet`, a row of `packets` -/
structure IcpPacket where
  seq : Nat
  expiration : Nat
  sendAction : Bytes
  receiptAction : Bytes
  status : Nat
  shadow : Bool := false
  deriving DecidableEq, Repr

/-- `icp_receipt`, a row of `receipts` -/
structure IcpReceipt where
  seq : Nat
  pseq : Nat
  status : Nat
  data : Bytes
  shadow : Bool := false
  deriving DecidableEq, Repr

/-- a `bool` written -/
def packBool (b : Bool) : Bytes := leBytes 1 (if b then 1 else 0)

/-- a `bool` read: any nonzero byte is true -/
def unpackBool : Decoder Bool := fun bs => do
  let (t, bs) ← readUInt 1 bs
  pure (t ≠ 0, bs)

def IcpPacket.pack (p : IcpPacket) : Bytes :=
  leBytes 8 p.seq ++ leBytes 4 p.expiration ++ packBytes p.sendAction ++ packBytes p.receiptAction
    ++ leBytes 1 p.status ++ packBool p.shadow

def IcpPacket.unpack : Decoder IcpPacket := fun bs => do
  let (seq, bs) ← readUInt 8 bs
  let (expiration, bs) ← readUInt 4 bs
  let (sendAction, bs) ← unpackBytes bs
  let (receiptAction, bs) ← unpackBytes bs
  let (status, bs) ← readUInt 1 bs
  let (shadow, bs) ← unpackBool bs
  pure (⟨seq, expiration, sendAction, receiptAction, status, shadow⟩, bs)

def IcpReceipt.pack (r : IcpReceipt) : Bytes :=
  leBytes 8 r.seq ++ leBytes 8 r.pseq ++ leBytes 1 r.status ++ packBytes r.data
    ++ packBool r.shadow

def IcpReceipt.unpack : Decoder IcpReceipt := fun bs => do
  let (seq, bs) ← readUInt 8 bs
  let (pseq, bs) ← readUInt 8 bs
  let (status, bs) ← readUInt 1 bs
  let (data, bs) ← unpackBytes bs
  let (shadow, bs) ← unpackBool bs
  pure (⟨seq, pseq, status, data, shadow⟩, bs)

theorem IcpReceipt.unpack_seq_pseq {a b : Nat} {rest : Bytes} {r : IcpReceipt}
    (h : Codec.unpack IcpReceipt.unpack (leBytes 8 a ++ leBytes 8 b ++ rest) = .ok r) :
    r.seq = a % 2 ^ 64 ∧ r.pseq = b % 2 ^ 64 := by
  obtain ⟨bs, h⟩ := unpack_eq_ok.mp h
  simp only [IcpReceipt.unpack, List.append_assoc, readUInt_leBytes_mod, Machine.ok_bind] at h
  obtain ⟨st, -, h⟩ := Machine.bind_eq_ok.mp h
  obtain ⟨dt, -, h⟩ := Machine.bind_eq_ok.mp h
  obtain ⟨sh, -, h⟩ := Machine.bind_eq_ok.mp h
  cases h
  exact ⟨rfl, rfl⟩

theorem IcpReceipt.unpack_seq {a : Nat} {rest : Bytes} {r : IcpReceipt}
    (h : Codec.unpack IcpReceipt.unpack (leBytes 8 a ++ rest) = .ok r) : r.seq = a % 2 ^ 64 := by
  obtain ⟨bs, h⟩ := unpack_eq_ok.mp h
  simp only [IcpReceipt.unpack, readUInt_leBytes_mod, Machine.ok_bind] at h
  obtain ⟨pq, -, h⟩ := Machine.bind_eq_ok.mp h
  obtain ⟨st, -, h⟩ := Machine.bind_eq_ok.mp h
  obtain ⟨dt, -, h⟩ := Machine.bind_eq_ok.mp h
  obtain ⟨sh, -, h⟩ := Machine.bind_eq_ok.mp h
  cases h
  rfl

/-- a `std::pair<uint64_t, uint64_t>` written -/
def packRange (r : Nat × Nat) : Bytes := leBytes 8 r.1 ++ leBytes 8 r.2

/-- a `std::pair<uint64_t, uint64_t>` read -/
def unpackRange : Decoder (Nat × Nat) := fun bs => do
  let (first, bs) ← readUInt 8 bs
  let (second, bs) ← readUInt 8 bs
  pure ((first, second), bs)

/-- the data of a receipt callback, `pack(std::make_tuple(pseq, status, data))` -/
def packCallback (pseq status : Nat) (data : Bytes) : Bytes :=
  leBytes 8 pseq ++ leBytes 1 status ++ packBytes data

end Eos.Icp
