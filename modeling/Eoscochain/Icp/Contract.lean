import Eoscochain.Icp.Fork
import Eoscochain.Icp.Types

/-!
# The ICP contract

contracts/icp icp.cpp: the actions of the contract over its tables, each under its own name.

* `IcpState`      the fork store, the singletons `peer` and `icpmeter`, the tables `packets`
                  and `receipts`;
* `Env`           what the transaction gives an action: the contract's own authority, the block
                  time, the iterations the CPU deadline allows;
* `Emitted`       the actions an action sends: `null` actions, which only publish their data,
                  and inline actions;
* `extractAction` the proof of a peer's `null` action checked against the store;
* `apply`         the dispatcher: the constructor, then the action.

Actions that take `bytes` and unpack one header from them take the header.  The sequence
numbers are `Nat`, the `uint32_t` arguments `UInt32`.
-/

set_option linter.unusedSectionVars false

namespace Eos.Icp

open Machine Codec Table ForkStore

/-- `icp::peer_contract` -/
structure PeerContract where
  peer : Nat := 0
  lastOutgoingPacketSeq : Nat := 0
  lastIncomingPacketSeq : Nat := 0
  lastOutgoingReceiptSeq : Nat := 0
  lastIncomingReceiptSeq : Nat := 0
  deriving DecidableEq, Repr

/-- `icp::icp_meter` -/
abbrev IcpMeter := Meter

/-- an action the contract sends -/
inductive Emitted
  /-- `action(…, _self, N(null), x).send_context_free()`: published, executes nothing -/
  | null (data : Bytes)
  /-- `a.send()` -/
  | inline (a : Action)
  deriving DecidableEq, Repr

/-- the tables and singletons of the contract -/
structure IcpState where
  store : ForkStore := {}
  peer : Option PeerContract := none
  meter : Option IcpMeter := none
  packets : List IcpPacket := []
  receipts : List IcpReceipt := []
  deriving DecidableEq, Repr

/-- the hashes of the contract: the chain's, and `sha256` of bytes -/
structure IcpCrypto extends Crypto where
  sha256 : Bytes → Nat

/-- what a transaction gives an action -/
structure Env where
  receiver : Nat
  selfAuth : Bool
  now : Nat
  fuel : Nat

/-- the error of the table index for a second row with a primary key already stored -/
def uniquenessViolation : String :=
  "could not insert object, most likely a uniqueness constraint was violated"

/-- `multi_index::emplace` -/
def emplace {α : Type} (pk : α → Nat) (row : α) (rows : List α) : Except String (List α) := do
  assert (!(rows.any (pk · == pk row))) uniquenessViolation
  pure (insertByPk pk row rows)

theorem emplace_eq_ok {α : Type} {pk : α → Nat} {row : α} {rows rows' : List α}
    (h : emplace pk row rows = .ok rows') : rows' = insertByPk pk row rows := by
  obtain ⟨-, h⟩ := assert_bind_eq_ok.mp h
  cases h
  rfl

/-- `require_auth(_self)` -/
def requireAuth (env : Env) : Except String Unit :=
  assert env.selfAuth "missing authority of ${account}"

/-- the guard `e->seq - b->seq < 0` on the first and the last row of a table; the difference
is a `uint64_t` -/
def spanGuard (seqs : List Nat) (msg : String) : Except String Unit :=
  match seqs.head?, seqs.getLast? with
  | some b, some e => assert (decide ((e + 2 ^ 64 - b) % 2 ^ 64 < 0)) msg
  | _, _ => pure ()

/-- the contract's own authority appended to an action -/
def Action.withSelf (a : Action) (receiver : Nat) : Action :=
  { a with authorization := a.authorization ++ [⟨receiver, nameActive⟩] }

namespace IcpState

/-- `_peer`, read with `get_or_default` -/
def peerContract (st : IcpState) : PeerContract := st.peer.getD {}

/-- `icp::update_peer` -/
def updatePeer (st : IcpState) (p : PeerContract) : IcpState := { st with peer := some p }

/-- `icp::next_packet_seq`, which other contracts call on the icp contract -/
def nextPacketSeq (st : IcpState) : Except String Nat := do
  assert (st.peerContract.peer != 0) "empty peer icp contract"
  pure (st.peerContract.lastOutgoingPacketSeq + 1)

/-- `icp::meter_add_packets` -/
def meterAddPackets (st : IcpState) (num : Nat) : Except String IcpState := do
  let meter ← meterAdd st.meter num "exceed max packets"
  pure { st with meter := meter }

/-- `icp::meter_remove_packets` -/
def meterRemovePackets (st : IcpState) (num : Nat) : Except String IcpState := do
  let meter ← meterRemove st.meter num
  pure { st with meter := meter }

end IcpState

open IcpState

section
variable (c : IcpCrypto) (env : Env)

/-- `icp::setpeer` -/
def setpeer (st : IcpState) (peer : Nat) : Except String IcpState := do
  requireAuth env
  assert st.peer.isNone "peer icp contract name already exists"
  pure { st with peer := some { peer := peer } }

/-- `icp::setmaxpackes` -/
def setmaxpackes (st : IcpState) (maxpackets : UInt32) : Except String IcpState := do
  requireAuth env
  pure { st with meter := some ⟨maxpackets.toNat, 0⟩ }

/-- `icp::setmaxblocks` -/
def setmaxblocks (st : IcpState) (maxblocks : UInt32) : Except String IcpState := do
  requireAuth env
  pure { st with store := st.store.setMaxBlocks maxblocks.toNat }

/-- `icp::openchannel` -/
def openchannel (st : IcpState) (h : BlockHeaderState) : Except String IcpState := do
  requireAuth env
  let store ← initSeedBlock c.toCrypto env.fuel st.store h
  pure { st with store := store }

/-- `icp::closechannel` -/
def closechannel (st : IcpState) : Except String IcpState := do
  requireAuth env
  assert st.packets.isEmpty "remain packets"
  assert st.receipts.isEmpty "remain receipts"
  let store ← st.store.reset
  pure { st with store := store }

/-- `icp::addblocks` -/
def addblocks (st : IcpState) (h : BlockHeaderState) (merklePath : List Nat) :
    Except String IcpState := do
  let store ← addBlockHeaderWithMerklePath c.toCrypto env.fuel st.store h merklePath
  pure { st with store := store }

/-- `icp::addblock` -/
def addblock (st : IcpState) (h : BlockHeader) : Except String IcpState := do
  let store ← addBlockHeader c.toCrypto st.store h
  pure { st with store := store }

/-- `icp::extract_action`: the data of a `null` action of the peer, proved by its receipt and
the action merkle root of an irreversible block; the store is cut down to that block -/
def extractAction (st : IcpState) (ia : IcpAction) : Except String (IcpState × Bytes) := do
  let peer := st.peerContract
  assert (peer.peer != 0) "empty peer icp contract"
  let actionMroot ← st.store.getActionMroot ia.blockId
  let mroot := IncrementalMerkle.merkle c.merkleNode 0 ia.merklePath
  assert (mroot == actionMroot) "invalid actions merkle root"
  let receipt ← unpack ActionReceipt.unpack ia.actionReceipt
  assert (c.sha256 ia.action == receipt.actDigest) "invalid action digest"
  assert (ia.merklePath.contains (c.sha256 receipt.pack)) "invalid action receipt digest"
  let store ← st.store.cutdown (numFromId ia.blockId)
  let a ← unpack Action.unpack ia.action
  assert (a.account == peer.peer) "invalid peer icp contract"
  assert (a.name == nameNull) "invalid peer icp contract action"
  pure ({ st with store := store }, a.data)

/-- the part of `icp::onpacket` after `extract_action`: the next packet of the peer, executed
unless expired, and its receipt published -/
def onpacketData (st : IcpState) (data : Bytes) : Except String (IcpState × List Emitted) := do
  let packet ← unpack IcpPacket.unpack data
  let peer := st.peerContract
  assert (packet.seq == peer.lastIncomingPacketSeq + 1) "invalid packet sequence"
  let peer := { peer with
    lastIncomingPacketSeq := peer.lastIncomingPacketSeq + 1
    lastOutgoingReceiptSeq := peer.lastOutgoingReceiptSeq + 1 }
  let st := st.updatePeer peer
  if packet.expiration ≤ env.now then
    pure (st, [.null (IcpReceipt.pack
      { seq := peer.lastOutgoingReceiptSeq, pseq := packet.seq, status := receiptStatusExpired,
        data := [] })])
  else do
    let a ← unpack Action.unpack packet.sendAction
    pure (st, [.inline (a.withSelf env.receiver), .null (IcpReceipt.pack
      { seq := peer.lastOutgoingReceiptSeq, pseq := packet.seq, status := receiptStatusExecuted,
        data := [] })])

/-- `icp::onpacket` -/
def onpacket (st : IcpState) (ia : IcpAction) : Except String (IcpState × List Emitted) := do
  let (st, data) ← extractAction c st ia
  onpacketData env st data

/-- the part of `icp::onreceipt` after `extract_action`: the next receipt of the peer, stored,
and the callback of its packet sent; `packet.status` is set on a copy and never stored -/
def onreceiptData (st : IcpState) (data : Bytes) : Except String (IcpState × List Emitted) := do
  let receipt ← unpack IcpReceipt.unpack data
  let peer := st.peerContract
  assert (receipt.seq == peer.lastIncomingReceiptSeq + 1) "invalid receipt sequence"
  let st := st.updatePeer { peer with lastIncomingReceiptSeq := peer.lastIncomingReceiptSeq + 1 }
  spanGuard (st.receipts.map (·.seq)) "exceed maximum receipts"
  let receipts ← emplace (·.seq) receipt st.receipts
  let st := { st with receipts := receipts }
  let packet ← getByPk (·.seq) receipt.pseq st.packets "unable to find key"
  assert (packet.status == receiptStatusUnknown) "packet received receipt"
  assert (receipt.status == receiptStatusExecuted || receipt.status == receiptStatusExpired)
    "invalid receipt status"
  let receiptAction ← unpack Action.unpack packet.receiptAction
  let receiptAction := { receiptAction.withSelf env.receiver with
    data := packCallback receipt.pseq receipt.status receipt.data }
  pure (st, [.inline receiptAction])

/-- `icp::onreceipt` -/
def onreceipt (st : IcpState) (ia : IcpAction) : Except String (IcpState × List Emitted) := do
  let (st, data) ← extractAction c st ia
  onreceiptData env st data

/-- the `for (seq = first; seq <= second; ++seq)` loop of `oncleanup`, on a `uint64_t` `seq`,
one iteration per unit of `fuel` -/
def oncleanupLoop : Nat → Nat → Nat → List IcpReceipt → Except String (List IcpReceipt)
  | 0, _, _, _ => throw "deadline exceeded"
  | fuel + 1, seq, second, receipts =>
    if seq ≤ second then
      oncleanupLoop fuel ((seq + 1) % 2 ^ 64) second (receipts.eraseP (·.seq == seq))
    else pure receipts

/-- the part of `icp::oncleanup` after `extract_action`: the receipts of a range erased -/
def oncleanupData (st : IcpState) (data : Bytes) : Except String IcpState := do
  let erasedRange ← unpack unpackRange data
  assert (decide (erasedRange.1 ≤ erasedRange.2)) "invalid range"
  let receipts ← oncleanupLoop env.fuel erasedRange.1 erasedRange.2 st.receipts
  pure { st with receipts := receipts }

/-- `icp::oncleanup` -/
def oncleanup (st : IcpState) (ia : IcpAction) : Except String IcpState := do
  let (st, data) ← extractAction c st ia
  oncleanupData env st data

/-- the callbacks of the erase loop of `cleanup`: an expired receipt for each packet still
waiting for one -/
def cleanupCallbacks : List IcpPacket → Except String (List Emitted)
  | [] => pure []
  | p :: ps => do
    let rest ← cleanupCallbacks ps
    if p.status == receiptStatusUnknown then do
      let receiptAction ← unpack Action.unpack p.receiptAction
      pure (.inline { receiptAction.withSelf env.receiver with
        data := packCallback p.seq receiptStatusExpired [] } :: rest)
    else pure rest

/-- `packets.upper_bound(end_seq)`, checked to be the packet `end_seq` -/
def findEndSeq (packets : List IcpPacket) (endSeq : Nat) : Except String IcpPacket :=
  match packets.find? (fun q => decide (q.seq > endSeq)) with
  | some q => do
    assert (q.seq == endSeq) "packet not found"
    pure q
  | none => throw "packet not found"

/-- `icp::cleanup`: the packets before `end_seq` erased, then `end_seq` itself found through
`upper_bound(end_seq)`, which only returns a row with a larger `seq` -/
def cleanup (st : IcpState) (startSeq endSeq : Nat) : Except String (IcpState × List Emitted) := do
  let peer := st.peerContract
  assert (peer.peer != 0) "empty peer icp contract"
  assert (decide (startSeq ≤ endSeq)) "invalid range"
  let p ← getByPk (·.seq) endSeq st.packets "unable to find key"
  assert (p.status != receiptStatusUnknown) "packet hasn't received receipt"
  let erasedRange := (startSeq, if startSeq < endSeq then endSeq - 1 else endSeq)
  let erased := st.packets.filter fun q => startSeq ≤ q.seq ∧ q.seq < endSeq
  let callbacks ← cleanupCallbacks env erased
  let packets := st.packets.filter fun q => ¬ (startSeq ≤ q.seq ∧ q.seq < endSeq)
  let it ← findEndSeq packets endSeq
  -- `auto eit = it--`: the decrement fails at the first row, and otherwise gives a row, never
  -- `end()`, so the branch that erases `end_seq` is not taken
  assert (packets.any (·.seq < it.seq)) "cannot decrement iterator at beginning of table"
  let st ← { st with packets := packets }.meterRemovePackets erased.length
  pure (st, callbacks ++ [.null (packRange erasedRange)])

/-- `icp::prune`: the receipts of a range erased -/
def prune (st : IcpState) (receiptStartSeq receiptEndSeq : Nat) : Except String IcpState := do
  requireAuth env
  pure { st with receipts := st.receipts.filter fun r =>
    ¬ (receiptStartSeq ≤ r.seq ∧ r.seq ≤ receiptEndSeq) }

/-- `icp::sendaction`: a new packet stored and published -/
def sendaction (st : IcpState) (seq : Nat) (sendAction : Bytes) (expiration : UInt32)
    (receiptAction : Bytes) : Except String (IcpState × List Emitted) := do
  let peer := st.peerContract
  assert (peer.peer != 0) "empty peer icp contract"
  let peer := { peer with lastOutgoingPacketSeq := peer.lastOutgoingPacketSeq + 1 }
  assert (seq == peer.lastOutgoingPacketSeq) "invalid packet sequence"
  let st := st.updatePeer peer
  spanGuard (st.packets.map (·.seq)) "exceed maximum packets"
  let st ← st.meterAddPackets 1
  let packet : IcpPacket := ⟨seq, expiration.toNat, sendAction, receiptAction, 0, false⟩
  let packets ← emplace (·.seq) packet st.packets
  pure ({ st with packets := packets }, [.null packet.pack])

/-- the first block of `icp::genproof`: a stored packet published again as a shadow -/
def genproofPacket (st : IcpState) (packetSeq : Nat) : Except String (List Emitted) :=
  if packetSeq > 0 then do
    let packet ← getByPk (·.seq) packetSeq st.packets "unable to find key"
    pure [Emitted.null { packet with shadow := true }.pack]
  else pure []

/-- the second block of `icp::genproof`: a stored receipt published again as a shadow -/
def genproofReceipt (st : IcpState) (receiptSeq : Nat) : Except String (List Emitted) :=
  if receiptSeq > 0 then do
    let receipt ← getByPk (·.seq) receiptSeq st.receipts "unable to find key"
    pure [Emitted.null { receipt with shadow := true }.pack]
  else pure []

/-- `icp::genproof`: a stored packet and a stored receipt published again as shadows -/
def genproof (st : IcpState) (packetSeq receiptSeq : Nat) : Except String (List Emitted) := do
  let e1 ← genproofPacket st packetSeq
  let e2 ← genproofReceipt st receiptSeq
  pure (e1 ++ e2)

end

/-- the actions of the contract's ABI -/
inductive IcpCall
  | setpeer (peer : Nat)
  | setmaxpackes (maxpackets : UInt32)
  | setmaxblocks (maxblocks : UInt32)
  | openchannel (h : BlockHeaderState)
  | closechannel
  | addblocks (h : BlockHeaderState) (merklePath : List Nat)
  | addblock (h : BlockHeader)
  | onpacket (ia : IcpAction)
  | onreceipt (ia : IcpAction)
  | oncleanup (ia : IcpAction)
  | cleanup (startSeq endSeq : Nat)
  | sendaction (seq : Nat) (sendAction : Bytes) (expiration : UInt32) (receiptAction : Bytes)
  | genproof (packetSeq receiptSeq : Nat)
  | prune (receiptStartSeq receiptEndSeq : Nat)

/-- `EOSIO_ABI` dispatch: the constructor creates the store meter, then the action runs; an
action that fails leaves the state as it was -/
def apply (c : IcpCrypto) (env : Env) (st : IcpState) :
    IcpCall → Except String (IcpState × List Emitted)
  | .setpeer peer => (·, []) <$> setpeer env (created st) peer
  | .setmaxpackes m => (·, []) <$> setmaxpackes env (created st) m
  | .setmaxblocks m => (·, []) <$> setmaxblocks env (created st) m
  | .openchannel h => (·, []) <$> openchannel c env (created st) h
  | .closechannel => (·, []) <$> closechannel env (created st)
  | .addblocks h path => (·, []) <$> addblocks c env (created st) h path
  | .addblock h => (·, []) <$> addblock c (created st) h
  | .onpacket ia => onpacket c env (created st) ia
  | .onreceipt ia => onreceipt c env (created st) ia
  | .oncleanup ia => (·, []) <$> oncleanup c env (created st) ia
  | .cleanup s e => cleanup env (created st) s e
  | .sendaction seq sa exp ra => sendaction (created st) seq sa exp ra
  | .genproof p r => (created st, ·) <$> genproof (created st) p r
  | .prune s e => (·, []) <$> prune env (created st) s e
where
  /-- `icp::icp`: `fork_store::fork_store` creates the store meter on first use -/
  created (st : IcpState) : IcpState := { st with store := st.store.create }

/-- one action of a run, its emitted actions dropped -/
def step (c : IcpCrypto) (st : IcpState) (a : Env × IcpCall) : Except String IcpState :=
  Prod.fst <$> apply c a.1 st a.2

end Eos.Icp
