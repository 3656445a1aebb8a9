import Eoscochain.Icp.Actions
import Eoscochain.Icp.Meter

/-!
# Two ICP contracts and a relay

A channel is two deployments of the contract, `a` and `b`, each the other's peer.  Each
publishes `null` actions: packets (`sendaction`), receipts (`onpacket`), ranges (`cleanup`) and
shadows of stored rows (`genproof`).  A relay proves any published action of one side to the
`onpacket`, `onreceipt` or `oncleanup` of the other, in any order and as often as it likes.

`Channel.step` runs the contract's own actions on one side.  Besides the contract's tables a
side keeps a record of its history: the data it published, the data each of its three
handlers accepted, and the callbacks it sent (`Side`).  `step_apply` says that on the side that
acts a step is exactly one action of the contract, the other side untouched.

That the relay can only prove actions the peer published is the light client's business, here
an assumption on runs (`Relayed`).  Over such runs (`channelInv_reachable`):

* each side takes the packets of the peer numbered `1, 2, …`, each once (`SideInv.packetsTaken`);
* the callbacks of a side name pairwise distinct packets (`SideInv.receiptsTaken`): a receipt
  only finds the one packet a side ever stores, `1` (`SideInv.packetOne`), and a published
  datum read as a receipt names its own number as its packet's (`Paired`);
* whatever a handler accepted, the peer published (`ChannelInv.accepted`), though not
  necessarily as that kind of payload: `oncleanup` takes a receipt as a range.
-/

set_option linter.unusedSectionVars false

namespace Eos.Icp

open Machine Codec Table IcpState

/-! ## The channel -/

/-- the two ends of a channel -/
inductive Party
  | a
  | b
  deriving DecidableEq, Repr

/-- the other end -/
def Party.peer : Party → Party
  | .a => .b
  | .b => .a

@[simp] theorem Party.peer_peer (p : Party) : p.peer.peer = p := by
  cases p <;> rfl

theorem Party.eq_or_eq_peer (p q : Party) : q = p ∨ q = p.peer := by
  cases p <;> cases q <;> simp [Party.peer]

/-- one contract of the channel with its history: the data of its `null` actions, the data its
`onpacket`, `onreceipt` and `oncleanup` accepted, and the callbacks it sent -/
structure Side where
  icp : IcpState := {}
  published : List Bytes := []
  packetsIn : List Bytes := []
  receiptsIn : List Bytes := []
  rangesIn : List Bytes := []
  callbacks : List Action := []
  deriving DecidableEq, Repr

/-- a side after one of its actions: the contract's new state, the data it published and the
callbacks it sent -/
def Side.record (s : Side) (st : IcpState) (em : List Emitted) : Side :=
  { s with
    icp := st, published := s.published ++ nullData em,
    callbacks := s.callbacks ++ inlineActions em }

/-- both ends -/
structure Channel where
  a : Side := {}
  b : Side := {}
  deriving DecidableEq, Repr

namespace Channel

def side (ch : Channel) : Party → Side
  | .a => ch.a
  | .b => ch.b

def set (ch : Channel) : Party → Side → Channel
  | .a, s => { ch with a := s }
  | .b, s => { ch with b := s }

@[simp] theorem side_set_self (ch : Channel) (p : Party) (s : Side) : (ch.set p s).side p = s := by
  cases p <;> rfl

@[simp] theorem side_set_peer (ch : Channel) (p : Party) (s : Side) :
    (ch.set p s).side p.peer = ch.side p.peer := by
  cases p <;> rfl

end Channel

/-- a transaction of the channel: an action pushed to one side, or the relay's proof of an
action of the peer to one of its three handlers -/
inductive Event
  | call (p : Party) (env : Env) (call : IcpCall)
  | packet (p : Party) (env : Env) (ia : IcpAction)
  | receipt (p : Party) (env : Env) (ia : IcpAction)
  | cleanup (p : Party) (env : Env) (ia : IcpAction)

namespace Event

/-- the side that acts -/
def party : Event → Party
  | .call p _ _ | .packet p _ _ | .receipt p _ _ | .cleanup p _ _ => p

def env : Event → Env
  | .call _ env _ | .packet _ env _ | .receipt _ env _ | .cleanup _ env _ => env

/-- the action of the contract it runs -/
def icpCall : Event → IcpCall
  | .call _ _ a => a
  | .packet _ _ ia => .onpacket ia
  | .receipt _ _ ia => .onreceipt ia
  | .cleanup _ _ ia => .oncleanup ia

end Event

/-- one transaction on one side, its history recorded -/
def Channel.step (c : IcpCrypto) (ch : Channel) : Event → Except String Channel
  | .call p env call => do
    let (st, em) ← apply c env (ch.side p).icp call
    pure (ch.set p ((ch.side p).record st em))
  | .packet p env ia => do
    let (st, data) ← extractAction c (apply.created (ch.side p).icp) ia
    let (st, em) ← onpacketData env st data
    -- the inline action sent is the packet's own `send_action`, not a callback
    pure (ch.set p { ch.side p with
      icp := st, published := (ch.side p).published ++ nullData em,
      packetsIn := (ch.side p).packetsIn ++ [data] })
  | .receipt p env ia => do
    let (st, data) ← extractAction c (apply.created (ch.side p).icp) ia
    let (st, em) ← onreceiptData env st data
    pure (ch.set p { (ch.side p).record st em with receiptsIn := (ch.side p).receiptsIn ++ [data] })
  | .cleanup p env ia => do
    let (st, data) ← extractAction c (apply.created (ch.side p).icp) ia
    let st ← oncleanupData env st data
    pure (ch.set p { ch.side p with icp := st, rangesIn := (ch.side p).rangesIn ++ [data] })

/-- the relay's assumption: actions pushed directly are not the relay's three, and the relay only
proves actions whose data the peer published -/
def Relayed (ch : Channel) : Event → Prop
  | .call _ _ call => call.relayed = false
  | .packet p _ ia | .receipt p _ ia | .cleanup p _ ia =>
    ∀ a, unpack Action.unpack ia.action = .ok a → a.data ∈ (ch.side p.peer).published

/-- **a step of the channel is an action of one contract**, the other side untouched -/
theorem Channel.step_apply {c : IcpCrypto} {ch ch' : Channel} {e : Event}
    (h : Channel.step c ch e = .ok ch') :
    ch'.side e.party.peer = ch.side e.party.peer ∧
      ∃ em, apply c e.env (ch.side e.party).icp e.icpCall = .ok ((ch'.side e.party).icp, em) := by
  cases e with
  | call p env call =>
    obtain ⟨⟨st, em⟩, h1, h2⟩ := bind_eq_ok.mp h
    cases h2
    refine ⟨Channel.side_set_peer .., em, ?_⟩
    simpa [Event.env, Event.party, Event.icpCall, Side.record] using h1
  | packet p env ia =>
    obtain ⟨⟨st1, data⟩, h1, h⟩ := bind_eq_ok.mp h
    obtain ⟨⟨st, em⟩, h2, h⟩ := bind_eq_ok.mp h
    cases h
    refine ⟨Channel.side_set_peer .., em, ?_⟩
    simp only [Event.env, Event.party, Event.icpCall, apply, onpacket, h1, ok_bind,
      Channel.side_set_self]
    exact h2
  | receipt p env ia =>
    obtain ⟨⟨st1, data⟩, h1, h⟩ := bind_eq_ok.mp h
    obtain ⟨⟨st, em⟩, h2, h⟩ := bind_eq_ok.mp h
    cases h
    refine ⟨Channel.side_set_peer .., em, ?_⟩
    simp only [Event.env, Event.party, Event.icpCall, apply, onreceipt, h1, ok_bind,
      Channel.side_set_self]
    exact h2
  | cleanup p env ia =>
    obtain ⟨⟨st1, data⟩, h1, h⟩ := bind_eq_ok.mp h
    obtain ⟨st, h2, h⟩ := bind_eq_ok.mp h
    cases h
    refine ⟨Channel.side_set_peer .., [], ?_⟩
    simp only [Event.env, Event.party, Event.icpCall, apply, oncleanup, h1, h2, ok_bind,
      Channel.side_set_self]
    rfl

/-! ## The invariant -/

/-- receipt `1`, or a receipt that names its own number as its packet's -/
def Paired (r : IcpReceipt) : Prop := r.seq = 1 ∨ r.pseq = r.seq

/-- the packet a callback is for: the first field of its data -/
def callbackSeq (a : Action) : Except String Nat := unpack (readUInt 8) a.data

/-- the four sequence numbers of the peer record -/
def PeerContract.counters (p : PeerContract) : Nat × Nat × Nat × Nat :=
  (p.lastOutgoingPacketSeq, p.lastIncomingPacketSeq, p.lastOutgoingReceiptSeq,
    p.lastIncomingReceiptSeq)

/-- what holds of each side along a run -/
structure SideInv (s : Side) : Prop where
  /-- the one packet a side can send, `sendaction` refusing a second one -/
  outgoing : s.icp.peerContract.lastOutgoingPacketSeq = s.icp.packets.length
  packetOne : ∀ q ∈ s.icp.packets, q.seq = 1
  receiptsOut :
    s.icp.peerContract.lastOutgoingReceiptSeq = s.icp.peerContract.lastIncomingPacketSeq
  stored : ∀ r ∈ s.icp.receipts, Paired r
  published : ∀ d ∈ s.published, ∀ r, unpack IcpReceipt.unpack d = .ok r → Paired r
  /-- the packets taken, numbered `1, 2, …` -/
  packetsTaken : ∃ qs : List IcpPacket, s.packetsIn.map (unpack IcpPacket.unpack) = qs.map .ok ∧
    qs.map (·.seq) = List.range' 1 qs.length ∧
    s.icp.peerContract.lastIncomingPacketSeq = qs.length
  /-- the receipts taken, numbered `1, 2, …`, each naming its own number as its packet's, and
  the callbacks sent for them -/
  receiptsTaken : ∃ rs : List IcpReceipt,
    s.receiptsIn.map (unpack IcpReceipt.unpack) = rs.map .ok ∧
    rs.map (·.seq) = List.range' 1 rs.length ∧ (∀ r ∈ rs, r.pseq = r.seq) ∧
    s.icp.peerContract.lastIncomingReceiptSeq = rs.length ∧
    s.callbacks.map callbackSeq = rs.map fun r => .ok r.pseq

/-- the channel invariant: both sides, and what a side accepted the other published -/
structure ChannelInv (ch : Channel) : Prop where
  side : ∀ p, SideInv (ch.side p)
  accepted : ∀ p d, d ∈ (ch.side p).packetsIn ∨ d ∈ (ch.side p).receiptsIn ∨
    d ∈ (ch.side p).rangesIn → d ∈ (ch.side p.peer).published

/-! ## Published data read as a receipt -/

theorem paired_of_packet {q : IcpPacket} (hq : q.seq = 1) {r : IcpReceipt}
    (h : unpack IcpReceipt.unpack q.pack = .ok r) : Paired r := by
  have hpack : q.pack = leBytes 8 q.seq ++ (leBytes 4 q.expiration ++ packBytes q.sendAction ++
      packBytes q.receiptAction ++ leBytes 1 q.status ++ packBool q.shadow) := by
    simp [IcpPacket.pack, List.append_assoc]
  rw [hpack] at h
  left
  rw [IcpReceipt.unpack_seq h, hq]
  rfl

theorem paired_of_receipt {x : IcpReceipt} (hx : Paired x) {r : IcpReceipt}
    (h : unpack IcpReceipt.unpack x.pack = .ok r) : Paired r := by
  have hpack : x.pack = leBytes 8 x.seq ++ leBytes 8 x.pseq ++
      (leBytes 1 x.status ++ packBytes x.data ++ packBool x.shadow) := by
    simp [IcpReceipt.pack, List.append_assoc]
  rw [hpack] at h
  obtain ⟨hseq, hpseq⟩ := IcpReceipt.unpack_seq_pseq h
  rcases hx with hx | hx
  · left
    rw [hseq, hx]
    rfl
  · right
    rw [hseq, hpseq, hx]

theorem callbackSeq_eq {a : Action} {pseq status : Nat} {data : Bytes}
    (h : a.data = packCallback pseq status data) : callbackSeq a = .ok (pseq % 2 ^ 64) := by
  unfold callbackSeq
  rw [h, packCallback, List.append_assoc]
  exact unpack_eq_ok.mpr ⟨_, readUInt_leBytes_mod 8 pseq _⟩

/-! ## One step -/

@[simp] theorem peerContract_updatePeer (st : IcpState) (p : PeerContract) :
    (st.updatePeer p).peerContract = p := rfl

theorem SideInv.keep {s s' : Side} (hs : SideInv s)
    (hcounters : s'.icp.peerContract.counters = s.icp.peerContract.counters)
    (hpackets : s'.icp.packets = s.icp.packets)
    (hreceipts : ∀ r ∈ s'.icp.receipts, r ∈ s.icp.receipts)
    (hpublished : ∀ d ∈ s'.published,
      d ∈ s.published ∨ ∀ r, unpack IcpReceipt.unpack d = .ok r → Paired r)
    (hpin : s'.packetsIn = s.packetsIn) (hrin : s'.receiptsIn = s.receiptsIn)
    (hcb : s'.callbacks = s.callbacks) : SideInv s' := by
  simp only [PeerContract.counters, Prod.mk.injEq] at hcounters
  obtain ⟨hout, hin, hrout, hrin'⟩ := hcounters
  obtain ⟨qs, hqs, hqseq, hqlen⟩ := hs.packetsTaken
  obtain ⟨rs, hrs, hrseq, hrp, hrlen, hcbs⟩ := hs.receiptsTaken
  refine ⟨?_, ?_, ?_, ?_, ?_, ?_, ?_⟩
  · rw [hout, hpackets]
    exact hs.outgoing
  · rw [hpackets]
    exact hs.packetOne
  · rw [hrout, hin]
    exact hs.receiptsOut
  · exact fun r hr => hs.stored r (hreceipts r hr)
  · intro d hd r hr
    rcases hpublished d hd with hold | hnew
    · exact hs.published d hold r hr
    · exact hnew r hr
  · exact ⟨qs, hpin ▸ hqs, hqseq, hin ▸ hqlen⟩
  · exact ⟨rs, hrin ▸ hrs, hrseq, hrp, hrin' ▸ hrlen, hcb ▸ hcbs⟩

theorem SideInv.sendaction {s : Side} {seq : Nat} {sa ra : Bytes} {exp : UInt32}
    {meter : Option IcpMeter} (hs : SideInv s)
    (hseq : seq = s.icp.peerContract.lastOutgoingPacketSeq + 1) (hempty : s.icp.packets = []) :
    SideInv (s.record
      { apply.created s.icp with
        peer := some { s.icp.peerContract with lastOutgoingPacketSeq := seq }, meter := meter,
        packets := [⟨seq, exp.toNat, sa, ra, 0, false⟩] }
      [.null (IcpPacket.pack ⟨seq, exp.toNat, sa, ra, 0, false⟩)]) := by
  have hone : seq = 1 := by
    rw [hseq, hs.outgoing, hempty]
    rfl
  obtain ⟨qs, hqs, hqseq, hqlen⟩ := hs.packetsTaken
  obtain ⟨rs, hrs, hrseq, hrp, hrlen, hcbs⟩ := hs.receiptsTaken
  refine ⟨?_, ?_, hs.receiptsOut, hs.stored, ?_, ⟨qs, hqs, hqseq, hqlen⟩, ?_⟩
  · simp [Side.record, peerContract, hone]
  · simp [Side.record, hone]
  · intro d hd r hr
    simp only [Side.record, nullData, List.filterMap_cons, List.filterMap_nil,
      Emitted.nullData?, List.mem_append, List.mem_singleton] at hd
    rcases hd with hd | rfl
    · exact hs.published d hd r hr
    · exact paired_of_packet hone hr
  · refine ⟨rs, hrs, hrseq, hrp, hrlen, ?_⟩
    simpa [Side.record, inlineActions, Emitted.inline?, List.filterMap_cons] using hcbs

theorem SideInv.quiet {s : Side} {st : IcpState} (hs : SideInv s)
    (hpeer : st.peer = s.icp.peer) (hpackets : st.packets = s.icp.packets)
    (hreceipts : ∀ r ∈ st.receipts, r ∈ s.icp.receipts) : SideInv (s.record st []) :=
  hs.keep (by simp [Side.record, peerContract, hpeer]) hpackets hreceipts
    (fun d hd => .inl (by simpa [Side.record, nullData] using hd)) rfl rfl
    (by simp [Side.record, inlineActions])

theorem SideInv.local {c : IcpCrypto} {env : Env} {s : Side} {call : IcpCall}
    {st : IcpState} {em : List Emitted} (hs : SideInv s) (hr : call.relayed = false)
    (h : apply c env s.icp call = .ok (st, em)) : SideInv (s.record st em) := by
  cases apply_applied h with
  | setpeer peer _ hnone =>
    refine hs.keep ?_ rfl (fun r hr => hr)
      (fun d hd => .inl (by simpa [Side.record, nullData] using hd)) rfl rfl
      (by simp [Side.record, inlineActions])
    simp [Side.record, peerContract, hnone, PeerContract.counters]
  | setmaxpackes => exact hs.quiet rfl rfl (fun r hr => hr)
  | setmaxblocks => exact hs.quiet rfl rfl (fun r hr => hr)
  | openchannel => exact hs.quiet rfl rfl (fun r hr => hr)
  | closechannel => exact hs.quiet rfl rfl (fun r hr => hr)
  | addblocks => exact hs.quiet rfl rfl (fun r hr => hr)
  | addblock => exact hs.quiet rfl rfl (fun r hr => hr)
  | onpacket => cases hr
  | onreceipt => cases hr
  | oncleanup => cases hr
  | sendaction seq sa exp ra meter _ hseq hempty _ => exact hs.sendaction hseq hempty
  | genproof p q em hem =>
    obtain ⟨hinline, hnull⟩ := genproof_eq_ok hem
    refine hs.keep rfl rfl (fun r hr => hr) ?_ rfl rfl (by simp [Side.record, hinline])
    intro d hd
    simp only [Side.record, List.mem_append] at hd
    rcases hd with hd | hd
    · exact .inl hd
    · right
      rcases hnull d hd with ⟨q, hq, rfl⟩ | ⟨x, hx, rfl⟩
      · exact fun r hr => @paired_of_packet { q with shadow := true } (hs.packetOne q hq) r hr
      · exact fun r hr => @paired_of_receipt { x with shadow := true } (hs.stored x hx) r hr
  | prune s e _ => exact hs.quiet rfl rfl (fun r hr => (List.mem_filter.mp hr).1)

theorem peerContract_eq {st st' : IcpState} (h : st'.peer = st.peer) :
    st'.peerContract = st.peerContract := by
  simp [peerContract, h]

theorem SideInv.packet {env : Env} {s : Side} {st1 st : IcpState} {data : Bytes}
    {em : List Emitted} (hs : SideInv s) (h : onpacketData env st1 data = .ok (st, em))
    (hpeer : st1.peer = s.icp.peer) (hpackets : st1.packets = s.icp.packets)
    (hreceipts : st1.receipts = s.icp.receipts) :
    SideInv { s with
      icp := st, published := s.published ++ nullData em,
      packetsIn := s.packetsIn ++ [data] } := by
  have hpc := peerContract_eq hpeer
  obtain ⟨q, hq, hqseq, rfl, status, hnull⟩ := onpacketData_eq_ok h
  obtain ⟨qs, hqs, hqseqs, hqlen⟩ := hs.packetsTaken
  obtain ⟨rs, hrs, hrseq, hrp, hrlen, hcbs⟩ := hs.receiptsTaken
  refine ⟨?_, ?_, ?_, ?_, ?_, ?_, ?_⟩
  · show st1.peerContract.lastOutgoingPacketSeq = st1.packets.length
    rw [hpc, hpackets]
    exact hs.outgoing
  · show ∀ q ∈ st1.packets, q.seq = 1
    rw [hpackets]
    exact hs.packetOne
  · show st1.peerContract.lastOutgoingReceiptSeq + 1 = st1.peerContract.lastIncomingPacketSeq + 1
    rw [hpc, hs.receiptsOut]
  · show ∀ r ∈ st1.receipts, Paired r
    rw [hreceipts]
    exact hs.stored
  · -- the receipt names the packet by the number it goes out under
    intro d hd r hr
    rcases List.mem_append.mp hd with hd | hd
    · exact hs.published d hd r hr
    · rw [hnull, List.mem_singleton] at hd
      subst hd
      refine paired_of_receipt (.inr ?_) hr
      show q.seq = st1.peerContract.lastOutgoingReceiptSeq + 1
      rw [hqseq, hpc, hs.receiptsOut]
  · refine ⟨qs ++ [q], ?_, ?_, ?_⟩
    · simp [hqs, hq]
    · rw [List.map_append, hqseqs, List.length_append, List.length_singleton, List.range'_concat,
        List.map_singleton, hqseq, hpc, hqlen, Nat.one_mul, Nat.add_comm]
    · show st1.peerContract.lastIncomingPacketSeq + 1 = (qs ++ [q]).length
      rw [hpc, hqlen, List.length_append, List.length_singleton]
  · exact ⟨rs, hrs, hrseq, hrp, by rw [← hrlen, ← hpc]; rfl, hcbs⟩

theorem SideInv.receipt {env : Env} {s : Side} {st1 st : IcpState} {data : Bytes}
    {em : List Emitted} (hs : SideInv s) (h : onreceiptData env st1 data = .ok (st, em))
    (hpeer : st1.peer = s.icp.peer) (hpackets : st1.packets = s.icp.packets)
    (hdata : ∀ r, unpack IcpReceipt.unpack data = .ok r → Paired r) :
    SideInv { s.record st em with receiptsIn := s.receiptsIn ++ [data] } := by
  have hpc := peerContract_eq hpeer
  obtain ⟨r, q, hr, hrseq, -, hq, hqr, -, rfl, hnull, a, hinline, ha⟩ := onreceiptData_eq_ok h
  have hpseq : r.pseq = 1 := by
    rw [← hqr]
    exact hs.packetOne q (hpackets ▸ hq)
  have hpaired : r.pseq = r.seq := by
    rcases hdata r hr with h1 | h1
    · rw [hpseq, h1]
    · exact h1
  obtain ⟨qs, hqs, hqseqs, hqlen⟩ := hs.packetsTaken
  obtain ⟨rs, hrs, hrseqs, hrp, hrlen, hcbs⟩ := hs.receiptsTaken
  refine ⟨?_, ?_, ?_, ?_, ?_, ?_, ?_⟩
  · show st1.peerContract.lastOutgoingPacketSeq = st1.packets.length
    rw [hpc, hpackets]
    exact hs.outgoing
  · show ∀ q ∈ st1.packets, q.seq = 1
    rw [hpackets]
    exact hs.packetOne
  · show st1.peerContract.lastOutgoingReceiptSeq = st1.peerContract.lastIncomingPacketSeq
    rw [hpc]
    exact hs.receiptsOut
  · intro x hx
    rw [List.mem_singleton.mp hx]
    exact hdata r hr
  · intro d hd x hx
    simp only [Side.record, hnull, List.append_nil] at hd
    exact hs.published d hd x hx
  · exact ⟨qs, hqs, hqseqs, by rw [← hqlen, ← hpc]; rfl⟩
  · refine ⟨rs ++ [r], ?_, ?_, ?_, ?_, ?_⟩
    · simp [hrs, hr]
    · rw [List.map_append, hrseqs, List.length_append, List.length_singleton, List.range'_concat,
        List.map_singleton, hrseq, hpc, hrlen, Nat.one_mul, Nat.add_comm]
    · intro x hx
      rcases List.mem_append.mp hx with hx | hx
      · exact hrp x hx
      · rw [List.mem_singleton.mp hx]
        exact hpaired
    · show st1.peerContract.lastIncomingReceiptSeq + 1 = (rs ++ [r]).length
      rw [hpc, hrlen, List.length_append, List.length_singleton]
    · simp only [Side.record, hinline, List.map_append, hcbs, List.map_singleton,
        callbackSeq_eq ha, hpseq]
      rfl

theorem SideInv.cleanup {env : Env} {s : Side} {st1 st : IcpState} {data : Bytes}
    (hs : SideInv s) (h : oncleanupData env st1 data = .ok st) (hpeer : st1.peer = s.icp.peer)
    (hpackets : st1.packets = s.icp.packets) (hreceipts : st1.receipts = s.icp.receipts) :
    SideInv { s with icp := st, rangesIn := s.rangesIn ++ [data] } := by
  obtain ⟨receipts, hsub, rfl⟩ := oncleanupData_eq_ok h
  refine hs.keep ?_ hpackets (fun r hr => hreceipts ▸ hsub r hr) (fun d hd => .inl hd) rfl rfl rfl
  show st1.peerContract.counters = _
  rw [peerContract_eq hpeer]

/-! ## Runs -/

theorem ChannelInv.set {ch : Channel} {p : Party} {s : Side} (hi : ChannelInv ch)
    (hs : SideInv s) (hgrow : ∀ d ∈ (ch.side p).published, d ∈ s.published)
    (hacc : ∀ d, d ∈ s.packetsIn ∨ d ∈ s.receiptsIn ∨ d ∈ s.rangesIn →
      d ∈ (ch.side p.peer).published) :
    ChannelInv (ch.set p s) := by
  constructor
  · intro q
    rcases Party.eq_or_eq_peer p q with rfl | rfl
    · rw [Channel.side_set_self]
      exact hs
    · rw [Channel.side_set_peer]
      exact hi.side p.peer
  · intro q d hd
    rcases Party.eq_or_eq_peer p q with rfl | rfl
    · rw [Channel.side_set_self] at hd
      rw [Channel.side_set_peer]
      exact hacc d hd
    · -- the peer accepted only what this side had published, and it still has
      rw [Channel.side_set_peer] at hd
      rw [Party.peer_peer, Channel.side_set_self]
      have hpub := hi.accepted p.peer d hd
      rw [Party.peer_peer] at hpub
      exact hgrow d hpub

theorem accepted_snoc {ch : Channel} {p : Party} {xs : List Bytes} {d : Bytes}
    (hxs : ∀ x ∈ xs, x ∈ (ch.side p.peer).published) (hd : d ∈ (ch.side p.peer).published) :
    ∀ x ∈ xs ++ [d], x ∈ (ch.side p.peer).published := by
  intro x hx
  rcases List.mem_append.mp hx with hx | hx
  · exact hxs x hx
  · rw [List.mem_singleton.mp hx]
    exact hd

/-- **one transaction keeps the channel invariant** -/
theorem channelInv_step {c : IcpCrypto} {ch ch' : Channel} {e : Event} (hi : ChannelInv ch)
    (ha : Relayed ch e) (h : Channel.step c ch e = .ok ch') : ChannelInv ch' := by
  have hacc := hi.accepted
  cases e with
  | call p env call =>
    obtain ⟨⟨st, em⟩, h1, h2⟩ := bind_eq_ok.mp h
    cases h2
    exact hi.set ((hi.side p).local ha h1) (fun d hd => List.mem_append_left _ hd) (hacc p)
  | packet p env ia =>
    obtain ⟨⟨st1, data⟩, h1, h⟩ := bind_eq_ok.mp h
    obtain ⟨⟨st, em⟩, h2, h⟩ := bind_eq_ok.mp h
    cases h
    obtain ⟨store, a, -, hact, rfl, rfl⟩ := extractAction_eq_ok h1
    refine hi.set ((hi.side p).packet h2 rfl rfl rfl) (fun d hd => List.mem_append_left _ hd) ?_
    rintro d (hd | hd | hd)
    · exact accepted_snoc (fun x hx => hacc p x (.inl hx)) (ha a hact) d hd
    · exact hacc p d (.inr (.inl hd))
    · exact hacc p d (.inr (.inr hd))
  | receipt p env ia =>
    obtain ⟨⟨st1, data⟩, h1, h⟩ := bind_eq_ok.mp h
    obtain ⟨⟨st, em⟩, h2, h⟩ := bind_eq_ok.mp h
    cases h
    obtain ⟨store, a, -, hact, rfl, rfl⟩ := extractAction_eq_ok h1
    have hdata := (hi.side p.peer).published a.data (ha a hact)
    refine hi.set ((hi.side p).receipt h2 rfl rfl hdata)
      (fun d hd => List.mem_append_left _ hd) ?_
    rintro d (hd | hd | hd)
    · exact hacc p d (.inl hd)
    · exact accepted_snoc (fun x hx => hacc p x (.inr (.inl hx))) (ha a hact) d hd
    · exact hacc p d (.inr (.inr hd))
  | cleanup p env ia =>
    obtain ⟨⟨st1, data⟩, h1, h⟩ := bind_eq_ok.mp h
    obtain ⟨st, h2, h⟩ := bind_eq_ok.mp h
    cases h
    obtain ⟨store, a, -, hact, rfl, rfl⟩ := extractAction_eq_ok h1
    refine hi.set ((hi.side p).cleanup h2 rfl rfl rfl) (fun d hd => hd) ?_
    rintro d (hd | hd | hd)
    · exact hacc p d (.inl hd)
    · exact hacc p d (.inr (.inl hd))
    · exact accepted_snoc (fun x hx => hacc p x (.inr (.inr hx))) (ha a hact) d hd

theorem channelInv_init : ChannelInv {} := by
  have hs : SideInv {} :=
    ⟨rfl, by simp, rfl, by simp, by simp, ⟨[], rfl, rfl, rfl⟩, ⟨[], rfl, rfl, by simp, rfl, rfl⟩⟩
  constructor
  · intro p
    cases p <;> exact hs
  · intro p d hd
    cases p <;> simp [Channel.side] at hd

theorem channelInv_reachable {c : IcpCrypto} {ch : Channel}
    (h : ReachableWhen Relayed (Channel.step c) {} ch) : ChannelInv ch :=
  ReachableWhen.inv ChannelInv channelInv_init (fun _ _ _ hi ha hs => channelInv_step hi ha hs) h

/-- the sample seed, irreversible, its header committing to the action digests `[0]` -/
def sampleProvedSeed : BlockHeaderState :=
  { sampleSeed with
    header := { sampleSeedHeader with
      actionMroot := IncrementalMerkle.merkle sampleCrypto.merkleNode 0 [0] }
    bftIrreversibleBlocknum := 10 }

/-- the proof, in the seed block, of a `null` action of `account` with data `data`; under the
sample hashes every digest is `0` -/
def sampleProof (account : Nat) (data : Bytes) : IcpAction where
  action := leBytes 8 account ++ leBytes 8 nameNull ++ packVarUInt32 0 ++ packBytes data
  actionReceipt := ActionReceipt.pack ⟨account, 0, 0, 0, [], 0, 0⟩
  blockId := sampleProvedSeed.id
  merklePath := [0]

theorem sampleProof_action {account : Nat} {data : Bytes} (ha : account < 2 ^ 64)
    (hd : data.length < 2 ^ 32) :
    unpack Action.unpack (sampleProof account data).action = .ok ⟨account, nameNull, [], data⟩ := by
  have h8 : account < 256 ^ 8 := lt_of_lt_of_eq ha (by norm_num)
  have hnull : nameNull < 256 ^ 8 := by decide
  have hbytes := unpackBytes_packBytes hd []
  rw [List.append_nil] at hbytes
  rw [unpack_eq_ok]
  refine ⟨[], ?_⟩
  simp only [sampleProof, Action.unpack, List.append_assoc, readUInt_leBytes h8,
    readUInt_leBytes hnull, unpackVector, unpackVarUInt32_packVarUInt32 (by decide : (0 : Nat) < 2 ^ 32),
    ok_bind, unpackMany, pure_bind, hbytes]
  rfl

theorem relayed_sampleProof {ch : Channel} {p : Party} {account : Nat} {data : Bytes}
    (ha : account < 2 ^ 64) (hd : data.length < 2 ^ 32) (hpub : data ∈ (ch.side p.peer).published)
    (a : Action) (h : unpack Action.unpack (sampleProof account data).action = .ok a) :
    a.data ∈ (ch.side p.peer).published := by
  rw [sampleProof_action ha hd] at h
  cases h
  exact hpub

/-- `b` (account `2`) sends an expired packet to `a` (account `1`), `a` takes it and publishes
its receipt, and the relay proves that receipt to `b`'s `oncleanup` -/
def sampleReceiptAsRange : List Event :=
  [.call .b sampleEnv (.setpeer 1), .call .b sampleEnv (.setmaxpackes 10),
    .call .b sampleEnv (.sendaction 1 [] 0 []), .call .a sampleEnv (.setpeer 2),
    .call .a sampleEnv (.openchannel sampleProvedSeed),
    .packet .a sampleEnv (sampleProof 2 (IcpPacket.pack ⟨1, 0, [], [], 0, false⟩)),
    .call .b sampleEnv (.openchannel sampleProvedSeed),
    .cleanup .b sampleEnv (sampleProof 1 (IcpReceipt.pack ⟨1, 1, 2, [], false⟩))]

def sampleChannel : Channel := exec (Channel.step sampleIcpCrypto) {} sampleReceiptAsRange

theorem sampleReceiptAsRange_relayed :
    ReachableWhen Relayed (Channel.step sampleIcpCrypto) {} sampleChannel := by
  apply reachableWhen_exec_admitted _ _ .init
  unfold Admitted
  exact ⟨rfl, rfl, rfl, rfl, rfl, relayed_sampleProof (by decide) (by decide) (by decide), rfl,
    relayed_sampleProof (by decide) (by decide) (by decide), trivial⟩

/-- a callback: an action of account `3`, with no authorization and no data -/
def sampleCallback : Bytes := leBytes 8 3 ++ leBytes 8 0 ++ packVarUInt32 0 ++ packBytes []

/-- `b` sends an expired packet with a callback to `a`, `a` takes it and publishes its receipt,
and the relay proves that receipt to `b`'s `onreceipt` -/
def sampleReceiptTaken : List Event :=
  [.call .b sampleEnv (.setpeer 1), .call .b sampleEnv (.setmaxpackes 10),
    .call .b sampleEnv (.sendaction 1 [] 0 sampleCallback), .call .a sampleEnv (.setpeer 2),
    .call .a sampleEnv (.openchannel sampleProvedSeed),
    .packet .a sampleEnv (sampleProof 2 (IcpPacket.pack ⟨1, 0, [], sampleCallback, 0, false⟩)),
    .call .b sampleEnv (.openchannel sampleProvedSeed),
    .receipt .b sampleEnv (sampleProof 1 (IcpReceipt.pack ⟨1, 1, 2, [], false⟩))]

def sampleReceived : Channel := exec (Channel.step sampleIcpCrypto) {} sampleReceiptTaken

end Eos.Icp
