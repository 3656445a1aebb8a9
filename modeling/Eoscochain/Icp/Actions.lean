import Eoscochain.Icp.Contract

/-!
# What the actions of the ICP contract do

`Applied c env st call r` says, action by action, what a successful run of `call` from `st`
leaves and sends; `apply_applied` is the one inversion lemma of the dispatcher, and the
invariants of `Icp.Meter` and `Icp.Channel` are case analyses on it.  `cleanup` has no case: it
never succeeds (`cleanup_fails`).

The cases are built from one statement per helper: `spanGuard_eq_ok` (the guard passes only on
an empty table), `extractAction_eq_ok`, `sendaction_eq_ok`, `genproof_eq_ok`, and the bodies of
the three handlers the relay calls, `onpacketData_eq_ok`, `onreceiptData_eq_ok`,
`oncleanupData_eq_ok`.
-/

set_option linter.unusedSectionVars false

namespace Eos.Icp

open Machine Codec Table ForkStore IcpState

/-! ## What an action sends -/

/-- the data of a `null` action -/
def Emitted.nullData? : Emitted → Option Bytes
  | .null d => some d
  | .inline _ => none

/-- an inline action -/
def Emitted.inline? : Emitted → Option Action
  | .null _ => none
  | .inline a => some a

/-- the data published by the `null` actions sent -/
def nullData (em : List Emitted) : List Bytes := em.filterMap Emitted.nullData?

/-- the inline actions sent -/
def inlineActions (em : List Emitted) : List Action := em.filterMap Emitted.inline?

@[simp] theorem nullData_append (em em' : List Emitted) :
    nullData (em ++ em') = nullData em ++ nullData em' := List.filterMap_append

@[simp] theorem inlineActions_append (em em' : List Emitted) :
    inlineActions (em ++ em') = inlineActions em ++ inlineActions em' := List.filterMap_append

/-- the actions the relay pushes with the proof of an action of the peer -/
def IcpCall.relayed : IcpCall → Bool
  | .onpacket _ | .onreceipt _ | .oncleanup _ => true
  | _ => false

/-! ## The helpers -/

theorem spanGuard_eq_ok {seqs : List Nat} {msg : String} {u : Unit}
    (h : spanGuard seqs msg = .ok u) : seqs = [] := by
  unfold spanGuard at h
  split at h
  · next b e _ _ =>
    have hf : decide ((e + 2 ^ 64 - b) % 2 ^ 64 < 0) = false := by simp
    rw [hf] at h
    cases h
  · next hne =>
    cases seqs with
    | nil => rfl
    | cons x xs =>
      exfalso
      exact hne x ((x :: xs).getLast (by simp)) rfl (List.getLast?_eq_some_getLast (by simp))

theorem extractAction_eq_ok {c : IcpCrypto} {st st' : IcpState} {ia : IcpAction} {data : Bytes}
    (h : extractAction c st ia = .ok (st', data)) :
    ∃ store a, st.store.cutdown (numFromId ia.blockId) = .ok store ∧
      unpack Action.unpack ia.action = .ok a ∧ data = a.data ∧ st' = { st with store := store } := by
  unfold extractAction at h
  obtain ⟨-, h⟩ := assert_bind_eq_ok.mp h
  obtain ⟨root, -, h⟩ := bind_eq_ok.mp h
  obtain ⟨-, h⟩ := assert_bind_eq_ok.mp h
  obtain ⟨receipt, -, h⟩ := bind_eq_ok.mp h
  obtain ⟨-, h⟩ := assert_bind_eq_ok.mp h
  obtain ⟨-, h⟩ := assert_bind_eq_ok.mp h
  obtain ⟨store, hcut, h⟩ := bind_eq_ok.mp h
  obtain ⟨a, ha, h⟩ := bind_eq_ok.mp h
  obtain ⟨-, h⟩ := assert_bind_eq_ok.mp h
  obtain ⟨-, h⟩ := assert_bind_eq_ok.mp h
  cases h
  exact ⟨store, a, hcut, ha, rfl, rfl⟩

theorem onpacketData_eq_ok {env : Env} {st st' : IcpState} {data : Bytes} {em : List Emitted}
    (h : onpacketData env st data = .ok (st', em)) :
    ∃ q, unpack IcpPacket.unpack data = .ok q ∧
      q.seq = st.peerContract.lastIncomingPacketSeq + 1 ∧
      st' = st.updatePeer { st.peerContract with
        lastIncomingPacketSeq := st.peerContract.lastIncomingPacketSeq + 1
        lastOutgoingReceiptSeq := st.peerContract.lastOutgoingReceiptSeq + 1 } ∧
      ∃ status, nullData em = [IcpReceipt.pack
        { seq := st.peerContract.lastOutgoingReceiptSeq + 1, pseq := q.seq, status := status,
          data := [] }] := by
  unfold onpacketData at h
  obtain ⟨q, hq, h⟩ := bind_eq_ok.mp h
  obtain ⟨hseq, h⟩ := assert_bind_eq_ok.mp h
  refine ⟨q, hq, by simpa using hseq, ?_⟩
  split at h
  · cases h
    exact ⟨rfl, _, rfl⟩
  · obtain ⟨a, -, h⟩ := bind_eq_ok.mp h
    cases h
    exact ⟨rfl, _, rfl⟩

theorem onreceiptData_eq_ok {env : Env} {st st' : IcpState} {data : Bytes} {em : List Emitted}
    (h : onreceiptData env st data = .ok (st', em)) :
    ∃ r q, unpack IcpReceipt.unpack data = .ok r ∧
      r.seq = st.peerContract.lastIncomingReceiptSeq + 1 ∧ st.receipts = [] ∧
      q ∈ st.packets ∧ q.seq = r.pseq ∧ q.status = receiptStatusUnknown ∧
      st' = { st.updatePeer { st.peerContract with
        lastIncomingReceiptSeq := st.peerContract.lastIncomingReceiptSeq + 1 } with
          receipts := [r] } ∧
      nullData em = [] ∧ ∃ a, inlineActions em = [a] ∧
        a.data = packCallback r.pseq r.status r.data := by
  unfold onreceiptData at h
  obtain ⟨r, hr, h⟩ := bind_eq_ok.mp h
  obtain ⟨hseq, h⟩ := assert_bind_eq_ok.mp h
  obtain ⟨u, hguard, h⟩ := bind_eq_ok.mp h
  have hempty : st.receipts = [] := List.map_eq_nil_iff.mp (spanGuard_eq_ok hguard)
  obtain ⟨receipts, hemp, h⟩ := bind_eq_ok.mp h
  obtain ⟨q, hq, h⟩ := bind_eq_ok.mp h
  obtain ⟨hstatus, h⟩ := assert_bind_eq_ok.mp h
  obtain ⟨-, h⟩ := assert_bind_eq_ok.mp h
  obtain ⟨ra, -, h⟩ := bind_eq_ok.mp h
  cases h
  obtain ⟨hmem, hkey⟩ := getByPk_eq_ok hq
  have hrs : receipts = [r] := by
    rw [emplace_eq_ok hemp]
    show insertByPk _ _ st.receipts = _
    rw [hempty]
    rfl
  exact ⟨r, q, hr, by simpa using hseq, hempty, hmem, hkey, by simpa using hstatus, by rw [hrs],
    rfl, _, rfl, rfl⟩

/-- **`onreceipt` never records a receipt on its packet**: the status is set on a copy of the
row, so after every successful `onreceipt` the table `packets` is as it was, and the packet the
receipt names is still waiting for one -/
theorem onreceipt_keeps_packet_pending {c : IcpCrypto} {env : Env} {st st' : IcpState}
    {ia : IcpAction} {em : List Emitted} (h : onreceipt c env st ia = .ok (st', em)) :
    st'.packets = st.packets ∧ ∃ st1 data r, extractAction c st ia = .ok (st1, data) ∧
      unpack IcpReceipt.unpack data = .ok r ∧
      ∃ q ∈ st'.packets, q.seq = r.pseq ∧ q.status = receiptStatusUnknown := by
  obtain ⟨⟨st1, data⟩, h1, h2⟩ := bind_eq_ok.mp h
  obtain ⟨store, a, -, -, -, rfl⟩ := extractAction_eq_ok h1
  obtain ⟨r, q, hr, -, -, hq, hqr, hstatus, rfl, -⟩ := onreceiptData_eq_ok h2
  exact ⟨rfl, _, data, r, h1, hr, q, hq, hqr, hstatus⟩

theorem oncleanupLoop_sub : ∀ {fuel seq second : Nat} {rs rs' : List IcpReceipt},
    oncleanupLoop fuel seq second rs = .ok rs' → ∀ r ∈ rs', r ∈ rs
  | 0, _, _, _, _, h => by cases h
  | fuel + 1, seq, second, rs, rs', h => by
    unfold oncleanupLoop at h
    split at h
    · intro r hr
      exact List.mem_of_mem_eraseP (oncleanupLoop_sub h r hr)
    · cases h
      exact fun r hr => hr

theorem oncleanupData_eq_ok {env : Env} {st st' : IcpState} {data : Bytes}
    (h : oncleanupData env st data = .ok st') :
    ∃ receipts, (∀ r ∈ receipts, r ∈ st.receipts) ∧ st' = { st with receipts := receipts } := by
  unfold oncleanupData at h
  obtain ⟨range, -, h⟩ := bind_eq_ok.mp h
  obtain ⟨-, h⟩ := assert_bind_eq_ok.mp h
  obtain ⟨receipts, hloop, h⟩ := bind_eq_ok.mp h
  cases h
  exact ⟨receipts, oncleanupLoop_sub hloop, rfl⟩

theorem findEndSeq_fails {packets : List IcpPacket} {endSeq : Nat} {q : IcpPacket}
    (h : findEndSeq packets endSeq = .ok q) : False := by
  unfold findEndSeq at h
  split at h
  · next q' hq =>
    obtain ⟨heq, -⟩ := assert_bind_eq_ok.mp h
    have hgt := List.find?_some hq
    simp only [decide_eq_true_eq] at hgt
    simp only [beq_iff_eq] at heq
    omega
  · cases h

/-- **`cleanup` never succeeds**: the check that `upper_bound` found `end_seq` fails -/
theorem cleanup_fails {env : Env} {st : IcpState} {startSeq endSeq : Nat}
    {r : IcpState × List Emitted} (h : cleanup env st startSeq endSeq = .ok r) : False := by
  unfold cleanup at h
  obtain ⟨-, h⟩ := assert_bind_eq_ok.mp h
  obtain ⟨-, h⟩ := assert_bind_eq_ok.mp h
  obtain ⟨p, -, h⟩ := bind_eq_ok.mp h
  obtain ⟨-, h⟩ := assert_bind_eq_ok.mp h
  obtain ⟨callbacks, -, h⟩ := bind_eq_ok.mp h
  obtain ⟨it, hit, -⟩ := bind_eq_ok.mp h
  exact findEndSeq_fails hit

theorem sendaction_eq_ok {st st' : IcpState} {seq : Nat} {sa ra : Bytes} {exp : UInt32}
    {em : List Emitted} (h : sendaction st seq sa exp ra = .ok (st', em)) :
    st.peerContract.peer ≠ 0 ∧ seq = st.peerContract.lastOutgoingPacketSeq + 1 ∧
      st.packets = [] ∧ ∃ meter, meterAdd st.meter 1 "exceed max packets" = .ok meter ∧
        st' = { st with
          peer := some { st.peerContract with lastOutgoingPacketSeq := seq }, meter := meter,
          packets := [⟨seq, exp.toNat, sa, ra, 0, false⟩] } ∧
        em = [.null (IcpPacket.pack ⟨seq, exp.toNat, sa, ra, 0, false⟩)] := by
  unfold sendaction at h
  obtain ⟨hpeer, h⟩ := assert_bind_eq_ok.mp h
  obtain ⟨hseq, h⟩ := assert_bind_eq_ok.mp h
  obtain rfl : seq = st.peerContract.lastOutgoingPacketSeq + 1 := by simpa using hseq
  obtain ⟨u, hguard, h⟩ := bind_eq_ok.mp h
  have hempty : st.packets = [] := List.map_eq_nil_iff.mp (spanGuard_eq_ok hguard)
  obtain ⟨st2, h2, h⟩ := bind_eq_ok.mp h
  obtain ⟨meter, hadd, h2⟩ := bind_eq_ok.mp h2
  cases h2
  obtain ⟨packets, hemp, h⟩ := bind_eq_ok.mp h
  cases h
  have hpackets :
      packets = [⟨st.peerContract.lastOutgoingPacketSeq + 1, exp.toNat, sa, ra, 0, false⟩] := by
    rw [emplace_eq_ok hemp]
    show insertByPk _ _ st.packets = _
    rw [hempty]
    rfl
  refine ⟨by simpa using hpeer, rfl, hempty, meter, hadd, ?_, rfl⟩
  rw [hpackets]
  rfl

theorem genproof_eq_ok {st : IcpState} {p r : Nat} {em : List Emitted}
    (h : genproof st p r = .ok em) :
    inlineActions em = [] ∧ ∀ d ∈ nullData em,
      (∃ q ∈ st.packets, d = IcpPacket.pack { q with shadow := true }) ∨
      (∃ x ∈ st.receipts, d = IcpReceipt.pack { x with shadow := true }) := by
  unfold genproof at h
  obtain ⟨e1, h1, h⟩ := bind_eq_ok.mp h
  obtain ⟨e2, h2, h⟩ := bind_eq_ok.mp h
  cases h
  have he1 : inlineActions e1 = [] ∧
      ∀ d ∈ nullData e1, ∃ q ∈ st.packets, d = IcpPacket.pack { q with shadow := true } := by
    unfold genproofPacket at h1
    split at h1
    · obtain ⟨q, hq, h1⟩ := bind_eq_ok.mp h1
      cases h1
      refine ⟨rfl, fun d hd => ⟨q, (getByPk_eq_ok hq).1, ?_⟩⟩
      simpa [nullData, Emitted.nullData?] using hd
    · cases h1
      exact ⟨rfl, fun d hd => by simp [nullData] at hd⟩
  have he2 : inlineActions e2 = [] ∧
      ∀ d ∈ nullData e2, ∃ x ∈ st.receipts, d = IcpReceipt.pack { x with shadow := true } := by
    unfold genproofReceipt at h2
    split at h2
    · obtain ⟨x, hx, h2⟩ := bind_eq_ok.mp h2
      cases h2
      refine ⟨rfl, fun d hd => ⟨x, (getByPk_eq_ok hx).1, ?_⟩⟩
      simpa [nullData, Emitted.nullData?] using hd
    · cases h2
      exact ⟨rfl, fun d hd => by simp [nullData] at hd⟩
  refine ⟨by simp [he1.1, he2.1], fun d hd => ?_⟩
  rw [nullData_append] at hd
  rcases List.mem_append.mp hd with hd | hd
  · exact .inl (he1.2 d hd)
  · exact .inr (he2.2 d hd)

/-! ## The dispatcher -/

/-- a successful action of the contract from `st`, case by case: the state it leaves and what
it sends; every action first runs the constructor, `apply.created` -/
inductive Applied (c : IcpCrypto) (env : Env) (st : IcpState) :
    IcpCall → IcpState × List Emitted → Prop
  | setpeer (peer : Nat) : env.selfAuth = true → st.peer = none →
      Applied c env st (.setpeer peer)
        ({ apply.created st with peer := some { peer := peer } }, [])
  | setmaxpackes (m : UInt32) : env.selfAuth = true →
      Applied c env st (.setmaxpackes m) ({ apply.created st with meter := some ⟨m.toNat, 0⟩ }, [])
  | setmaxblocks (m : UInt32) : env.selfAuth = true →
      Applied c env st (.setmaxblocks m)
        ({ apply.created st with store := (apply.created st).store.setMaxBlocks m.toNat }, [])
  | openchannel (h : BlockHeaderState) (store : ForkStore) : env.selfAuth = true →
      initSeedBlock c.toCrypto env.fuel (apply.created st).store h = .ok store →
      Applied c env st (.openchannel h) ({ apply.created st with store := store }, [])
  | closechannel (store : ForkStore) : env.selfAuth = true → st.packets = [] →
      st.receipts = [] → (apply.created st).store.reset = .ok store →
      Applied c env st .closechannel ({ apply.created st with store := store }, [])
  | addblocks (h : BlockHeaderState) (path : List Nat) (store : ForkStore) :
      addBlockHeaderWithMerklePath c.toCrypto env.fuel (apply.created st).store h path =
        .ok store →
      Applied c env st (.addblocks h path) ({ apply.created st with store := store }, [])
  | addblock (h : BlockHeader) (store : ForkStore) :
      addBlockHeader c.toCrypto (apply.created st).store h = .ok store →
      Applied c env st (.addblock h) ({ apply.created st with store := store }, [])
  | onpacket (ia : IcpAction) (st1 : IcpState) (data : Bytes) (r : IcpState × List Emitted) :
      extractAction c (apply.created st) ia = .ok (st1, data) →
      onpacketData env st1 data = .ok r → Applied c env st (.onpacket ia) r
  | onreceipt (ia : IcpAction) (st1 : IcpState) (data : Bytes) (r : IcpState × List Emitted) :
      extractAction c (apply.created st) ia = .ok (st1, data) →
      onreceiptData env st1 data = .ok r → Applied c env st (.onreceipt ia) r
  | oncleanup (ia : IcpAction) (st1 : IcpState) (data : Bytes) (st' : IcpState) :
      extractAction c (apply.created st) ia = .ok (st1, data) →
      oncleanupData env st1 data = .ok st' → Applied c env st (.oncleanup ia) (st', [])
  | sendaction (seq : Nat) (sa : Bytes) (exp : UInt32) (ra : Bytes) (meter : Option IcpMeter) :
      st.peerContract.peer ≠ 0 → seq = st.peerContract.lastOutgoingPacketSeq + 1 →
      st.packets = [] → meterAdd st.meter 1 "exceed max packets" = .ok meter →
      Applied c env st (.sendaction seq sa exp ra)
        ({ apply.created st with
            peer := some { st.peerContract with lastOutgoingPacketSeq := seq }, meter := meter,
            packets := [⟨seq, exp.toNat, sa, ra, 0, false⟩] },
          [.null (IcpPacket.pack ⟨seq, exp.toNat, sa, ra, 0, false⟩)])
  | genproof (p q : Nat) (em : List Emitted) : genproof (apply.created st) p q = .ok em →
      Applied c env st (.genproof p q) (apply.created st, em)
  | prune (s e : Nat) : env.selfAuth = true →
      Applied c env st (.prune s e)
        ({ apply.created st with
            receipts := st.receipts.filter fun r => ¬ (s ≤ r.seq ∧ r.seq ≤ e) }, [])

/-- **the inversion lemma of the dispatcher** -/
theorem apply_applied {c : IcpCrypto} {env : Env} {st : IcpState} {call : IcpCall}
    {r : IcpState × List Emitted} (h : apply c env st call = .ok r) : Applied c env st call r := by
  cases call with
  | setpeer peer =>
    obtain ⟨st', hst, rfl⟩ := map_eq_ok.mp h
    unfold setpeer at hst
    obtain ⟨hauth, hst⟩ := assert_bind_eq_ok.mp hst
    obtain ⟨hnone, hst⟩ := assert_bind_eq_ok.mp hst
    cases hst
    exact .setpeer peer hauth (Option.isNone_iff_eq_none.mp hnone)
  | setmaxpackes m =>
    obtain ⟨st', hst, rfl⟩ := map_eq_ok.mp h
    unfold setmaxpackes at hst
    obtain ⟨hauth, hst⟩ := assert_bind_eq_ok.mp hst
    cases hst
    exact .setmaxpackes m hauth
  | setmaxblocks m =>
    obtain ⟨st', hst, rfl⟩ := map_eq_ok.mp h
    unfold setmaxblocks at hst
    obtain ⟨hauth, hst⟩ := assert_bind_eq_ok.mp hst
    cases hst
    exact .setmaxblocks m hauth
  | openchannel hs =>
    obtain ⟨st', hst, rfl⟩ := map_eq_ok.mp h
    unfold openchannel at hst
    obtain ⟨hauth, hst⟩ := assert_bind_eq_ok.mp hst
    obtain ⟨store, hseed, hst⟩ := bind_eq_ok.mp hst
    cases hst
    exact .openchannel hs store hauth hseed
  | closechannel =>
    obtain ⟨st', hst, rfl⟩ := map_eq_ok.mp h
    unfold closechannel at hst
    obtain ⟨hauth, hst⟩ := assert_bind_eq_ok.mp hst
    obtain ⟨hp, hst⟩ := assert_bind_eq_ok.mp hst
    obtain ⟨hr, hst⟩ := assert_bind_eq_ok.mp hst
    obtain ⟨store, hreset, hst⟩ := bind_eq_ok.mp hst
    cases hst
    exact .closechannel store hauth (List.isEmpty_iff.mp hp) (List.isEmpty_iff.mp hr) hreset
  | addblocks hs path =>
    obtain ⟨st', hst, rfl⟩ := map_eq_ok.mp h
    unfold addblocks at hst
    obtain ⟨store, hadd, hst⟩ := bind_eq_ok.mp hst
    cases hst
    exact .addblocks hs path store hadd
  | addblock hs =>
    obtain ⟨st', hst, rfl⟩ := map_eq_ok.mp h
    unfold addblock at hst
    obtain ⟨store, hadd, hst⟩ := bind_eq_ok.mp hst
    cases hst
    exact .addblock hs store hadd
  | onpacket ia =>
    obtain ⟨⟨st1, data⟩, h1, h2⟩ := bind_eq_ok.mp h
    exact .onpacket ia st1 data r h1 h2
  | onreceipt ia =>
    obtain ⟨⟨st1, data⟩, h1, h2⟩ := bind_eq_ok.mp h
    exact .onreceipt ia st1 data r h1 h2
  | oncleanup ia =>
    obtain ⟨st', hst, rfl⟩ := map_eq_ok.mp h
    obtain ⟨⟨st1, data⟩, h1, h2⟩ := bind_eq_ok.mp hst
    exact .oncleanup ia st1 data st' h1 h2
  | cleanup s e => exact (cleanup_fails h).elim
  | sendaction seq sa exp ra =>
    obtain ⟨st', em⟩ := r
    obtain ⟨hpeer, hseq, hempty, meter, hadd, rfl, rfl⟩ := sendaction_eq_ok h
    exact .sendaction seq sa exp ra meter hpeer hseq hempty hadd
  | genproof p q =>
    obtain ⟨em, hem, rfl⟩ := map_eq_ok.mp h
    exact .genproof p q em hem
  | prune s e =>
    obtain ⟨st', hst, rfl⟩ := map_eq_ok.mp h
    unfold Icp.prune at hst
    obtain ⟨hauth, hst⟩ := assert_bind_eq_ok.mp hst
    cases hst
    exact .prune s e hauth

end Eos.Icp
