import Mathlib
import Eoscochain.Lib.Assert
import Eoscochain.Lib.Table
import Eoscochain.Lib.SortedMap
import Eoscochain.Lib.Run

/-!
# Voting in eosio.system

contracts/eosio.system voting.cpp: `regproducer`, `unregprod`, `voteproducer` with
`update_votes`, `regproxy` with `propagate_weight_change`, and `update_elected_producers`; and
the block "update voting power" of `changebw` (delegate_bandwidth.cpp), which calls
`update_votes` again when a voter's stake changes.  A voter votes for up to 30 producers, or
through a proxy; a proxy votes with its own stake and with the weight of the voters that
chose it.

* `VoterInfo`, `ProducerInfo`, `VotingState`   the rows of `voters` and `producers` and the
                         fields of `_gstate` these actions touch;
* `VotingEnv`            what the chain gives an action: the authorities, the time,
                         `stake2vote` at `now()`, and the calls left before the injected call
                         depth check aborts (`propagate_weight_change` calls itself once per proxy
                         of a chain of proxies);
* `propagateWeightChange`, `updateVotes` and its blocks `undoVote`, `castProxyVote`,
                         `applyDelta`; `producer_deltas` is a `SortedMap`;
* `apply`, `step`        the actions;
* `updateElectedProducers`   the producers proposed as the next schedule.

Every run from empty tables keeps the voters well formed (`voters_wellFormed`), and
`update_elected_producers` proposes the producers of its loop sorted by name
(`updateElectedProducers_schedule`).

`Relation.acyclic_of_sink`: a relation changed by new steps that all end where no step starts
makes no cycle it did not make before; a new proxy that uses no proxy is such a sink.

Vote weights are `double`s, here `Float`s; stakes are `int64_t`, here `Int64`, whose `+` wraps
as the source's does.
`require_recipient(proxy)` sends a notification only.
-/

set_option linter.unusedSectionVars false

namespace Relation

variable {α : Type*} {r r' : α → α → Prop} {x : α}

theorem transGen_of_sink (h : ∀ a b, r' a b → r a b ∨ b = x) (hx : ∀ b, ¬ r' x b) {a b : α}
    (hab : TransGen r' a b) : TransGen r a b ∨ b = x := by
  induction hab with
  | single hab => exact (h _ _ hab).imp TransGen.single id
  | tail _ hbc ih =>
    rcases ih with ih | rfl
    · exact (h _ _ hbc).imp ih.tail id
    · exact absurd hbc (hx _)

theorem acyclic_of_sink (h : ∀ a b, r' a b → r a b ∨ b = x) (hx : ∀ b, ¬ r' x b)
    (hr : ∀ a, ¬ TransGen r a a) (a : α) : ¬ TransGen r' a a := by
  intro ha
  rcases transGen_of_sink h hx ha with ha' | rfl
  · exact hr a ha'
  · -- a cycle through the sink leaves it by a step
    obtain ⟨b, hab, -⟩ := TransGen.head'_iff.mp ha
    exact hx b hab

end Relation

namespace Eos.Voting

open Machine (assert)
open Table (findKey getKey)

/-- `voter_info`; `reserved1`, `reserved2` and `reserved3` are read by no action -/
structure VoterInfo where
  owner : Nat
  /-- the proxy the voter chose, `0` for none -/
  proxy : Nat := 0
  /-- the producers the voter votes for when it has no proxy -/
  producers : List Nat := []
  staked : Int64 := 0
  lastVoteWeight : Float := 0
  proxiedVoteWeight : Float := 0
  isProxy : Bool := false
  deriving Repr

/-- `producer_info`; `unpaid_blocks` and `last_claim_time` belong to the producer pay -/
structure ProducerInfo where
  owner : Nat
  totalVotes : Float := 0
  /-- the public key, `0` for `public_key()` -/
  producerKey : Nat
  isActive : Bool := true
  url : String
  location : Nat
  deriving Repr

/-- `producer_info::deactivate` -/
def ProducerInfo.deactivate (p : ProducerInfo) : ProducerInfo :=
  { p with producerKey := 0, isActive := false }

/-- the tables `voters` and `producers`, and the fields of `_gstate` the votes read and write -/
structure VotingState where
  voters : List VoterInfo := []
  producers : List ProducerInfo := []
  totalActivatedStake : Int64 := 0
  threshActivatedStakeTime : Nat := 0
  totalProducerVoteWeight : Float := 0
  minActivatedStake : Int64 := 150000000 * 10000
  lastProducerScheduleUpdate : Nat := 0
  lastProducerScheduleSize : Nat := 0
  maxProducerScheduleSize : Nat := 21
  /-- the schedule last proposed with `set_proposed_producers` -/
  proposedProducers : List (Nat × Nat) := []
  deriving Repr

/-- what the chain gives an action -/
structure VotingEnv where
  auth : List Nat
  /-- `current_time()` -/
  currentTime : Nat
  /-- `stake2vote` at `now()`: the stake times `2 ^ (weeks since 2000 / 52)` -/
  stake2vote : Int64 → Float
  /-- the nested calls left before `call_depth_assert` -/
  callDepth : Nat

/-- the error of `call_depth_assert` -/
def callDepthError : String := "Exceeded call depth maximum"

/-- `require_auth` -/
def requireAuth (env : VotingEnv) (account : Nat) : Except String Unit :=
  assert (env.auth.contains account) "missing authority of ${account}"

/-! ## Producers -/

/-- `system_contract::regproducer` -/
def regproducer (env : VotingEnv) (st : VotingState) (producer producerKey : Nat) (url : String)
    (location : Nat) : Except String VotingState := do
  assert (decide (url.utf8ByteSize < 512)) "url too long"
  assert (producerKey != 0) "public key should not be the default value"
  requireAuth env producer
  match findKey ProducerInfo.owner producer st.producers with
  | some (i, info) =>
    pure { st with producers := st.producers.set i { info with producerKey, isActive := true, url, location } }
  | none =>
    pure { st with
      producers := st.producers ++
        [{ owner := producer, totalVotes := 0, producerKey, isActive := true, url, location }] }

/-- `system_contract::unregprod` -/
def unregprod (env : VotingEnv) (st : VotingState) (producer : Nat) : Except String VotingState := do
  requireAuth env producer
  let (i, prod) ← getKey ProducerInfo.owner producer st.producers "producer not found"
  pure { st with producers := st.producers.set i prod.deactivate }

/-! ## Votes -/

/-- the weight a voter votes with: `stake2vote(staked)`, and for a proxy the weight proxied to it -/
def voteWeight (env : VotingEnv) (voter : VoterInfo) : Float :=
  env.stake2vote voter.staked + if voter.isProxy then voter.proxiedVoteWeight else 0

/-- the loop of `propagate_weight_change` over the producers of a voter: each gets `delta` more
votes -/
def addVotes (st : VotingState) (producers : List Nat) (delta : Float) : Except String VotingState :=
  producers.foldlM (fun st acnt => do
    let (k, p) ← getKey ProducerInfo.owner acnt st.producers "producer not found"
    pure { st with
      producers := st.producers.set k { p with totalVotes := p.totalVotes + delta }
      totalProducerVoteWeight := st.totalProducerVoteWeight + delta }) st

/-- the body of `system_contract::propagate_weight_change` for the voter in row `i`, with `next`
the call it makes for the proxy: a change of its weight of more than `1` goes to its proxy,
which propagates it in turn, or to its producers; the voter's `last_vote_weight` takes its weight
in either case -/
def propagateStep (env : VotingEnv) (next : VotingState → Nat × VoterInfo → Except String VotingState)
    (st : VotingState) (row : Nat × VoterInfo) : Except String VotingState := do
  let (i, voter) := row
  assert (voter.proxy == 0 || !voter.isProxy)
    "account registered as a proxy is not allowed to use a proxy"
  let newWeight := voteWeight env voter
  -- don't propagate small changes (1 ~= epsilon)
  let st ← (if 1 < (newWeight - voter.lastVoteWeight).abs then
      if voter.proxy != 0 then do
        let (j, proxy) ← getKey VoterInfo.owner voter.proxy st.voters "proxy not found"
        let proxy := { proxy with
          proxiedVoteWeight := proxy.proxiedVoteWeight + (newWeight - voter.lastVoteWeight) }
        next { st with voters := st.voters.set j proxy } (j, proxy)
      else addVotes st voter.producers (newWeight - voter.lastVoteWeight)
    else pure st)
  pure { st with voters := st.voters.modify i fun v => { v with lastVoteWeight := newWeight } }

/-- `system_contract::propagate_weight_change`, with `depth` the nested calls left before
`call_depth_assert` aborts -/
def propagateWeightChange (env : VotingEnv) : Nat → VotingState → Nat × VoterInfo →
    Except String VotingState
  | 0 => propagateStep env fun _ _ => throw callDepthError
  | depth + 1 => propagateStep env (propagateWeightChange env depth)

/-- the check of `update_votes` that `producers[i-1] < producers[i]` for each `i` -/
def votesSorted : List Nat → Bool
  | a :: b :: l => decide (a < b) && votesSorted (b :: l)
  | _ => true

/-- the first vote of a voter activates its stake; `thresh_activated_stake_time` is set when the
activated stake first reaches `min_activated_stake` -/
def activateStake (env : VotingEnv) (st : VotingState) (staked : Int64) : VotingState :=
  let total := st.totalActivatedStake + staked
  { st with
    totalActivatedStake := total
    threshActivatedStakeTime :=
      if st.minActivatedStake ≤ total ∧ st.threshActivatedStakeTime = 0 then env.currentTime
      else st.threshActivatedStakeTime }

/-- the block of `update_votes` that takes back the last vote of a voter: from its old proxy,
which propagates the change, or as the changes of the producers it voted for -/
def undoVote (env : VotingEnv) (st : VotingState) (voter : VoterInfo) :
    Except String (VotingState × SortedMap Nat (Float × Bool)) :=
  if 0 < voter.lastVoteWeight then
    if voter.proxy != 0 then do
      let (j, oldProxy) ← getKey VoterInfo.owner voter.proxy st.voters "old proxy not found"
      let oldProxy := { oldProxy with proxiedVoteWeight := oldProxy.proxiedVoteWeight - voter.lastVoteWeight }
      let st ← propagateWeightChange env env.callDepth { st with voters := st.voters.set j oldProxy }
        (j, oldProxy)
      pure (st, SortedMap.empty)
    else
      pure (st, SortedMap.empty.modifyEach voter.producers (0, false) fun d => (d.1 - voter.lastVoteWeight, false))
  else pure (st, SortedMap.empty)

/-- the block of `update_votes` that gives the new weight to the new proxy -/
def castProxyVote (env : VotingEnv) (voting : Bool) (st : VotingState) (proxy : Nat)
    (newVoteWeight : Float) : Except String VotingState := do
  let (j, newProxy) ← getKey VoterInfo.owner proxy st.voters "invalid proxy specified"
  assert (!voting || newProxy.isProxy) "proxy not found"
  if 0 ≤ newVoteWeight then
    let newProxy := { newProxy with proxiedVoteWeight := newProxy.proxiedVoteWeight + newVoteWeight }
    propagateWeightChange env env.callDepth { st with voters := st.voters.set j newProxy } (j, newProxy)
  else pure st

/-- one entry of the loop of `update_votes` over `producer_deltas`: the change of a producer's
votes, and whether the producer is one of the new vote -/
def applyDelta (voting : Bool) (st : VotingState) (pd : Nat × Float × Bool) : Except String VotingState :=
  match findKey ProducerInfo.owner pd.1 st.producers with
  | some (k, p) => do
    assert (!voting || p.isActive || !pd.2.2) "producer is not currently registered"
    let totalVotes := p.totalVotes + pd.2.1
    -- floating point arithmetics can give small negative numbers
    let totalVotes := if totalVotes < 0 then 0 else totalVotes
    pure { st with
      producers := st.producers.set k { p with totalVotes }
      totalProducerVoteWeight := st.totalProducerVoteWeight + pd.2.1 }
  | none => do
    assert (!pd.2.2) "producer is not registered"
    pure st

/-- `system_contract::update_votes`: the last vote of the voter is taken back and the new one is
cast, for the producers listed or through the proxy -/
def updateVotes (env : VotingEnv) (st : VotingState) (voterName proxy : Nat) (producers : List Nat)
    (voting : Bool) : Except String VotingState := do
  (if proxy != 0 then do
      assert (producers.length == 0) "cannot vote for producers and proxy at same time"
      assert (voterName != proxy) "cannot proxy to self"
    else do
      assert (decide (producers.length ≤ 30)) "attempt to vote for too many producers"
      assert (votesSorted producers) "producer votes must be unique and sorted")
  let (i, voter) ← getKey VoterInfo.owner voterName st.voters "user must stake before they can vote"
  assert (proxy == 0 || !voter.isProxy) "account registered as a proxy is not allowed to use a proxy"
  let st := if voter.lastVoteWeight ≤ 0 then activateStake env st voter.staked else st
  let newVoteWeight := voteWeight env voter
  let (st, deltas) ← undoVote env st voter
  let st ← (if proxy != 0 then castProxyVote env voting st proxy newVoteWeight else pure st)
  let deltas := if proxy == 0 && decide (0 ≤ newVoteWeight) then
      deltas.modifyEach producers (0, false) fun d => (d.1 + newVoteWeight, true)
    else deltas
  let st ← deltas.entries.foldlM (applyDelta voting) st
  pure { st with voters := st.voters.modify i fun av =>
    { av with lastVoteWeight := newVoteWeight, producers, proxy } }

/-- `system_contract::voteproducer` -/
def voteproducer (env : VotingEnv) (st : VotingState) (voterName proxy : Nat) (producers : List Nat) :
    Except String VotingState := do
  requireAuth env voterName
  updateVotes env st voterName proxy producers true

/-- `system_contract::regproxy` -/
def regproxy (env : VotingEnv) (st : VotingState) (proxy : Nat) (isproxy : Bool) :
    Except String VotingState := do
  requireAuth env proxy
  match findKey VoterInfo.owner proxy st.voters with
  | some (i, p) =>
    assert (isproxy != p.isProxy) "action has no effect"
    assert (!isproxy || p.proxy == 0) "account that uses a proxy is not allowed to become a proxy"
    let p := { p with isProxy := isproxy }
    propagateWeightChange env env.callDepth { st with voters := st.voters.set i p } (i, p)
  | none => pure { st with voters := st.voters ++ [{ owner := proxy, isProxy := isproxy }] }

/-- the block "update voting power" of `changebw`, for a change `delta` of the stake of `from`
(`validate_b1_vesting`, which only decides whether the change is allowed, is with the rest of
`changebw` in `Staking`) -/
def updateVotingPower (env : VotingEnv) (st : VotingState) (from' : Nat) (delta : Int64) :
    Except String VotingState := do
  let (st, fromVoter) := match findKey VoterInfo.owner from' st.voters with
    | none =>
      let v : VoterInfo := { owner := from', staked := delta }
      ({ st with voters := st.voters ++ [v] }, v)
    | some (i, v) =>
      let v := { v with staked := v.staked + delta }
      ({ st with voters := st.voters.set i v }, v)
  assert (decide (0 ≤ fromVoter.staked)) "stake for voting cannot be negative"
  if fromVoter.producers.length != 0 || fromVoter.proxy != 0 then
    updateVotes env st from' fromVoter.proxy fromVoter.producers false
  else pure st

/-- the actions of the voting -/
inductive VotingAction
  | regproducer (producer producerKey : Nat) (url : String) (location : Nat)
  | unregprod (producer : Nat)
  | voteproducer (voter proxy : Nat) (producers : List Nat)
  | regproxy (proxy : Nat) (isproxy : Bool)
  /-- the stake of `from` changed by `delegatebw` or `undelegatebw` -/
  | changeStake (from' : Nat) (delta : Int64)
  deriving DecidableEq, Repr

def apply (env : VotingEnv) (st : VotingState) : VotingAction → Except String VotingState
  | .regproducer producer producerKey url location => regproducer env st producer producerKey url location
  | .unregprod producer => unregprod env st producer
  | .voteproducer voter proxy producers => voteproducer env st voter proxy producers
  | .regproxy proxy isproxy => regproxy env st proxy isproxy
  | .changeStake from' delta => updateVotingPower env st from' delta

def step (st : VotingState) (e : VotingEnv × VotingAction) : Except String VotingState :=
  apply e.1 st e.2

/-! ## The schedule -/

/-- `producer_info::by_votes`, the key of the index `prototalvote` -/
def ProducerInfo.byVotes (p : ProducerInfo) : Float := if p.isActive then -p.totalVotes else p.totalVotes

/-- the order of the index `prototalvote`, a `soft_double_less` on `by_votes` and then the primary
key: `a` comes no later than `b` when `b` does not come strictly before it -/
def byVotesLE (a b : ProducerInfo) : Bool :=
  !decide (b.byVotes < a.byVotes) && (decide (a.byVotes < b.byVotes) || decide (a.owner ≤ b.owner))

/-- the condition of the loop of `update_elected_producers` on a producer: `0 < total_votes` and
`active()` -/
def ProducerInfo.eligible (p : ProducerInfo) : Bool := decide (0 < p.totalVotes) && p.isActive

/-- the loop of `update_elected_producers`: the producers in the order of `prototalvote`, while
they are active with votes, up to `max_producer_schedule_size` -/
def topProducers (st : VotingState) : List ProducerInfo :=
  ((st.producers.mergeSort byVotesLE).takeWhile ProducerInfo.eligible).take st.maxProducerScheduleSize

/-- `system_contract::update_elected_producers`: unless the loop finds fewer producers than the
last schedule had, they are proposed by name, and `set_proposed_producers` gives whether the chain
took them -/
def updateElectedProducers (setProposedProducers : List (Nat × Nat) → Int) (st : VotingState)
    (blockTime : Nat) : VotingState :=
  let st := { st with lastProducerScheduleUpdate := blockTime }
  let topProducers := topProducers st
  if topProducers.length < st.lastProducerScheduleSize then st
  else
    -- sort by producer name
    let producers := (topProducers.map fun p => ((p.owner, p.producerKey), p.location)).mergeSort
      fun a b => decide (toLex (a.1.1, toLex (a.1.2, a.2)) ≤ toLex (b.1.1, toLex (b.1.2, b.2)))
    let producers := producers.map Prod.fst
    if 0 ≤ setProposedProducers producers then
      { st with lastProducerScheduleSize := topProducers.length, proposedProducers := producers }
    else st

/-! ## What the blocks change -/

/-- what a change of weights keeps of a voter's row -/
def VoterInfo.shape (v : VoterInfo) : Nat × Nat × List Nat × Int64 × Bool :=
  (v.owner, v.proxy, v.producers, v.staked, v.isProxy)

/-- what a change of votes keeps of a producer's row -/
def ProducerInfo.shape (p : ProducerInfo) : Nat × Nat × Bool × String × Nat :=
  (p.owner, p.producerKey, p.isActive, p.url, p.location)

/-- a change of weights and votes only -/
structure Reweighs (st st' : VotingState) : Prop where
  voters : st'.voters.map VoterInfo.shape = st.voters.map VoterInfo.shape
  producers : st'.producers.map ProducerInfo.shape = st.producers.map ProducerInfo.shape

section Frame
variable {env : VotingEnv} {st st' st'' : VotingState}

theorem Reweighs.refl (st : VotingState) : Reweighs st st := ⟨rfl, rfl⟩

theorem Reweighs.trans (h : Reweighs st st') (h' : Reweighs st' st'') : Reweighs st st'' :=
  ⟨h'.voters.trans h.voters, h'.producers.trans h.producers⟩

theorem Reweighs.exists_voter (h : Reweighs st st') {v' : VoterInfo} (hv : v' ∈ st'.voters) :
    ∃ v ∈ st.voters, v.shape = v'.shape := by
  have hmem : v'.shape ∈ st.voters.map VoterInfo.shape := h.voters ▸ List.mem_map_of_mem hv
  exact List.mem_map.mp hmem

theorem reweighs_setVoter {j : Nat} {v x : VoterInfo} (hj : st.voters[j]? = some v)
    (hx : x.shape = v.shape) : Reweighs st { st with voters := st.voters.set j x } :=
  ⟨Table.map_set_of_image hj hx, rfl⟩

theorem reweighs_modifyVoter {i : Nat} {f : VoterInfo → VoterInfo} (hf : ∀ v, (f v).shape = v.shape) :
    Reweighs st { st with voters := st.voters.modify i f } :=
  ⟨Table.map_modify_of_image hf _ _, rfl⟩

theorem reweighs_setVotes {k : Nat} {p : ProducerInfo} (hk : st.producers[k]? = some p) (t w : Float) :
    Reweighs st { st with
      producers := st.producers.set k { p with totalVotes := t }
      totalProducerVoteWeight := w } :=
  ⟨rfl, Table.map_set_of_image hk rfl⟩

theorem addVotes_reweighs {producers : List Nat} {delta : Float} (h : addVotes st producers delta = .ok st') :
    Reweighs st st' := by
  refine Machine.foldlM_inv (Reweighs st) (fun s _ s' hs hstep => ?_) producers st st' (.refl st) h
  obtain ⟨⟨k, p⟩, hk, hstep⟩ := Machine.bind_eq_ok.mp hstep
  cases hstep
  exact hs.trans (reweighs_setVotes (Table.getKey_eq_ok hk).1 _ _)

theorem propagateStep_eq_ok {next : VotingState → Nat × VoterInfo → Except String VotingState}
    {i : Nat} {voter : VoterInfo} (h : propagateStep env next st (i, voter) = .ok st') :
    (voter.proxy == 0 || !voter.isProxy) = true ∧ ∃ st1,
      ((∃ j proxy, voter.proxy ≠ 0 ∧ findKey VoterInfo.owner voter.proxy st.voters = some (j, proxy) ∧
          next { st with voters := st.voters.set j { proxy with
            proxiedVoteWeight := proxy.proxiedVoteWeight + (voteWeight env voter - voter.lastVoteWeight) } }
            (j, { proxy with proxiedVoteWeight :=
              proxy.proxiedVoteWeight + (voteWeight env voter - voter.lastVoteWeight) }) = .ok st1) ∨
        (voter.proxy = 0 ∧ addVotes st voter.producers (voteWeight env voter - voter.lastVoteWeight) = .ok st1) ∨
        st1 = st) ∧
      st' = { st1 with voters := st1.voters.modify i fun v => { v with lastVoteWeight := voteWeight env voter } } := by
  obtain ⟨hchk, h⟩ := Machine.assert_bind_eq_ok.mp h
  obtain ⟨st1, h1, h⟩ := Machine.bind_eq_ok.mp h
  cases h
  refine ⟨hchk, st1, ?_, rfl⟩
  split at h1
  · split at h1
    · next hproxy =>
      obtain ⟨⟨j, proxy⟩, hj, h1⟩ := Machine.bind_eq_ok.mp h1
      exact .inl ⟨j, proxy, by simpa using hproxy, Table.findKey_of_getKey hj, h1⟩
    · next hproxy =>
      exact .inr (.inl ⟨by simpa using hproxy, h1⟩)
  · cases h1
    exact .inr (.inr rfl)

theorem propagateStep_reweighs {next : VotingState → Nat × VoterInfo → Except String VotingState}
    (hnext : ∀ {st st' : VotingState} {row : Nat × VoterInfo}, next st row = .ok st' → Reweighs st st')
    {i : Nat} {voter : VoterInfo} (h : propagateStep env next st (i, voter) = .ok st') : Reweighs st st' := by
  obtain ⟨-, st1, hcases, rfl⟩ := propagateStep_eq_ok h
  have h1 : Reweighs st st1 := by
    rcases hcases with ⟨j, proxy, -, hj, h1⟩ | ⟨-, h1⟩ | rfl
    · refine (reweighs_setVoter (Table.findKey_get hj).1 ?_).trans (hnext h1)
      rfl
    · exact addVotes_reweighs h1
    · exact .refl _
  exact h1.trans (reweighs_modifyVoter fun _ => rfl)

theorem propagateWeightChange_reweighs {depth : Nat} :
    ∀ {st st' : VotingState} {row : Nat × VoterInfo},
      propagateWeightChange env depth st row = .ok st' → Reweighs st st' := by
  induction depth with
  | zero =>
    intro st st' ⟨i, voter⟩ h
    exact propagateStep_reweighs (fun h => by cases h) h
  | succ depth ih =>
    intro st st' ⟨i, voter⟩ h
    exact propagateStep_reweighs ih h

theorem castProxyVote_eq_ok {voting : Bool} {proxy : Nat} {w : Float}
    (h : castProxyVote env voting st proxy w = .ok st') :
    (∃ j np, findKey VoterInfo.owner proxy st.voters = some (j, np) ∧ (voting = true → np.isProxy = true)) ∧
      Reweighs st st' := by
  obtain ⟨⟨j, np⟩, hj, h⟩ := Machine.bind_eq_ok.mp h
  obtain ⟨hchk, h⟩ := Machine.assert_bind_eq_ok.mp h
  refine ⟨⟨j, np, Table.findKey_of_getKey hj, fun hv => by simpa [hv] using hchk⟩, ?_⟩
  split at h
  · refine (reweighs_setVoter (Table.getKey_eq_ok hj).1 ?_).trans (propagateWeightChange_reweighs h)
    rfl
  · cases h
    exact .refl _

theorem undoVote_eq_ok {voter : VoterInfo} {st1 : VotingState} {deltas : SortedMap Nat (Float × Bool)}
    (h : undoVote env st voter = .ok (st1, deltas)) :
    Reweighs st st1 ∧ deltas = if 0 < voter.lastVoteWeight ∧ voter.proxy = 0 then
      SortedMap.empty.modifyEach voter.producers (0, false) fun d => (d.1 - voter.lastVoteWeight, false)
    else SortedMap.empty := by
  unfold undoVote at h
  split at h
  · next hlast =>
    split at h
    · next hproxy =>
      obtain ⟨⟨j, oldProxy⟩, hj, h⟩ := Machine.bind_eq_ok.mp h
      obtain ⟨st2, h2, h⟩ := Machine.bind_eq_ok.mp h
      cases h
      have hne : voter.proxy ≠ 0 := by simpa using hproxy
      refine ⟨(reweighs_setVoter (Table.getKey_eq_ok hj).1 ?_).trans (propagateWeightChange_reweighs h2),
        by simp [hne]⟩
      rfl
    · next hproxy =>
      cases h
      have hzero : voter.proxy = 0 := by simpa using hproxy
      exact ⟨.refl _, by simp [hlast, hzero]⟩
  · next hlast =>
    cases h
    exact ⟨.refl _, by simp [hlast]⟩

/-- a producer's votes after a change of `delta` that `update_votes` clamps at `0` -/
def clampVotes (t delta : Float) : Float := if t + delta < 0 then 0 else t + delta

theorem applyDelta_eq_ok {voting : Bool} {pd : Nat × Float × Bool} (h : applyDelta voting st pd = .ok st') :
    (∃ k p, findKey ProducerInfo.owner pd.1 st.producers = some (k, p) ∧
        (voting = true → pd.2.2 = true → p.isActive = true) ∧
        st' = { st with
          producers := st.producers.set k { p with totalVotes := clampVotes p.totalVotes pd.2.1 }
          totalProducerVoteWeight := st.totalProducerVoteWeight + pd.2.1 }) ∨
      (findKey ProducerInfo.owner pd.1 st.producers = none ∧ pd.2.2 = false ∧ st' = st) := by
  unfold applyDelta at h
  split at h
  · next k p hk =>
    obtain ⟨hchk, h⟩ := Machine.assert_bind_eq_ok.mp h
    cases h
    refine .inl ⟨k, p, hk, fun hv hn => by simpa [hv, hn] using hchk, rfl⟩
  · next hk =>
    obtain ⟨hchk, h⟩ := Machine.assert_bind_eq_ok.mp h
    cases h
    exact .inr ⟨hk, by simpa using hchk, rfl⟩

theorem applyDelta_reweighs {voting : Bool} {pd : Nat × Float × Bool} (h : applyDelta voting st pd = .ok st') :
    Reweighs st st' := by
  rcases applyDelta_eq_ok h with ⟨k, p, hk, -, rfl⟩ | ⟨-, -, rfl⟩
  · exact reweighs_setVotes (Table.findKey_get hk).1 _ _
  · exact .refl _

theorem applyDeltas_reweighs {voting : Bool} {deltas : List (Nat × Float × Bool)}
    (h : deltas.foldlM (applyDelta voting) st = .ok st') : Reweighs st st' :=
  Machine.foldlM_inv (Reweighs st) (fun _ _ _ hs hstep => hs.trans (applyDelta_reweighs hstep))
    deltas st st' (.refl st) h

theorem updateVotes_eq_ok {voterName proxy : Nat} {producers : List Nat} {voting : Bool}
    (h : updateVotes env st voterName proxy producers voting = .ok st') :
    ∃ i voter st1, findKey VoterInfo.owner voterName st.voters = some (i, voter) ∧
      (proxy ≠ 0 → producers = [] ∧ voterName ≠ proxy ∧ voter.isProxy = false ∧
        (voting = true → ∃ np ∈ st.voters, np.owner = proxy ∧ np.isProxy = true)) ∧
      (proxy = 0 → producers.length ≤ 30 ∧ votesSorted producers = true) ∧
      Reweighs (if voter.lastVoteWeight ≤ 0 then activateStake env st voter.staked else st) st1 ∧
      st' = { st1 with voters := st1.voters.modify i fun av =>
        { av with lastVoteWeight := voteWeight env voter, producers, proxy } } := by
  obtain ⟨_, hchk, h⟩ := Machine.bind_eq_ok.mp h
  obtain ⟨⟨i, voter⟩, hi, h⟩ := Machine.bind_eq_ok.mp h
  obtain ⟨hpx, h⟩ := Machine.assert_bind_eq_ok.mp h
  obtain ⟨⟨st2, deltas⟩, hundo, h⟩ := Machine.bind_eq_ok.mp h
  obtain ⟨st3, hcast, h⟩ := Machine.bind_eq_ok.mp h
  obtain ⟨st4, hloop, h⟩ := Machine.bind_eq_ok.mp h
  cases h
  have hvote : (proxy ≠ 0 → producers = [] ∧ voterName ≠ proxy) ∧
      (proxy = 0 → producers.length ≤ 30 ∧ votesSorted producers = true) := by
    split at hchk
    · next hp =>
      obtain ⟨h1, h2⟩ := Machine.assert_bind_eq_ok.mp hchk
      have h2 := Machine.eq_true_of_assert_eq_ok h2
      refine ⟨fun _ => ⟨by simpa using h1, by simpa using h2⟩, fun h0 => by simp [h0] at hp⟩
    · next hp =>
      obtain ⟨h1, h2⟩ := Machine.assert_bind_eq_ok.mp hchk
      have h2 := Machine.eq_true_of_assert_eq_ok h2
      exact ⟨fun h0 => absurd (by simpa using hp) h0, fun _ => ⟨by simpa using h1, h2⟩⟩
  obtain ⟨hre2, -⟩ := undoVote_eq_ok hundo
  have hre3 : Reweighs st2 st3 ∧ (proxy ≠ 0 → voting = true → ∃ np ∈ st2.voters, np.owner = proxy ∧
      np.isProxy = true) := by
    split at hcast
    · obtain ⟨⟨j, np, hj, hnp⟩, hre⟩ := castProxyVote_eq_ok hcast
      obtain ⟨hjnp, hown⟩ := Table.findKey_get hj
      exact ⟨hre, fun _ hv => ⟨np, List.mem_of_getElem? hjnp, hown, hnp hv⟩⟩
    · next hp =>
      cases hcast
      exact ⟨.refl _, fun h0 => absurd (by simpa using h0) hp⟩
  have hact : (if voter.lastVoteWeight ≤ 0 then activateStake env st voter.staked else st).voters = st.voters := by
    split <;> rfl
  refine ⟨i, voter, st4, Table.findKey_of_getKey hi, fun hp => ?_, hvote.2, hre2.trans (hre3.1.trans
    (applyDeltas_reweighs hloop)), rfl⟩
  refine ⟨(hvote.1 hp).1, (hvote.1 hp).2, by simpa [hp] using hpx, fun hv => ?_⟩
  obtain ⟨np, hnp, hown, hisp⟩ := hre3.2 hp hv
  obtain ⟨v, hv, hshape⟩ := hre2.exists_voter hnp
  rw [hact] at hv
  simp only [VoterInfo.shape, Prod.mk.injEq] at hshape
  exact ⟨v, hv, hshape.1.trans hown, hshape.2.2.2.2.trans hisp⟩
end Frame

/-! ## The voters a run leaves -/

/-- `a` votes through the proxy `b` -/
def ProxyOf (voters : List VoterInfo) (a b : Nat) : Prop :=
  ∃ v ∈ voters, v.owner = a ∧ v.proxy = b ∧ b ≠ 0

/-- what every run keeps of the table `voters`: one row per voter; a vote is for a proxy or for
at most 30 producers in order, never both, and a proxy uses no proxy; no stake is negative; and
no chain of proxies comes back to where it started -/
structure VotersInv (voters : List VoterInfo) : Prop where
  nodup : (voters.map VoterInfo.owner).Nodup
  proxyVote : ∀ v ∈ voters, v.proxy ≠ 0 → v.producers = [] ∧ v.isProxy = false
  producerVote : ∀ v ∈ voters, v.producers.length ≤ 30 ∧ votesSorted v.producers = true
  staked : ∀ v ∈ voters, 0 ≤ v.staked
  acyclic : ∀ a, ¬ Relation.TransGen (ProxyOf voters) a a

/-- what every run keeps: the invariant of the voters, and one row per producer -/
structure VotingInv (st : VotingState) : Prop where
  voters : VotersInv st.voters
  producersNodup : (st.producers.map ProducerInfo.owner).Nodup

section Inv
variable {env : VotingEnv} {st st' : VotingState}

theorem shape_eq_iff {v w : VoterInfo} : v.shape = w.shape ↔
    v.owner = w.owner ∧ v.proxy = w.proxy ∧ v.producers = w.producers ∧ v.staked = w.staked ∧
      v.isProxy = w.isProxy := by
  simp [VoterInfo.shape]

theorem exists_of_shapes {voters voters' : List VoterInfo}
    (h : voters'.map VoterInfo.shape = voters.map VoterInfo.shape) {v' : VoterInfo} (hv : v' ∈ voters') :
    ∃ v ∈ voters, v.shape = v'.shape :=
  List.mem_map.mp (h ▸ List.mem_map_of_mem hv)

theorem VotersInv.of_shapes {voters voters' : List VoterInfo}
    (h : voters'.map VoterInfo.shape = voters.map VoterInfo.shape) (hinv : VotersInv voters) :
    VotersInv voters' := by
  have howner : voters'.map VoterInfo.owner = voters.map VoterInfo.owner := by
    have := congrArg (List.map Prod.fst) h
    simpa [List.map_map, Function.comp_def, VoterInfo.shape] using this
  refine ⟨howner ▸ hinv.nodup, fun v' hv' => ?_, fun v' hv' => ?_, fun v' hv' => ?_, fun a => ?_⟩
  · obtain ⟨v, hv, hs⟩ := exists_of_shapes h hv'
    obtain ⟨-, hp, hps, -, hip⟩ := shape_eq_iff.mp hs
    rw [← hp, ← hps, ← hip]
    exact hinv.proxyVote v hv
  · obtain ⟨v, hv, hs⟩ := exists_of_shapes h hv'
    rw [← (shape_eq_iff.mp hs).2.2.1]
    exact hinv.producerVote v hv
  · obtain ⟨v, hv, hs⟩ := exists_of_shapes h hv'
    rw [← (shape_eq_iff.mp hs).2.2.2.1]
    exact hinv.staked v hv
  · -- the proxies are read off the shapes
    refine fun hcyc => hinv.acyclic a (Relation.TransGen.mono (fun b c ⟨v', hv', hb, hc, hne⟩ => ?_) _ _ hcyc)
    obtain ⟨v, hv, hs⟩ := exists_of_shapes h hv'
    obtain ⟨ho, hp, -⟩ := shape_eq_iff.mp hs
    exact ⟨v, hv, ho.trans hb, hp.trans hc, hne⟩

theorem VotingInv.of_reweighs (hinv : VotingInv st) (h : Reweighs st st') : VotingInv st' := by
  refine ⟨hinv.voters.of_shapes h.voters, ?_⟩
  have := congrArg (List.map Prod.fst) h.producers
  simp only [List.map_map, Function.comp_def, ProducerInfo.shape] at this
  exact this ▸ hinv.producersNodup

theorem VotersInv.set {voters : List VoterInfo} (hinv : VotersInv voters) {i : Nat} {v x : VoterInfo}
    (hi : voters[i]? = some v) (howner : x.owner = v.owner)
    (hproxy : x.proxy ≠ 0 → x.producers = [] ∧ x.isProxy = false)
    (hprod : x.producers.length ≤ 30 ∧ votesSorted x.producers = true) (hstaked : 0 ≤ x.staked)
    (hedge : x.proxy = v.proxy ∨ x.proxy = 0 ∨
      (x.proxy ≠ v.owner ∧ ∀ w ∈ voters, w.owner = x.proxy → w.proxy = 0)) :
    VotersInv (voters.set i x) := by
  have hv : v ∈ voters := List.mem_of_getElem? hi
  refine ⟨(Table.map_set_of_image hi howner) ▸ hinv.nodup, fun w hw => ?_, fun w hw => ?_,
    fun w hw => ?_, ?_⟩
  · rcases List.mem_or_eq_of_mem_set hw with hw | rfl
    · exact hinv.proxyVote w hw
    · exact hproxy
  · rcases List.mem_or_eq_of_mem_set hw with hw | rfl
    · exact hinv.producerVote w hw
    · exact hprod
  · rcases List.mem_or_eq_of_mem_set hw with hw | rfl
    · exact hinv.staked w hw
    · exact hstaked
  have hstep : ∀ a b, ProxyOf (voters.set i x) a b → ProxyOf voters a b ∨ (a = x.owner ∧ b = x.proxy) := by
    rintro a b ⟨w, hw, ha, hb, hne⟩
    rcases List.mem_or_eq_of_mem_set hw with hw | rfl
    · exact .inl ⟨w, hw, ha, hb, hne⟩
    · exact .inr ⟨ha.symm, hb.symm⟩
  rcases hedge with hsame | hnone | ⟨hself, hsink⟩
  · -- the same proxy: no new step
    refine fun a hcyc => hinv.acyclic a (Relation.TransGen.mono (fun b c hbc => ?_) _ _ hcyc)
    rcases hstep b c hbc with hbc' | ⟨rfl, rfl⟩
    · exact hbc'
    · obtain ⟨-, -, -, -, hne⟩ := hbc
      exact ⟨v, hv, howner.symm, hsame.symm, hne⟩
  · -- no proxy: no new step
    refine fun a hcyc => hinv.acyclic a (Relation.TransGen.mono (fun b c hbc => ?_) _ _ hcyc)
    rcases hstep b c hbc with hbc' | ⟨rfl, rfl⟩
    · exact hbc'
    · obtain ⟨-, -, -, -, hne⟩ := hbc
      exact absurd hnone hne
  · -- the new proxy uses no proxy, so a chain through it stops there
    refine Relation.acyclic_of_sink (x := x.proxy) (fun a b hab => ?_) (fun b hb => ?_) hinv.acyclic
    · rcases hstep a b hab with hab' | ⟨-, rfl⟩
      · exact .inl hab'
      · exact .inr rfl
    · obtain ⟨w, hw, hown, hwp, hne⟩ := hb
      rcases List.mem_or_eq_of_mem_set hw with hw | rfl
      · exact hne (hwp ▸ hsink w hw hown)
      · exact hself (hown.symm.trans howner)

theorem VotersInv.append {voters : List VoterInfo} (hinv : VotersInv voters) {x : VoterInfo}
    (hnew : ∀ w ∈ voters, w.owner ≠ x.owner) (hproxy : x.proxy = 0) (hprod : x.producers = [])
    (hstaked : 0 ≤ x.staked) : VotersInv (voters ++ [x]) := by
  refine ⟨Table.nodup_map_append hinv.nodup hnew, fun w hw => ?_, fun w hw => ?_, fun w hw => ?_,
    fun a hcyc => hinv.acyclic a (Relation.TransGen.mono (fun b c ⟨w, hw, hb, hc, hne⟩ => ?_) _ _ hcyc)⟩
  · rcases List.mem_append.mp hw with hw | hw
    · exact hinv.proxyVote w hw
    · rw [List.mem_singleton.mp hw]
      exact fun h => absurd hproxy h
  · rcases List.mem_append.mp hw with hw | hw
    · exact hinv.producerVote w hw
    · rw [List.mem_singleton.mp hw, hprod]
      exact ⟨Nat.zero_le _, rfl⟩
  · rcases List.mem_append.mp hw with hw | hw
    · exact hinv.staked w hw
    · rw [List.mem_singleton.mp hw]
      exact hstaked
  · -- the new voter uses no proxy: no new step
    rcases List.mem_append.mp hw with hw | hw
    · exact ⟨w, hw, hb, hc, hne⟩
    · rw [List.mem_singleton.mp hw, hproxy] at hc
      exact absurd hc.symm hne

theorem exists_at_of_shapes {voters voters' : List VoterInfo}
    (h : voters'.map VoterInfo.shape = voters.map VoterInfo.shape) {i : Nat} {v : VoterInfo}
    (hi : voters[i]? = some v) : ∃ y, voters'[i]? = some y ∧ y.shape = v.shape := by
  have hmap := congrArg (·[i]?) h
  simp only [List.getElem?_map, hi, Option.map_some] at hmap
  exact Option.map_eq_some_iff.mp hmap

theorem eq_of_owner {voters : List VoterInfo} (hinv : VotersInv voters) {v w : VoterInfo}
    (hv : v ∈ voters) (hw : w ∈ voters) (hown : v.owner = w.owner) : v = w :=
  List.inj_on_of_nodup_map hinv.nodup hv hw hown

end Inv

/-! ## The actions -/

section Actions
variable {env : VotingEnv} {st st' : VotingState}

theorem updateVotes_inv {voterName proxy : Nat} {producers : List Nat} {voting : Bool}
    (hinv : VotingInv st)
    (hnew : voting = true ∨ ∀ v ∈ st.voters, v.owner = voterName → v.proxy = proxy)
    (h : updateVotes env st voterName proxy producers voting = .ok st') : VotingInv st' := by
  obtain ⟨i, voter, st1, hi, hpx, hpr, hre, rfl⟩ := updateVotes_eq_ok h
  obtain ⟨hiv, howner⟩ := Table.findKey_get hi
  have hvmem : voter ∈ st.voters := List.mem_of_getElem? hiv
  have hact : VotingInv (if voter.lastVoteWeight ≤ 0 then activateStake env st voter.staked else st) ∧
      (if voter.lastVoteWeight ≤ 0 then activateStake env st voter.staked else st).voters = st.voters := by
    split
    · exact ⟨⟨hinv.voters, hinv.producersNodup⟩, rfl⟩
    · exact ⟨hinv, rfl⟩
  obtain ⟨hinv0, hvot0⟩ := hact
  have hinv1 := hinv0.of_reweighs hre
  have hshapes : st1.voters.map VoterInfo.shape = st.voters.map VoterInfo.shape := hvot0 ▸ hre.voters
  obtain ⟨y, hy, hys⟩ := exists_at_of_shapes hshapes hiv
  obtain ⟨hyo, hyp, -, hys', hyi⟩ := shape_eq_iff.mp hys
  refine ⟨?_, hinv1.producersNodup⟩
  dsimp only
  rw [Table.modify_eq_set_of_get _ hy]
  refine hinv1.voters.set hy rfl (fun hp => ⟨(hpx hp).1, hyi.trans (hpx hp).2.2.1⟩) ?_
    (hys' ▸ hinv.voters.staked voter hvmem) ?_
  · by_cases hp : proxy = 0
    · exact hpr hp
    · rw [(hpx hp).1]
      exact ⟨Nat.zero_le _, rfl⟩
  · rcases hnew with hv | hkeep
    · by_cases hp : proxy = 0
      · exact .inr (.inl hp)
      · -- the new proxy is a proxy, so it uses no proxy
        obtain ⟨-, hne, -, hnp⟩ := hpx hp
        obtain ⟨np, hnp, hnpo, hnpi⟩ := hnp hv
        have hnp0 : np.proxy = 0 := by
          by_contra h0
          rw [(hinv.voters.proxyVote np hnp h0).2] at hnpi
          exact Bool.false_ne_true hnpi
        refine .inr (.inr ⟨fun h => hne (howner.symm.trans (hyo.symm.trans h.symm)), fun w hw hwo => ?_⟩)
        obtain ⟨w0, hw0, hws⟩ := exists_of_shapes hshapes hw
        obtain ⟨hwo0, hwp0, -⟩ := shape_eq_iff.mp hws
        rw [← hwp0, eq_of_owner hinv.voters hw0 hnp (hwo0.trans (hwo.trans hnpo.symm)), hnp0]
    · exact .inl (hyp.trans (hkeep voter hvmem howner)).symm

theorem nodup_setProducer {k : Nat} {p x : ProducerInfo} (hk : st.producers[k]? = some p)
    (hx : x.owner = p.owner) (h : (st.producers.map ProducerInfo.owner).Nodup) :
    ((st.producers.set k x).map ProducerInfo.owner).Nodup :=
  (Table.map_set_of_image hk hx) ▸ h

theorem regproducer_inv {producer producerKey : Nat} {url : String} {location : Nat}
    (hinv : VotingInv st) (h : regproducer env st producer producerKey url location = .ok st') :
    VotingInv st' := by
  obtain ⟨-, h⟩ := Machine.assert_bind_eq_ok.mp h
  obtain ⟨-, h⟩ := Machine.assert_bind_eq_ok.mp h
  obtain ⟨_, -, h⟩ := Machine.bind_eq_ok.mp h
  split at h
  · next i info hi =>
    cases h
    exact ⟨hinv.voters, nodup_setProducer (Table.findKey_get hi).1 (by rfl) hinv.producersNodup⟩
  · next hnone =>
    cases h
    exact ⟨hinv.voters, Table.nodup_map_append hinv.producersNodup (Table.findKey_eq_none hnone)⟩

theorem unregprod_inv {producer : Nat} (hinv : VotingInv st) (h : unregprod env st producer = .ok st') :
    VotingInv st' := by
  obtain ⟨_, -, h⟩ := Machine.bind_eq_ok.mp h
  obtain ⟨⟨i, prod⟩, hi, h⟩ := Machine.bind_eq_ok.mp h
  cases h
  exact ⟨hinv.voters, nodup_setProducer (Table.getKey_eq_ok hi).1 (by rfl) hinv.producersNodup⟩

theorem regproxy_inv {proxy : Nat} {isproxy : Bool} (hinv : VotingInv st)
    (h : regproxy env st proxy isproxy = .ok st') : VotingInv st' := by
  obtain ⟨_, -, h⟩ := Machine.bind_eq_ok.mp h
  split at h
  · next i p hi =>
    obtain ⟨-, h⟩ := Machine.assert_bind_eq_ok.mp h
    obtain ⟨hchk, h⟩ := Machine.assert_bind_eq_ok.mp h
    have hget := (Table.findKey_get hi).1
    have hp := List.mem_of_getElem? hget
    have hre := propagateWeightChange_reweighs h
    have hset : VotingInv { st with voters := st.voters.set i { p with isProxy := isproxy } } := by
      refine ⟨hinv.voters.set hget rfl (fun h0 => ⟨(hinv.voters.proxyVote p hp h0).1, ?_⟩)
        (hinv.voters.producerVote p hp) (hinv.voters.staked p hp) (.inl rfl), hinv.producersNodup⟩
      simpa [h0] using hchk
    exact hset.of_reweighs hre
  · next hnone =>
    cases h
    exact ⟨hinv.voters.append (Table.findKey_eq_none hnone) rfl rfl (show (0 : Int64) ≤ 0 by decide),
      hinv.producersNodup⟩

theorem updateVotingPower_inv {from' : Nat} {delta : Int64} (hinv : VotingInv st)
    (h : updateVotingPower env st from' delta = .ok st') : VotingInv st' := by
  unfold updateVotingPower at h
  cases hk : findKey VoterInfo.owner from' st.voters with
  | none =>
    rw [hk] at h
    dsimp only at h
    obtain ⟨hs, h⟩ := Machine.assert_bind_eq_ok.mp h
    split at h
    · next hvote => simp at hvote
    · cases h
      exact ⟨hinv.voters.append (Table.findKey_eq_none hk) rfl rfl (by simpa using hs),
        hinv.producersNodup⟩
  | some p =>
    obtain ⟨i, v⟩ := p
    rw [hk] at h
    dsimp only at h
    obtain ⟨hs, h⟩ := Machine.assert_bind_eq_ok.mp h
    obtain ⟨hget, hown⟩ := Table.findKey_get hk
    have hv := List.mem_of_getElem? hget
    have hset : VotingInv { st with voters := st.voters.set i { v with staked := v.staked + delta } } :=
      ⟨hinv.voters.set hget rfl (hinv.voters.proxyVote v hv) (hinv.voters.producerVote v hv)
        (by simpa using hs) (.inl rfl), hinv.producersNodup⟩
    split at h
    · -- the vote is cast again with its proxy and producers
      have hkeep : ∀ w ∈ (st.voters.set i { v with staked := v.staked + delta }), w.owner = from' →
          w.proxy = v.proxy := by
        intro w hw hwo
        rcases List.mem_or_eq_of_mem_set hw with hw | rfl
        · rw [eq_of_owner hinv.voters hw hv (hwo.trans hown.symm)]
        · rfl
      exact updateVotes_inv hset (.inr hkeep) h
    · cases h
      exact hset

/-- **one step keeps the invariant** -/
theorem step_inv {e : VotingEnv × VotingAction} (hinv : VotingInv st) (h : step st e = .ok st') :
    VotingInv st' := by
  obtain ⟨env, a⟩ := e
  cases a with
  | regproducer producer producerKey url location => exact regproducer_inv hinv h
  | unregprod producer => exact unregprod_inv hinv h
  | voteproducer voter proxy producers =>
    obtain ⟨_, -, h⟩ := Machine.bind_eq_ok.mp h
    exact updateVotes_inv hinv (.inl rfl) h
  | regproxy proxy isproxy => exact regproxy_inv hinv h
  | changeStake from' delta => exact updateVotingPower_inv hinv h

end Actions

/-! ## Runs -/

theorem votingInv_empty : VotingInv {} := by
  refine ⟨⟨List.nodup_nil, fun _ h => absurd h List.not_mem_nil, fun _ h => absurd h List.not_mem_nil,
    fun _ h => absurd h List.not_mem_nil, fun a hcyc => ?_⟩, List.nodup_nil⟩
  obtain ⟨b, ⟨v, hv, -⟩, -⟩ := Relation.TransGen.head'_iff.mp hcyc
  exact absurd hv List.not_mem_nil


/-- producers `1` and `2` register; `3` stakes `100` and votes for both; `5` registers as a proxy
and stakes `30`; `4` stakes `50` and votes through `5`, which has not voted yet, and then `5`
votes for `2` -/
def sampleVotingRun : List (VotingEnv × VotingAction) :=
  let env : VotingEnv :=
    { auth := [1, 2, 3, 4, 5], currentTime := 1, stake2vote := fun s => Float.ofInt s.toInt, callDepth := 8 }
  [(env, .regproducer 1 11 "" 0), (env, .regproducer 2 12 "" 0), (env, .changeStake 3 100),
   (env, .voteproducer 3 0 [1, 2]), (env, .changeStake 4 50), (env, .regproxy 5 true),
   (env, .changeStake 5 30), (env, .voteproducer 4 5 []), (env, .voteproducer 5 0 [2])]

/-- **the voters a run leaves are well formed**: from empty tables, every run leaves one row per
voter and per producer; each vote is for a proxy, which is not itself, or for at most 30
producers in increasing order, never both; a proxy uses no proxy; no stake is negative; and no
chain of proxies returns to a voter it passed -/
theorem voters_wellFormed {st : VotingState} (h : Machine.Reachable step {} st) : VotingInv st :=
  Machine.Reachable.inv VotingInv votingInv_empty (fun _ _ _ hs hst => step_inv hs hst) h

theorem voters_wellFormed_at_sample : VotingInv (Machine.exec step {} sampleVotingRun) :=
  voters_wellFormed (Machine.reachable_exec sampleVotingRun)

/-! ## The election -/

section Elect
variable {st : VotingState}

theorem mem_topProducers {q : ProducerInfo} (hq : q ∈ topProducers st) :
    q ∈ st.producers ∧ q.eligible = true := by
  have hq' := List.mem_of_mem_take hq
  exact ⟨(List.mergeSort_perm _ _).subset ((List.takeWhile_sublist _).subset hq'),
    List.mem_takeWhile_imp hq'⟩

theorem schedule_perm (top : List ProducerInfo) (le : (Nat × Nat) × Nat → (Nat × Nat) × Nat → Bool) :
    (((top.map fun p => ((p.owner, p.producerKey), p.location)).mergeSort le).map Prod.fst).Perm
      (top.map fun p => (p.owner, p.producerKey)) := by
  refine ((List.mergeSort_perm _ _).map Prod.fst).trans ?_
  rw [List.map_map]
  exact List.Perm.refl _

theorem schedule_sorted (top : List ProducerInfo) :
    (((top.map fun p => ((p.owner, p.producerKey), p.location)).mergeSort fun a b =>
        decide (toLex (a.1.1, toLex (a.1.2, a.2)) ≤ toLex (b.1.1, toLex (b.1.2, b.2)))).map
      Prod.fst).Pairwise fun a b => toLex a ≤ toLex b := by
  refine List.pairwise_map.mpr ((List.pairwise_mergeSort ?_ ?_ _).imp ?_)
  · intro a b c hab hbc
    simp only [decide_eq_true_eq] at hab hbc ⊢
    exact le_trans hab hbc
  · intro a b
    simpa using le_total (toLex (a.1.1, toLex (a.1.2, a.2))) (toLex (b.1.1, toLex (b.1.2, b.2)))
  · -- the order of the triples orders their first two components
    intro a b hab
    simp only [decide_eq_true_eq, Prod.Lex.toLex_le_toLex] at hab ⊢
    omega

theorem updateElectedProducers_tables (setProposedProducers : List (Nat × Nat) → Int)
    (st : VotingState) (blockTime : Nat) :
    (updateElectedProducers setProposedProducers st blockTime).voters = st.voters ∧
      (updateElectedProducers setProposedProducers st blockTime).producers = st.producers ∧
      (updateElectedProducers setProposedProducers st blockTime).lastProducerScheduleUpdate = blockTime := by
  unfold updateElectedProducers
  dsimp only
  split_ifs <;> exact ⟨rfl, rfl, rfl⟩

theorem updateElectedProducers_proposal (setProposedProducers : List (Nat × Nat) → Int)
    (st : VotingState) (blockTime : Nat) :
    let st' := updateElectedProducers setProposedProducers st blockTime
    let keys := (topProducers st).map fun p => (p.owner, p.producerKey)
    (st.lastProducerScheduleSize ≤ (topProducers st).length ∧
        0 ≤ setProposedProducers st'.proposedProducers ∧ st'.proposedProducers.Perm keys ∧
        st'.proposedProducers.Pairwise (fun a b => toLex a ≤ toLex b) ∧
        st'.lastProducerScheduleSize = (topProducers st).length) ∨
      (st'.proposedProducers = st.proposedProducers ∧
        st'.lastProducerScheduleSize = st.lastProducerScheduleSize ∧
        ((topProducers st).length < st.lastProducerScheduleSize ∨
          ∃ ps : List (Nat × Nat), ps.Perm keys ∧ ps.Pairwise (fun a b => toLex a ≤ toLex b) ∧
            setProposedProducers ps < 0)) := by
  unfold updateElectedProducers
  dsimp only
  split_ifs with hlen hset
  · exact .inr ⟨rfl, rfl, .inl hlen⟩
  · exact .inl ⟨not_lt.mp hlen, hset, schedule_perm _ _, schedule_sorted _, rfl⟩
  · exact .inr ⟨rfl, rfl, .inr ⟨_, schedule_perm _ _, schedule_sorted _, not_le.mp hset⟩⟩

end Elect

end Eos.Voting
