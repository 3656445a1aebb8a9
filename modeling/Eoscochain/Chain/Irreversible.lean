import Eoscochain.Lib.Run
import Eoscochain.Chain.BlockHeaderState

/-!
# The DPoS irreversible block along a chain of header states

controller.cpp `initialize_fork_db` builds the genesis header state, and every later state is
`block_header_state::next` of the one before, with the controller's `trust` flag.

* `systemAccountName`, `initialSchedule`, `genesisState`   the genesis of `initialize_fork_db`;
* `applyHeader`        one signed header on a state;
* `LibInv`             the irreversible block number is below the block number, and every number
                       it is computed from is at most the block number;
* `libInv_reachable`   every state of every chain from genesis keeps `LibInv`.

The irreversible block number is not monotone.  `maybe_promote_pending` rebuilds
`producer_to_last_implied_irb` for the new schedule: a producer who stays keeps its old entry,
however stale, and a new one gets the current irreversible block.  The next block takes the
one-third order statistic of that map.  `dpos_lib_moves_back` is a chain of honest headers along
which it goes from 5 back to 3.
-/

set_option linter.unusedSectionVars false

namespace Eos

open Machine

/-! ## Bounds on the values of a `flat_map` -/

/-- every value of the map is at most `b` -/
def FlatMap.Bounded (b : Nat) (m : FlatMap) : Prop := ∀ v ∈ m.values, v ≤ b

namespace FlatMap

theorem mem_values_set {v : Nat} (k x : Nat) :
    ∀ m : FlatMap, v ∈ (m.set k x).values → v ∈ m.values ∨ v = x
  | [] => by
    intro h
    simp only [set, values, List.map_cons, List.map_nil, List.mem_singleton] at h
    exact .inr h
  | (k', v') :: m => by
    intro h
    unfold set at h
    split_ifs at h
    · simp only [values, List.map_cons, List.mem_cons] at h ⊢
      tauto
    · simp only [values, List.map_cons, List.mem_cons] at h ⊢
      tauto
    · simp only [values, List.map_cons, List.mem_cons] at h ⊢
      rcases h with h | h
      · exact .inl (.inl h)
      · rcases mem_values_set k x m h with h | h
        · exact .inl (.inr h)
        · exact .inr h

theorem mem_values_of_find? {k v : Nat} : ∀ {m : FlatMap}, m.find? k = some v → v ∈ m.values
  | [], h => by cases h
  | (k', v') :: m, h => by
    unfold find? at h
    split_ifs at h
    · cases h
      exact List.mem_cons_self
    · exact List.mem_cons_of_mem _ (mem_values_of_find? h)

theorem Bounded.set {b : Nat} {m : FlatMap} (hm : m.Bounded b) (k : Nat) {x : Nat} (hx : x ≤ b) :
    (m.set k x).Bounded b := by
  intro v hv
  rcases mem_values_set k x m hv with hv | rfl
  · exact hm v hv
  · exact hx

theorem Bounded.mono {b b' : Nat} {m : FlatMap} (hm : m.Bounded b) (hb : b ≤ b') : m.Bounded b' :=
  fun v hv => Nat.le_trans (hm v hv) hb

end FlatMap

namespace BlockHeaderState

/-- `config::system_account_name` -/
def systemAccountName : Nat := stringToName "eosio"

/-- the `initial_schedule` of `initialize_fork_db` -/
def initialSchedule (initialKey : Nat) : ProducerSchedule :=
  { version := 0, producers := [{ producerName := systemAccountName, blockSigningKey := initialKey }] }

/-- `controller_impl::initialize_fork_db`; `chainId` is `conf.genesis.compute_chain_id()` -/
def genesisState (c : Crypto) (initialKey initialTimestamp chainId : Nat) : BlockHeaderState :=
  let header : BlockHeader := { timestamp := initialTimestamp, actionMroot := chainId }
  { activeSchedule := initialSchedule initialKey
    pendingSchedule := initialSchedule initialKey
    pendingScheduleHash := c.scheduleDigest (initialSchedule initialKey)
    header := header
    id := header.id c
    blockNum := header.blockNum }

/-- `block_state( prev, block, trust )`: the next header state -/
def applyHeader (c : Crypto) (s : BlockHeaderState) (h : SignedBlockHeader × Bool) :
    Except String BlockHeaderState :=
  next c s h.1 h.2

/-! ## The irreversible block is below the block number -/

theorem promotedMap_bounded {b dflt : Nat} {old : FlatMap} (hold : old.Bounded b) (hd : dflt ≤ b)
    (ps : List ProducerKey) : (promotedMap ps old dflt).Bounded b := by
  unfold promotedMap
  suffices h : ∀ m : FlatMap, m.Bounded b → (ps.foldl (fun m pro =>
      m.set pro.producerName ((old.find? pro.producerName).getD dflt)) m).Bounded b from
    h [] (fun _ hv => absurd hv List.not_mem_nil)
  induction ps with
  | nil => exact fun m hm => hm
  | cons pro ps ih =>
    intro m hm
    apply ih
    apply hm.set
    cases hf : old.find? pro.producerName with
    | none => exact hd
    | some v => exact hold v (FlatMap.mem_values_of_find? hf)

theorem calcDposLastIrreversible_le {s : BlockHeaderState} {b : Nat}
    (h : s.producerToLastImpliedIrb.Bounded b) : s.calcDposLastIrreversible ≤ b := by
  unfold calcDposLastIrreversible
  dsimp only
  split
  · exact Nat.zero_le b
  · rw [List.getD_eq_getElem?_getD]
    cases hi : (s.producerToLastImpliedIrb.values.insertionSort (· ≤ ·))[(s.producerToLastImpliedIrb.values.length - 1) / 3]? with
    | none => exact Nat.zero_le b
    | some v =>
      have hv := List.mem_of_getElem? hi
      exact h v ((List.perm_insertionSort _ _).mem_iff.mp hv)

theorem setConfirmedLoop_le (blockNum : Nat) :
    ∀ (cc : List Nat) (k n x : Nat), (setConfirmedLoop blockNum cc k n).2 = some x → x ≤ blockNum
  | _, 0, _, _, h => by simp [setConfirmedLoop] at h
  | _, _ + 1, 0, _, h => by simp [setConfirmedLoop] at h
  | cc, k + 1, n + 1, x, h => by
    unfold setConfirmedLoop at h
    dsimp only at h
    split_ifs at h
    · cases h
      exact Nat.sub_le _ _
    · exact setConfirmedLoop_le blockNum _ k n x h

/-- what the irreversible block number is computed from never passes the block number -/
structure LibInv (s : BlockHeaderState) : Prop where
  lib_lt : s.dposIrreversibleBlocknum < s.blockNum
  proposed_le : s.dposProposedIrreversibleBlocknum ≤ s.blockNum
  implied_le : s.producerToLastImpliedIrb.Bounded s.blockNum

theorem libInv_genesis (c : Crypto) (initialKey initialTimestamp chainId : Nat) :
    LibInv (genesisState c initialKey initialTimestamp chainId) where
  lib_lt := by
    show 0 < (numFromId 0 + 1) % 2 ^ 32
    decide
  proposed_le := Nat.zero_le _
  implied_le := fun _ hv => absurd hv List.not_mem_nil

section Step
variable {c : Crypto} {s r : BlockHeaderState}

theorem LibInv.generateNext (hinv : LibInv s) {w : Nat} (h : generateNext c s w = .ok r) :
    LibInv r := by
  unfold BlockHeaderState.generateNext at h
  obtain ⟨w', -, h⟩ := bind_eq_ok.mp h
  obtain ⟨pk, -, h⟩ := bind_eq_ok.mp h
  cases h
  have himplied := hinv.implied_le.set pk.producerName hinv.proposed_le
  exact ⟨Nat.lt_succ_of_le (calcDposLastIrreversible_le himplied),
    Nat.le_succ_of_le hinv.proposed_le, himplied.mono (Nat.le_succ _)⟩

theorem LibInv.setConfirmed (hinv : LibInv s) (n : Nat) : LibInv (setConfirmed s n) := by
  refine ⟨hinv.lib_lt, ?_, hinv.implied_le⟩
  unfold BlockHeaderState.setConfirmed
  dsimp only
  cases hr : (setConfirmedLoop s.blockNum s.confirmCount s.confirmCount.length (n + 1)).2 with
  | none => exact hinv.proposed_le
  | some x => exact setConfirmedLoop_le _ _ _ _ x hr

theorem LibInv.maybePromotePending (hinv : LibInv s) : LibInv (maybePromotePending s).1 := by
  unfold BlockHeaderState.maybePromotePending
  split
  · -- a new producer starts at the irreversible block
    exact ⟨hinv.lib_lt, hinv.proposed_le, promotedMap_bounded hinv.implied_le hinv.lib_lt.le _⟩
  · exact hinv

theorem LibInv.applyNewProducers (hinv : LibInv s) {b : Bool} {np : Option ProducerSchedule}
    (h : applyNewProducers c s b np = .ok r) : LibInv r := by
  cases np with
  | none =>
    cases h
    exact hinv
  | some np =>
    obtain ⟨-, h⟩ := assert_bind_eq_ok.mp h
    unfold setNewProducers at h
    obtain ⟨-, h⟩ := assert_bind_eq_ok.mp h
    obtain ⟨-, h⟩ := assert_bind_eq_ok.mp h
    cases h
    exact ⟨hinv.lib_lt, hinv.proposed_le, hinv.implied_le⟩

theorem LibInv.next (hinv : LibInv s) {hd : SignedBlockHeader} {trust : Bool}
    (h : next c s hd trust = .ok r) : LibInv r := by
  obtain ⟨g, a, hg, ha, rfl⟩ := next_spec h
  have hp := ((hinv.generateNext hg).setConfirmed hd.confirmed).maybePromotePending
  have ha' := hp.applyNewProducers ha
  exact ⟨ha'.lib_lt, ha'.proposed_le, ha'.implied_le⟩

end Step

theorem libInv_reachable {c : Crypto} {initialKey initialTimestamp chainId : Nat} {s : BlockHeaderState}
    (h : Reachable (applyHeader c) (genesisState c initialKey initialTimestamp chainId) s) : LibInv s :=
  h.inv LibInv (libInv_genesis c initialKey initialTimestamp chainId)
    (fun _ _ _ hinv hstep => hinv.next hstep)

/-! ## A chain of honest headers -/

/-- hashes that are all `0`, and a recovery that returns the signature -/
def sampleCrypto : Crypto where
  headerDigest _ := 0
  scheduleDigest _ := 0
  pairDigest _ _ := 0
  recover sig _ := sig

/-- the header the scheduled producer signs on top of `s` at slot `when` -/
def honestHeader (s : BlockHeaderState) (when confirmed : Nat) (np : Option ProducerSchedule) :
    SignedBlockHeader :=
  let pro := match s.getScheduledProducer when with
    | .ok pro => pro
    | .error _ => { producerName := 0, blockSigningKey := 0 }
  { timestamp := when, producer := pro.producerName, confirmed := confirmed, previous := s.id,
    scheduleVersion := s.activeSchedule.version, newProducers := np,
    producerSignature := pro.blockSigningKey }

/-- the headers of the scheduled producers for a list of slots, confirmation counts and
proposed schedules, each signed on the state the ones before it reach -/
def honestRun (c : Crypto) : BlockHeaderState → List (Nat × Nat × Option ProducerSchedule) →
    List (SignedBlockHeader × Bool)
  | _, [] => []
  | s, (when, confirmed, np) :: rest =>
    let hd := honestHeader s when confirmed np
    match next c s hd false with
    | .ok s' => (hd, false) :: honestRun c s' rest
    | .error _ => [(hd, false)]

def producerA : ProducerKey := ⟨1, 11⟩
def producerB : ProducerKey := ⟨2, 12⟩
def producerC : ProducerKey := ⟨3, 13⟩
def producerD : ProducerKey := ⟨4, 14⟩
def producerE : ProducerKey := ⟨5, 15⟩

def sampleGenesis : BlockHeaderState := genesisState sampleCrypto 10 0 0

/-- nine blocks: the system account proposes A, B, C, D, which is promoted at block 4; A proposes
D, E at block 5; A, B, C produce and confirm, D never does; D, E is promoted at block 10 -/
def sampleSlots : List (Nat × Nat × Option ProducerSchedule) :=
  [(1, 0, none), (2, 0, some ⟨1, [producerA, producerB, producerC, producerD]⟩), (3, 0, none),
   (48, 0, some ⟨2, [producerD, producerE]⟩), (60, 1, none), (72, 2, none), (96, 0, none),
   (108, 0, none), (120, 0, none)]

/-- the state after the nine blocks -/
def sampleChainState : BlockHeaderState :=
  exec (applyHeader sampleCrypto) sampleGenesis (honestRun sampleCrypto sampleGenesis sampleSlots)

/-- after the nine blocks the irreversible block is 5; D keeps its entry 3 from block 4 in the
map of D, E, and when E produces block 11 the irreversible block is the smaller entry, 3 -/
theorem dpos_lib_moves_back :
    Reachable (applyHeader sampleCrypto) sampleGenesis sampleChainState ∧
      sampleChainState.blockNum = 10 ∧ sampleChainState.dposIrreversibleBlocknum = 5 ∧
      (applyHeader sampleCrypto sampleChainState (honestHeader sampleChainState 132 0 none, false)).map
        BlockHeaderState.dposIrreversibleBlocknum = .ok 3 :=
  ⟨reachable_exec _, by decide, by decide, by decide⟩

end BlockHeaderState

end Eos
