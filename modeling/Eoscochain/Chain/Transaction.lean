import Mathlib.Data.List.Sort
import Eoscochain.Lib.Codec
import Eoscochain.Lib.Run

/-!
# The keys that signed a transaction

libraries/chain transaction.cpp and transaction_metadata.hpp.  The keys of a transaction's
signatures are recovered against `sig_digest`, which covers the chain id, the packed transaction
and the context-free data.  A process-wide `recovery_cache` keeps the key recovered for each
signature, tagged with the id of the transaction, which covers the packed transaction only.

* `TrxCrypto`             sha256 and public-key recovery, uninterpreted;
* `transactionId`, `sigDigest`   the two hashes of a packed transaction;
* `RecoveryCache`         `recovery_cache_type`: its entries in insertion order, one a signature;
* `keysLoop`, `getSignatureKeys`   the loop over the signatures, with or without the cache; an
                          exception leaves the cache as the loop left it;
* `recoverKeys`           `transaction_metadata::recover_keys`, cached for one chain id;
* `cacheStep`             one call of `get_signature_keys`, as a step on the cache.

The cache answers as recovery does while every entry tagged with the call's transaction id holds
the key of its signature over the call's digest (`getSignatureKeys_transparent`); calls that use
one digest for each transaction id keep that (`cached_keys_transparent`).
-/

set_option linter.unusedSectionVars false

namespace Eos

open Codec Machine

/-- sha256 of bytes, and the public key recovered from a signature over a digest -/
structure TrxCrypto where
  sha256 : Bytes → Nat
  recover : Nat → Nat → Nat

/-- a `checksum256` packed -/
def packDigest (d : Nat) : Bytes := leBytes 32 d

/-- `vector<bytes>` packed -/
def packCfd (cfd : List Bytes) : Bytes := packVarUInt32 cfd.length ++ cfd.flatMap packBytes

/-- `transaction::id` of the packed transaction -/
def transactionId (c : TrxCrypto) (trx : Bytes) : Nat := c.sha256 trx

/-- `transaction::sig_digest` -/
def sigDigest (c : TrxCrypto) (trx : Bytes) (chainId : Nat) (cfd : List Bytes) : Nat :=
  c.sha256 (packDigest chainId ++ trx ++
    packDigest (if cfd.length ≠ 0 then c.sha256 (packCfd cfd) else 0))

/-- `cached_pub_key` -/
structure CachedPubKey where
  trxId : Nat
  pubKey : Nat
  sig : Nat
  deriving DecidableEq, Repr

/-- `recovery_cache_type`: the `sequenced` order, with the `by_sig` index unique -/
abbrev RecoveryCache := List CachedPubKey

def recoveryCacheSize : Nat := 1000

namespace RecoveryCache

/-- the `by_sig` lookup -/
def findSig (cache : RecoveryCache) (sig : Nat) : Option CachedPubKey := cache.find? (·.sig == sig)

/-- `emplace_back`: nothing is inserted when the signature has an entry -/
def emplaceBack (cache : RecoveryCache) (e : CachedPubKey) : RecoveryCache :=
  if (cache.findSig e.sig).isSome then cache else cache ++ [e]

/-- the loop that erases from the front while more than `recovery_cache_size` entries are kept -/
def trim (cache : RecoveryCache) : RecoveryCache := cache.drop (cache.length - recoveryCacheSize)

end RecoveryCache

/-- `flat_set<public_key_type>::insert`, with whether it inserted -/
def flatSetInsert (keys : List Nat) (k : Nat) : List Nat × Bool :=
  if k ∈ keys then (keys, false) else (keys.orderedInsert (· ≤ ·) k, true)

def duplicateSigError : String :=
  "transaction includes more than one signature signed using the same key associated with public key: ${key}"

/-- a signature's key recovered, and cached under the transaction's id -/
def recoverFresh (c : TrxCrypto) (id digest : Nat) (cache : RecoveryCache) (sig : Nat) :
    Nat × RecoveryCache :=
  let recov := c.recover sig digest
  (recov, cache.emplaceBack ⟨id, recov, sig⟩)

/-- the cached branch: the cached key when the entry of the signature has this transaction's id -/
def recoverCached (c : TrxCrypto) (id digest : Nat) (cache : RecoveryCache) (sig : Nat) :
    Nat × RecoveryCache :=
  match cache.findSig sig with
  | some e => if e.trxId = id then (e.pubKey, cache) else recoverFresh c id digest cache sig
  | none => recoverFresh c id digest cache sig

/-- the `for` loop of `get_signature_keys` over the signatures -/
def keysLoop (c : TrxCrypto) (id digest : Nat) (allowDuplicateKeys useCache : Bool) :
    List Nat → List Nat → RecoveryCache → Except String (List Nat) × RecoveryCache
  | [], keys, cache => (.ok keys, cache)
  | sig :: sigs, keys, cache =>
    let r := if useCache then recoverCached c id digest cache sig else (c.recover sig digest, cache)
    let ins := flatSetInsert keys r.1
    if allowDuplicateKeys || ins.2 then keysLoop c id digest allowDuplicateKeys useCache sigs ins.1 r.2
    else (.error duplicateSigError, r.2)

/-- `transaction::get_signature_keys`; the cache is trimmed only after a loop that did not throw -/
def getSignatureKeys (c : TrxCrypto) (cache : RecoveryCache) (trx : Bytes) (signatures : List Nat)
    (chainId : Nat) (cfd : List Bytes) (allowDuplicateKeys useCache : Bool) :
    Except String (List Nat) × RecoveryCache :=
  match keysLoop c (transactionId c trx) (sigDigest c trx chainId cfd) allowDuplicateKeys useCache
      signatures [] cache with
  | (.ok keys, cache) => (.ok keys, if useCache then cache.trim else cache)
  | (.error e, cache) => (.error e, cache)

/-- `signed_transaction`: the packed transaction, its signatures and context-free data -/
structure SignedTransaction where
  trx : Bytes
  signatures : List Nat
  contextFreeData : List Bytes
  deriving DecidableEq, Repr

/-- `signed_transaction::get_signature_keys`, with its defaults -/
def SignedTransaction.getSignatureKeys (c : TrxCrypto) (cache : RecoveryCache)
    (t : SignedTransaction) (chainId : Nat) : Except String (List Nat) × RecoveryCache :=
  Eos.getSignatureKeys c cache t.trx t.signatures chainId t.contextFreeData false true

/-- `transaction_metadata::recover_keys`: the keys of the last chain id asked, kept with it -/
def recoverKeys (c : TrxCrypto) (cache : RecoveryCache) (t : SignedTransaction)
    (signingKeys : Option (Nat × List Nat)) (chainId : Nat) :
    Except String (List Nat × Option (Nat × List Nat)) × RecoveryCache :=
  match signingKeys with
  | some (cid, keys) =>
    if cid = chainId then (.ok (keys, signingKeys), cache) else recompute
  | none => recompute
where
  recompute :=
    match t.getSignatureKeys c cache chainId with
    | (.ok keys, cache) => (.ok (keys, some (chainId, keys)), cache)
    | (.error e, cache) => (.error e, cache)

/-- one call of `get_signature_keys` -/
structure SignatureCall where
  trx : Bytes
  signatures : List Nat
  chainId : Nat
  cfd : List Bytes
  allowDuplicateKeys : Bool
  useCache : Bool
  deriving DecidableEq, Repr

/-- what a call leaves in the process-wide cache, whether or not it threw -/
def cacheStep (c : TrxCrypto) (cache : RecoveryCache) (call : SignatureCall) :
    Except String RecoveryCache :=
  .ok (getSignatureKeys c cache call.trx call.signatures call.chainId call.cfd
    call.allowDuplicateKeys call.useCache).2

/-! ## When the cache is transparent -/

/-- the entries tagged with `id` hold the keys of their signatures over `digest` -/
def CacheAgrees (c : TrxCrypto) (id digest : Nat) (cache : RecoveryCache) : Prop :=
  ∀ e ∈ cache, e.trxId = id → e.pubKey = c.recover e.sig digest

section Agree
variable {c : TrxCrypto} {id digest : Nat} {cache : RecoveryCache}

theorem findSig_mem {sig : Nat} {e : CachedPubKey} (h : cache.findSig sig = some e) :
    e ∈ cache ∧ e.sig = sig := by
  unfold RecoveryCache.findSig at h
  exact ⟨List.mem_of_find?_eq_some h, by simpa using List.find?_some h⟩

theorem mem_emplaceBack {e x : CachedPubKey} (hx : x ∈ cache.emplaceBack e) : x ∈ cache ∨ x = e := by
  unfold RecoveryCache.emplaceBack at hx
  split at hx
  · exact .inl hx
  · rcases List.mem_append.mp hx with hx | hx
    · exact .inl hx
    · exact .inr (List.mem_singleton.mp hx)

theorem CacheAgrees.emplaceBack (hagree : CacheAgrees c id digest cache) (sig : Nat) :
    CacheAgrees c id digest (cache.emplaceBack ⟨id, c.recover sig digest, sig⟩) := by
  intro x hx hid
  rcases mem_emplaceBack hx with hx | rfl
  · exact hagree x hx hid
  · rfl

theorem CacheAgrees.recoverCached_spec (hagree : CacheAgrees c id digest cache) (sig : Nat) :
    (recoverCached c id digest cache sig).1 = c.recover sig digest ∧
      CacheAgrees c id digest (recoverCached c id digest cache sig).2 := by
  unfold Eos.recoverCached
  split
  · next e he =>
    obtain ⟨hmem, hsig⟩ := findSig_mem he
    split
    · next hid =>
      rw [← hsig]
      exact ⟨hagree e hmem hid, hagree⟩
    · exact ⟨rfl, hagree.emplaceBack sig⟩
  · exact ⟨rfl, hagree.emplaceBack sig⟩

theorem keysLoop_transparent (allowDuplicateKeys : Bool) :
    ∀ (sigs keys : List Nat) (cache cache' : RecoveryCache), CacheAgrees c id digest cache →
      (keysLoop c id digest allowDuplicateKeys true sigs keys cache).1 =
        (keysLoop c id digest allowDuplicateKeys false sigs keys cache').1 ∧
      CacheAgrees c id digest (keysLoop c id digest allowDuplicateKeys true sigs keys cache).2
  | [], keys, cache, cache', hagree => ⟨rfl, hagree⟩
  | sig :: sigs, keys, cache, cache', hagree => by
    obtain ⟨hkey, hagree'⟩ := hagree.recoverCached_spec sig
    have ih := keysLoop_transparent allowDuplicateKeys sigs
      (flatSetInsert keys (c.recover sig digest)).1 (recoverCached c id digest cache sig).2 cache' hagree'
    simp only [keysLoop, if_true, Bool.false_eq_true, if_false, hkey]
    split
    · exact ih
    · exact ⟨rfl, hagree'⟩

end Agree

theorem mem_of_mem_trim {cache : RecoveryCache} {e : CachedPubKey} (h : e ∈ cache.trim) : e ∈ cache :=
  List.mem_of_mem_drop h

/-- **The cache is transparent where it agrees**: the keys, or the error, are those of recovery
against the digest on every signature. -/
theorem getSignatureKeys_transparent {c : TrxCrypto} {cache cache' : RecoveryCache} {trx : Bytes}
    {sigs : List Nat} {chainId : Nat} {cfd : List Bytes} {allowDuplicateKeys : Bool}
    (hagree : CacheAgrees c (transactionId c trx) (sigDigest c trx chainId cfd) cache) :
    (getSignatureKeys c cache trx sigs chainId cfd allowDuplicateKeys true).1 =
      (getSignatureKeys c cache' trx sigs chainId cfd allowDuplicateKeys false).1 := by
  have h := (keysLoop_transparent allowDuplicateKeys sigs [] cache cache' hagree).1
  unfold getSignatureKeys
  revert h
  cases keysLoop c (transactionId c trx) (sigDigest c trx chainId cfd) allowDuplicateKeys true sigs [] cache with
  | mk r1 s1 =>
    cases keysLoop c (transactionId c trx) (sigDigest c trx chainId cfd) allowDuplicateKeys false sigs [] cache' with
    | mk r2 s2 =>
      intro h
      cases r1 <;> cases r2 <;> simp_all

/-! ## Runs of calls -/

/-- a call whose digest is the one `D` gives its transaction's id: the transaction is always
signed for one chain, with one context-free data -/
def ConsistentCall (c : TrxCrypto) (D : Nat → Nat) (_ : RecoveryCache) (call : SignatureCall) : Prop :=
  sigDigest c call.trx call.chainId call.cfd = D (transactionId c call.trx)

/-- every entry holds the key of its signature over the digest of its transaction -/
def CacheSound (c : TrxCrypto) (D : Nat → Nat) (cache : RecoveryCache) : Prop :=
  ∀ e ∈ cache, e.pubKey = c.recover e.sig (D e.trxId)

theorem keysLoop_cache (c : TrxCrypto) (id digest : Nat) (allowDuplicateKeys useCache : Bool)
    (P : CachedPubKey → Prop) (hnew : ∀ sig, P ⟨id, c.recover sig digest, sig⟩) :
    ∀ (sigs keys : List Nat) (cache : RecoveryCache), (∀ e ∈ cache, P e) →
      ∀ e ∈ (keysLoop c id digest allowDuplicateKeys useCache sigs keys cache).2, P e
  | [], _, _, hcache => hcache
  | sig :: sigs, keys, cache, hcache => by
    have hstep : ∀ e ∈ (if useCache then recoverCached c id digest cache sig
        else (c.recover sig digest, cache)).2, P e := by
      have hfresh : ∀ e ∈ (recoverFresh c id digest cache sig).2, P e := fun e he => by
        rcases mem_emplaceBack he with he | rfl
        · exact hcache e he
        · exact hnew sig
      split
      · unfold recoverCached
        split
        · split
          · exact hcache
          · exact hfresh
        · exact hfresh
      · exact hcache
    rw [keysLoop]
    generalize (if useCache then recoverCached c id digest cache sig
      else (c.recover sig digest, cache)) = r at hstep ⊢
    split
    · exact keysLoop_cache c id digest allowDuplicateKeys useCache P hnew sigs _ _ hstep
    · exact hstep

theorem CacheSound.agrees {c : TrxCrypto} {D : Nat → Nat} {cache : RecoveryCache}
    (hsound : CacheSound c D cache) {call : SignatureCall} (hcall : ConsistentCall c D cache call) :
    CacheAgrees c (transactionId c call.trx) (sigDigest c call.trx call.chainId call.cfd) cache := by
  intro e he hid
  rw [hsound e he, hid, hcall]

theorem getSignatureKeys_cache {c : TrxCrypto} {cache : RecoveryCache} {trx : Bytes} {sigs : List Nat}
    {chainId : Nat} {cfd : List Bytes} {allowDuplicateKeys useCache : Bool} {e : CachedPubKey}
    (h : e ∈ (getSignatureKeys c cache trx sigs chainId cfd allowDuplicateKeys useCache).2) :
    e ∈ (keysLoop c (transactionId c trx) (sigDigest c trx chainId cfd) allowDuplicateKeys useCache
      sigs [] cache).2 := by
  unfold getSignatureKeys at h
  split at h
  · next keys cache1 hloop =>
    rw [hloop]
    dsimp only at h ⊢
    split at h
    · exact mem_of_mem_trim h
    · exact h
  · next err cache1 hloop =>
    rw [hloop]
    exact h

theorem CacheSound.step {c : TrxCrypto} {D : Nat → Nat} {cache cache' : RecoveryCache}
    (hsound : CacheSound c D cache) {call : SignatureCall} (hcall : ConsistentCall c D cache call)
    (h : cacheStep c cache call = .ok cache') : CacheSound c D cache' := by
  cases h
  have hloop := keysLoop_cache c (transactionId c call.trx) (sigDigest c call.trx call.chainId call.cfd)
    call.allowDuplicateKeys call.useCache (fun e => e.pubKey = c.recover e.sig (D e.trxId))
    (fun sig => by rw [hcall]) call.signatures [] cache hsound
  exact fun e he => hloop e (getSignatureKeys_cache he)

/-- **Transparency over consistent runs.**  After any calls that sign each transaction for one
chain with one context-free data, a further such call returns with the cache what it returns
without. -/
theorem cached_keys_transparent {c : TrxCrypto} {D : Nat → Nat} {cache : RecoveryCache}
    (hrun : ReachableWhen (ConsistentCall c D) (cacheStep c) [] cache) (call : SignatureCall)
    (hcall : ConsistentCall c D cache call) :
    (getSignatureKeys c cache call.trx call.signatures call.chainId call.cfd call.allowDuplicateKeys
        true).1 =
      (getSignatureKeys c cache call.trx call.signatures call.chainId call.cfd call.allowDuplicateKeys
        false).1 := by
  have hsound : CacheSound c D cache :=
    ReachableWhen.inv (CacheSound c D) (fun _ he => absurd he List.not_mem_nil)
      (fun _ _ _ hs hc hstep => hs.step hc hstep) hrun
  exact getSignatureKeys_transparent (hsound.agrees hcall)

/-! ## The same transaction with other context-free data -/

/-- a toy sha256, the sum of the bytes plus their number, and a recovery that depends on the
digest -/
def sampleTrxCrypto : TrxCrypto where
  sha256 bs := (bs.map UInt8.toNat).sum + bs.length
  recover sig d := sig + d

/-- transaction `[7]` signed with `5` for chain `0`, with no context-free data -/
def sampleFirstCall : SignatureCall := ⟨[7], [5], 0, [], false, true⟩

/-- the cache after the first call holds key `77`, recovered over digest `72`; the same
transaction with context-free data `[[1]]` has digest `78`, over which the signature recovers
`83`, and the cache still answers `77` -/
theorem recovery_cache_keeps_stale_key :
    Reachable (cacheStep sampleTrxCrypto) [] (exec (cacheStep sampleTrxCrypto) [] [sampleFirstCall]) ∧
      (getSignatureKeys sampleTrxCrypto (exec (cacheStep sampleTrxCrypto) [] [sampleFirstCall])
        [7] [5] 0 [[1]] false true).1 = .ok [77] ∧
      (getSignatureKeys sampleTrxCrypto (exec (cacheStep sampleTrxCrypto) [] [sampleFirstCall])
        [7] [5] 0 [[1]] false false).1 = .ok [83] :=
  ⟨reachable_exec [sampleFirstCall], by decide, by decide⟩

end Eos
