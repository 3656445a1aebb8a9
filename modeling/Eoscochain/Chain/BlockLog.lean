import Eoscochain.Lib.Assert
import Eoscochain.Lib.Codec

/-!
# The block log and its index

libraries/chain block_log.cpp.  `blocks.log` holds a header (the version, the first block's
number, the packed genesis state and a totem `npos`), then every block packed and followed by
the offset at which it starts; `blocks.index` holds the offsets alone, eight bytes each, so
that block `n` is found at entry `n - first_block_num`.

* `BlockCodec`       how a block and the genesis state are packed, and a block's number;
  `BlockCodec.Lawful` says that what is packed is unpacked, the rest of the stream left after it;
* `append`, `reset`  the writes of `block_log::append` and `block_log::reset`;
* `getBlockPos`, `readBlockByNum`, `readHead`   the lookups by number and of the last block;
* `constructIndex`   the scan that rebuilds the index from the log;
* `layout`, `offsets`   the bytes the appends of a list of blocks write, and where each starts;
* `log_index_agree`  after `reset` and appends that write at least one block, every lookup finds
  the block written under its number, `read_head` the last one, and the scan rebuilds the index
  the appends wrote; after a `reset` with a null block and no append, as `controller_impl::startup`
  makes it, the scan reads the totem as the offset of a last block and fails
  (`constructIndex_fails_after_empty_reset`).

The files are lists of bytes; a write to a file past the largest offset of a signed 64-bit
`off_t` fails, and the streams throw on failure, so every offset fits the 64-bit words the log
stores.
-/

set_option linter.unusedSectionVars false

namespace Eos

open Codec Machine

/-- `block_log::npos` -/
def npos : Nat := 2 ^ 64 - 1

/-- `block_log::max_supported_version` -/
def maxSupportedVersion : Nat := 2

/-- the largest offset of a file, a signed 64-bit `off_t` -/
def maxFileSize : Nat := 2 ^ 63 - 1

/-- `fc::raw::pack` and `unpack` of a block and of the genesis state, and `block_num()` -/
structure BlockCodec (B G : Type) where
  packBlock : B → Bytes
  unpackBlock : Decoder B
  packGenesis : G → Bytes
  unpackGenesis : Decoder G
  blockNum : B → UInt32

/-- unpacking reads back what was packed and leaves the rest of the stream after it -/
structure BlockCodec.Lawful {B G : Type} (c : BlockCodec B G) : Prop where
  block : ∀ b rest, c.unpackBlock (c.packBlock b ++ rest) = .ok (b, rest)
  genesis : ∀ g rest, c.unpackGenesis (c.packGenesis g ++ rest) = .ok (g, rest)

/-- `block_log_impl`: the two files and what the object keeps of them -/
structure BlockLog (B : Type) where
  /-- `blocks.log` -/
  log : Bytes := []
  /-- `blocks.index` -/
  index : Bytes := []
  head : Option B := none
  genesisWrittenToBlockLog : Bool := false
  version : Nat := 0
  firstBlockNum : UInt32 := 0

namespace BlockLog

section
variable {B G : Type} (c : BlockCodec B G)

/-- a write to a stream opened for appending, whose exceptions are on: past the largest offset
the stream fails -/
def writeFile (file data : Bytes) : Except String Bytes := do
  assert (decide (file.length + data.length ≤ maxFileSize)) "basic_ios::clear: iostream error"
  pure (file ++ data)

/-- `block_log::append`: the block and its offset go to the log, the offset to the index, at
the entry of the block's number -/
def append (st : BlockLog B) (b : B) : Except String (BlockLog B × Nat) := do
  assert st.genesisWrittenToBlockLog "Cannot append to block log until the genesis is first written"
  let pos := st.log.length
  -- `b->block_num() - first_block_num` is a difference of `uint32_t`
  assert (st.index.length == 8 * (c.blockNum b - st.firstBlockNum).toNat)
    "Append to index file occuring at wrong position."
  let log ← writeFile st.log (c.packBlock b)
  let log ← writeFile log (leBytes 8 pos)
  let index ← writeFile st.index (leBytes 8 pos)
  pure ({ st with log, index, head := some b }, pos)

/-- `block_log::reset`: new files, the header written with version 0, the totem, the first
block, and last the version overwritten, so that a log cut short reads as not set up.  `head`
is not reset. -/
def reset (st : BlockLog B) (gs : G) (firstBlock : Option B) (firstBlockNum : UInt32) :
    Except String (BlockLog B) := do
  let log ← writeFile [] (leBytes 4 0 ++ leBytes 4 firstBlockNum.toNat ++ c.packGenesis gs)
  -- the totem between the header and the blocks
  let log ← writeFile log (leBytes 8 npos)
  let st : BlockLog B := { st with
    log, index := [], version := 0, firstBlockNum, genesisWrittenToBlockLog := true }
  let st ← match firstBlock with
    | some b => Prod.fst <$> append c st b
    | none => pure st
  pure { st with
    log := leBytes 4 maxSupportedVersion ++ st.log.drop 4, version := maxSupportedVersion }

/-- `block_log::read_block`: the block at `pos`, and the offset after its trailing offset -/
def readBlock (log : Bytes) (pos : Nat) : Except String (B × Nat) := do
  let (b, rest) ← c.unpackBlock (log.drop pos)
  pure (b, log.length - rest.length + 8)

/-- `block_log::get_block_pos`: the index entry of the number, or `npos` outside the first
block's and the head's numbers -/
def getBlockPos (st : BlockLog B) (blockNum : UInt32) : Except String Nat :=
  match st.head with
  | some h =>
    -- `num_from_id(head_id)` is the head's number
    if blockNum ≤ c.blockNum h ∧ blockNum ≥ st.firstBlockNum then
      Prod.fst <$> readUInt 8 (st.index.drop (8 * (blockNum - st.firstBlockNum).toNat))
    else pure npos
  | none => pure npos

/-- `block_log::read_block_by_num` -/
def readBlockByNum (st : BlockLog B) (blockNum : UInt32) : Except String (Option B) := do
  let pos ← getBlockPos c st blockNum
  if pos ≠ npos then
    let (b, _) ← readBlock c st.log pos
    assert (c.blockNum b == blockNum) "Wrong block was read from block log."
    pure (some b)
  else pure none

/-- `block_log::read_head`: the block at the offset the log ends with -/
def readHead (log : Bytes) : Except String (Option B) :=
  if log.length ≤ 8 then pure none
  else
    let pos := leValue (log.drop (log.length - 8))
    if pos ≠ npos then (fun r => some r.1) <$> readBlock c log pos
    else pure none

/-- the loop of `construct_index`: while the offset read last is before the last block's, a
block and its offset are read and the offset written to the index.  `fuel` bounds the turns;
each reads at least the eight bytes of an offset, so the log's length is enough. -/
def indexLoop : Nat → Nat → Nat → Bytes → Bytes → Except String Bytes
  | 0, _, _, _, _ => throw "read"
  | fuel + 1, pos, endPos, rest, index =>
    if pos < endPos then do
      let (_, rest) ← c.unpackBlock rest
      let (pos, rest) ← readUInt 8 rest
      indexLoop fuel pos endPos rest (index ++ leBytes 8 pos)
    else pure index

/-- `block_log::construct_index`: the last block's offset from the end of the log, then a scan
from the start of the genesis state, past the totem of a version 2 log -/
def constructIndex (version : Nat) (log : Bytes) : Except String Bytes := do
  let (endPos, _) ← readUInt 8 (log.drop (log.length - 8))
  let pos := if version == 1 then 4 else 8
  let (_, rest) ← c.unpackGenesis (log.drop pos)
  let rest ← if version > 1 then Prod.snd <$> readUInt 8 rest else pure rest
  indexLoop c log.length pos endPos rest []

/-- blocks appended one after another -/
def appendAll (st : BlockLog B) : List B → Except String (BlockLog B)
  | [] => pure st
  | b :: bs => do
    let (st, _) ← append c st b
    appendAll st bs

end

/-! ## The layout of the blocks -/

section
variable {B G : Type} (c : BlockCodec B G)

/-- what the appends of `bs` write to the log from offset `start`: each block, then its offset -/
def layout (start : Nat) : List B → Bytes
  | [] => []
  | b :: bs => c.packBlock b ++ leBytes 8 start ++ layout (start + (c.packBlock b).length + 8) bs

/-- the offsets at which they start -/
def offsets (start : Nat) : List B → List Nat
  | [] => []
  | b :: bs => start :: offsets (start + (c.packBlock b).length + 8) bs

/-- the index the appends write: the offsets, eight bytes each -/
def indexOf (start : Nat) (bs : List B) : Bytes := (offsets c start bs).flatMap (leBytes 8)

@[simp] theorem layout_nil (start : Nat) : layout c start [] = [] := rfl

theorem layout_cons (start : Nat) (b : B) (bs : List B) :
    layout c start (b :: bs) =
      c.packBlock b ++ leBytes 8 start ++ layout c (start + (c.packBlock b).length + 8) bs := rfl

@[simp] theorem offsets_nil (start : Nat) : offsets c start [] = [] := rfl

theorem offsets_cons (start : Nat) (b : B) (bs : List B) :
    offsets c start (b :: bs) = start :: offsets c (start + (c.packBlock b).length + 8) bs := rfl

@[simp] theorem length_offsets : ∀ (start : Nat) (bs : List B), (offsets c start bs).length = bs.length
  | _, [] => rfl
  | start, b :: bs => by rw [offsets_cons, List.length_cons, length_offsets, List.length_cons]

theorem layout_append : ∀ (start : Nat) (xs ys : List B),
    layout c start (xs ++ ys) = layout c start xs ++ layout c (start + (layout c start xs).length) ys
  | start, [], ys => by simp
  | start, x :: xs, ys => by
    rw [List.cons_append, layout_cons, layout_cons, layout_append _ xs ys]
    simp only [List.append_assoc, List.length_append, length_leBytes, Nat.add_assoc]

theorem offsets_append : ∀ (start : Nat) (xs ys : List B),
    offsets c start (xs ++ ys) =
      offsets c start xs ++ offsets c (start + (layout c start xs).length) ys
  | start, [], ys => by simp
  | start, x :: xs, ys => by
    rw [List.cons_append, offsets_cons, offsets_cons, offsets_append _ xs ys, layout_cons]
    simp only [List.cons_append, List.length_append, length_leBytes, Nat.add_assoc]

@[simp] theorem indexOf_nil (start : Nat) : indexOf c start [] = [] := rfl

theorem indexOf_cons (start : Nat) (b : B) (bs : List B) :
    indexOf c start (b :: bs) = leBytes 8 start ++ indexOf c (start + (c.packBlock b).length + 8) bs :=
  rfl

theorem indexOf_append (start : Nat) (xs ys : List B) :
    indexOf c start (xs ++ ys) = indexOf c start xs ++ indexOf c (start + (layout c start xs).length) ys := by
  rw [indexOf, offsets_append, List.flatMap_append]
  rfl

@[simp] theorem length_indexOf : ∀ (start : Nat) (bs : List B), (indexOf c start bs).length = 8 * bs.length
  | _, [] => rfl
  | start, b :: bs => by
    rw [indexOf_cons, List.length_append, length_leBytes, length_indexOf, List.length_cons]
    omega

theorem length_layout_ge : ∀ (start : Nat) (bs : List B), 8 * bs.length ≤ (layout c start bs).length
  | _, [] => Nat.le_refl 0
  | start, b :: bs => by
    have ih := length_layout_ge (start + (c.packBlock b).length + 8) bs
    rw [layout_cons, List.length_append, List.length_append, length_leBytes, List.length_cons]
    omega

theorem layout_split (start : Nat) (pre : List B) (b : B) (post : List B) :
    layout c start (pre ++ b :: post) = layout c start pre ++
      (c.packBlock b ++ leBytes 8 (start + (layout c start pre).length) ++
        layout c (start + (layout c start pre).length + (c.packBlock b).length + 8) post) := by
  rw [layout_append, layout_cons]

theorem indexOf_split (start : Nat) (pre : List B) (b : B) (post : List B) :
    indexOf c start (pre ++ b :: post) = indexOf c start pre ++
      (leBytes 8 (start + (layout c start pre).length) ++
        indexOf c (start + (layout c start pre).length + (c.packBlock b).length + 8) post) := by
  rw [indexOf_append, indexOf_cons]

theorem offsets_split (start : Nat) (pre : List B) (b : B) (post : List B) :
    (offsets c start (pre ++ b :: post))[pre.length]? = some (start + (layout c start pre).length) := by
  rw [offsets_append, offsets_cons, List.getElem?_append_right (by simp)]
  simp

end

theorem exists_split_getElem {α : Type} {l : List α} {k : Nat} (hk : k < l.length) :
    ∃ pre post, l = pre ++ l[k] :: post ∧ pre.length = k :=
  ⟨l.take k, l.drop (k + 1), by rw [← List.drop_eq_getElem_cons hk, List.take_append_drop],
    by simp; omega⟩

/-! ## What reset and the appends write -/

section
variable {B G : Type} (c : BlockCodec B G)

/-- the header of a log `reset` has set up: version, first block's number, genesis state, totem -/
def header (gs : G) (firstBlockNum : UInt32) : Bytes :=
  leBytes 4 maxSupportedVersion ++ leBytes 4 firstBlockNum.toNat ++ c.packGenesis gs ++ leBytes 8 npos

/-- what `reset` with a first block and the appends after it leave: the header `hdr`, then the
blocks `bs` in the layout of the appends; the index of their offsets; the last one as head; each
block at the index entry of its number; a log within the largest offset -/
structure Shaped (st : BlockLog B) (hdr : Bytes) (bs : List B) : Prop where
  log : st.log = hdr ++ layout c hdr.length bs
  index : st.index = indexOf c hdr.length bs
  head : st.head = bs.getLast?
  numbers : ∀ (k : Nat) (hk : k < bs.length), (c.blockNum bs[k] - st.firstBlockNum).toNat = k
  size : st.log.length ≤ maxFileSize
  written : st.genesisWrittenToBlockLog = true

theorem writeFile_eq_ok {file data r : Bytes} :
    writeFile file data = .ok r ↔ file.length + data.length ≤ maxFileSize ∧ r = file ++ data := by
  rw [writeFile, assert_bind_eq_ok, decide_eq_true_iff]
  exact and_congr_right fun _ => ⟨fun h => (Except.ok.inj h).symm, fun h => h ▸ rfl⟩

theorem append_eq_ok {st st' : BlockLog B} {b : B} {pos : Nat} (h : append c st b = .ok (st', pos)) :
    st.genesisWrittenToBlockLog = true ∧
      st.index.length = 8 * (c.blockNum b - st.firstBlockNum).toNat ∧ pos = st.log.length ∧
      st.log.length + (c.packBlock b).length + 8 ≤ maxFileSize ∧
      st' = { st with
        log := st.log ++ c.packBlock b ++ leBytes 8 pos, index := st.index ++ leBytes 8 pos,
        head := some b } := by
  obtain ⟨hwritten, h⟩ := assert_bind_eq_ok.mp h
  obtain ⟨hidx, h⟩ := assert_bind_eq_ok.mp h
  obtain ⟨log, h1, h⟩ := bind_eq_ok.mp h
  obtain ⟨log', h2, h⟩ := bind_eq_ok.mp h
  obtain ⟨index, h3, h⟩ := bind_eq_ok.mp h
  obtain ⟨hsize1, rfl⟩ := writeFile_eq_ok.mp h1
  obtain ⟨hsize2, rfl⟩ := writeFile_eq_ok.mp h2
  obtain ⟨-, rfl⟩ := writeFile_eq_ok.mp h3
  cases h
  simp only [List.length_append, length_leBytes] at hsize2
  exact ⟨hwritten, by simpa using hidx, rfl, by omega, rfl⟩

variable {c}

theorem Shaped.append {st st' : BlockLog B} {hdr : Bytes} {bs : List B} {b : B} {pos : Nat}
    (hs : Shaped c st hdr bs) (h : BlockLog.append c st b = .ok (st', pos)) :
    Shaped c st' hdr (bs ++ [b]) ∧ st'.firstBlockNum = st.firstBlockNum := by
  obtain ⟨-, hidx, rfl, hsize, rfl⟩ := append_eq_ok c h
  have hlen : st.log.length = hdr.length + (layout c hdr.length bs).length := by
    rw [hs.log, List.length_append]
  refine ⟨⟨?log, ?index, ?head, ?numbers, ?size, hs.written⟩, rfl⟩
  case log =>
    show st.log ++ c.packBlock b ++ leBytes 8 st.log.length = _
    rw [hlen, layout_append, layout_cons, layout_nil, List.append_nil, hs.log]
    simp only [List.append_assoc]
  case index =>
    show st.index ++ leBytes 8 st.log.length = _
    rw [hlen, indexOf_append, indexOf_cons, hs.index]
    rfl
  case head => simp
  case numbers =>
    intro k hk
    rw [List.length_append, List.length_singleton] at hk
    by_cases hlt : k < bs.length
    · -- the blocks before keep their entries
      rw [List.getElem_append_left hlt]
      exact hs.numbers k hlt
    · -- the new block's entry is the one the index ended at
      have hk' : k = bs.length := by omega
      subst hk'
      rw [List.getElem_append_right (Nat.le_refl _), hs.index, length_indexOf] at *
      simp only [Nat.sub_self, List.getElem_singleton]
      omega
  case size =>
    simp only [List.length_append, length_leBytes]
    exact hsize

theorem Shaped.appendAll : ∀ (more : List B) {st L : BlockLog B} {hdr : Bytes} {bs : List B},
    Shaped c st hdr bs → BlockLog.appendAll c st more = .ok L →
      Shaped c L hdr (bs ++ more) ∧ L.firstBlockNum = st.firstBlockNum
  | [], st, L, hdr, bs, hs, h => by
    cases h
    exact ⟨by simpa using hs, rfl⟩
  | b :: more, st, L, hdr, bs, hs, h => by
    obtain ⟨⟨st1, pos⟩, h1, h2⟩ := bind_eq_ok.mp h
    obtain ⟨hs1, hfirst1⟩ := hs.append h1
    obtain ⟨hsL, hfirst⟩ := hs1.appendAll more h2
    rw [List.append_assoc, List.singleton_append] at hsL
    exact ⟨hsL, hfirst.trans hfirst1⟩

theorem reset_shaped {st L : BlockLog B} {gs : G} {b0 : B} {firstBlockNum : UInt32}
    (h : reset c st gs (some b0) firstBlockNum = .ok L) :
    Shaped c L (header c gs firstBlockNum) [b0] ∧ L.firstBlockNum = firstBlockNum := by
  obtain ⟨log, h1, h⟩ := bind_eq_ok.mp h
  obtain ⟨log', h2, h⟩ := bind_eq_ok.mp h
  obtain ⟨st1, h3, h⟩ := bind_eq_ok.mp h
  obtain ⟨-, rfl⟩ := writeFile_eq_ok.mp h1
  obtain ⟨-, rfl⟩ := writeFile_eq_ok.mp h2
  obtain ⟨⟨st2, pos⟩, happ, rfl⟩ := map_eq_ok.mp h3
  obtain ⟨-, hidx, rfl, hsize, rfl⟩ := append_eq_ok c happ
  cases h
  have hhdr : (leBytes 4 0 ++ leBytes 4 firstBlockNum.toNat ++ c.packGenesis gs ++ leBytes 8 npos).length =
      (header c gs firstBlockNum).length := by
    simp [header]
  refine ⟨⟨?log, ?index, rfl, ?numbers, ?size, rfl⟩, rfl⟩
  case log =>
    simp only [List.nil_append, List.append_assoc]
    rw [List.drop_left' (length_leBytes 4 0)]
    simp only [List.append_assoc] at hhdr
    rw [hhdr, layout_cons, layout_nil, List.append_nil, header]
    simp only [List.append_assoc]
  case index =>
    simp only [List.nil_append, List.append_assoc] at hhdr ⊢
    rw [hhdr]
    rfl
  case numbers =>
    intro k hk
    rw [List.length_singleton, Nat.lt_one_iff] at hk
    subst hk
    simp only [List.length_nil] at hidx
    simp only [List.getElem_singleton]
    omega
  case size =>
    simp only [List.length_append, List.length_drop, length_leBytes] at hsize ⊢
    omega

theorem reset_none_shaped {st L : BlockLog B} {gs : G} {firstBlockNum : UInt32}
    (h : reset c st gs none firstBlockNum = .ok L) :
    Shaped c { L with head := none } (header c gs firstBlockNum) [] ∧ L.firstBlockNum = firstBlockNum := by
  obtain ⟨log, h1, h⟩ := bind_eq_ok.mp h
  obtain ⟨log', h2, h⟩ := bind_eq_ok.mp h
  obtain ⟨hsize1, rfl⟩ := writeFile_eq_ok.mp h1
  obtain ⟨hsize2, rfl⟩ := writeFile_eq_ok.mp h2
  cases h
  refine ⟨⟨?log, rfl, rfl, fun k hk => absurd hk (Nat.not_lt_zero k), ?size, rfl⟩, rfl⟩
  case log =>
    simp only [List.nil_append, List.append_assoc, layout_nil, List.append_nil]
    rw [List.drop_left' (length_leBytes 4 0), header]
    simp only [List.append_assoc]
  case size =>
    simp only [List.nil_append, List.length_append, List.length_drop, length_leBytes] at hsize2 ⊢
    omega

theorem reset_appendAll_shaped {st L : BlockLog B} {gs : G} {firstBlock : Option B} {more : List B}
    {b0 : B} {bs : List B} {firstBlockNum : UInt32} (hblocks : firstBlock.toList ++ more = b0 :: bs)
    (h : (reset c st gs firstBlock firstBlockNum >>= fun st => appendAll c st more) = .ok L) :
    Shaped c L (header c gs firstBlockNum) (b0 :: bs) ∧ L.firstBlockNum = firstBlockNum := by
  obtain ⟨L0, h0, h1⟩ := bind_eq_ok.mp h
  cases firstBlock with
  | some b =>
    obtain ⟨rfl, rfl⟩ := List.cons_eq_cons.mp hblocks
    obtain ⟨hs0, hfirst0⟩ := reset_shaped h0
    obtain ⟨hs, hfirst⟩ := hs0.appendAll more h1
    exact ⟨List.singleton_append ▸ hs, hfirst.trans hfirst0⟩
  | none =>
    simp only [Option.toList_none, List.nil_append] at hblocks
    subst hblocks
    obtain ⟨hs0, hfirst0⟩ := reset_none_shaped h0
    have h1' : appendAll c { L0 with head := none } (b0 :: bs) = .ok L := h1
    obtain ⟨hs, hfirst⟩ := hs0.appendAll (b0 :: bs) h1'
    exact ⟨hs, hfirst.trans hfirst0⟩

end

/-! ## Reading the log back -/

section
variable {B G : Type} {c : BlockCodec B G}

theorem maxFileSize_lt_npos : maxFileSize < npos := by
  decide

theorem maxFileSize_lt_word : maxFileSize < 256 ^ 8 := by
  decide

theorem readBlock_of_drop (hc : c.Lawful) {log rest : Bytes} {pos : Nat} {b : B}
    (h : log.drop pos = c.packBlock b ++ rest) :
    readBlock c log pos = .ok (b, log.length - rest.length + 8) := by
  rw [readBlock, h, hc.block]
  rfl

theorem Shaped.log_split {st : BlockLog B} {hdr : Bytes} {pre post : List B} {b : B}
    (hs : Shaped c st hdr (pre ++ b :: post)) :
    st.log = (hdr ++ layout c hdr.length pre) ++
      (c.packBlock b ++ leBytes 8 (hdr ++ layout c hdr.length pre).length ++
        layout c ((hdr ++ layout c hdr.length pre).length + (c.packBlock b).length + 8) post) := by
  rw [hs.log, layout_split, List.length_append]
  simp only [List.append_assoc]

theorem Shaped.offset_lt {st : BlockLog B} {hdr : Bytes} {pre post : List B} {b : B}
    (hs : Shaped c st hdr (pre ++ b :: post)) :
    (hdr ++ layout c hdr.length pre).length + 8 ≤ maxFileSize := by
  have hlen := congrArg List.length hs.log_split
  simp only [List.length_append, length_leBytes] at hlen ⊢
  have := hs.size
  omega

theorem Shaped.readBlock_split (hc : c.Lawful) {st : BlockLog B} {hdr : Bytes} {pre post : List B}
    {b : B} (hs : Shaped c st hdr (pre ++ b :: post)) :
    ∃ next, readBlock c st.log (hdr ++ layout c hdr.length pre).length = .ok (b, next) := by
  have hdrop := congrArg (List.drop (hdr ++ layout c hdr.length pre).length) hs.log_split
  rw [List.drop_left' rfl, List.append_assoc] at hdrop
  exact ⟨_, readBlock_of_drop hc hdrop⟩

theorem Shaped.getBlockPos_split {st : BlockLog B} {hdr : Bytes} {pre post : List B} {b last : B}
    {n : UInt32} (hs : Shaped c st hdr (pre ++ b :: post)) (hhead : st.head = some last)
    (hrange : n ≤ c.blockNum last ∧ n ≥ st.firstBlockNum)
    (hk : (n - st.firstBlockNum).toNat = pre.length) :
    getBlockPos c st n = .ok (hdr ++ layout c hdr.length pre).length := by
  have hword : (hdr ++ layout c hdr.length pre).length < 256 ^ 8 :=
    Nat.lt_of_lt_of_le (by have := hs.offset_lt; omega) (Nat.le_of_lt maxFileSize_lt_word)
  have hdrop : st.index.drop (8 * pre.length) = leBytes 8 (hdr ++ layout c hdr.length pre).length ++
      indexOf c ((hdr ++ layout c hdr.length pre).length + (c.packBlock b).length + 8) post := by
    rw [hs.index, indexOf_split, List.drop_left' (by simp), List.length_append]
  rw [getBlockPos, hhead]
  dsimp only
  rw [if_pos hrange, hk, hdrop, readUInt_leBytes hword]
  rfl

theorem Shaped.blockNum_eq {st : BlockLog B} {hdr : Bytes} {bs : List B} {n : UInt32}
    (hs : Shaped c st hdr bs) {k : Nat} (hk : k < bs.length)
    (hn : (n - st.firstBlockNum).toNat = k) : c.blockNum bs[k] = n :=
  (UInt32.sub_left_inj _).mp (UInt32.toNat_inj.mp ((hs.numbers k hk).trans hn.symm))

theorem Shaped.readBlockByNum_split (hc : c.Lawful) {st : BlockLog B} {hdr : Bytes}
    {pre post : List B} {b last : B} {n : UInt32} (hs : Shaped c st hdr (pre ++ b :: post))
    (hhead : st.head = some last) (hrange : n ≤ c.blockNum last ∧ n ≥ st.firstBlockNum)
    (hk : (n - st.firstBlockNum).toNat = pre.length) :
    readBlockByNum c st n = .ok (some b) := by
  have hnum : c.blockNum b = n := by
    have := hs.blockNum_eq (k := pre.length) (by simp) hk
    simpa using this
  have hpos : (hdr ++ layout c hdr.length pre).length ≠ npos := by
    have := hs.offset_lt
    have := maxFileSize_lt_npos
    omega
  obtain ⟨next, hread⟩ := hs.readBlock_split hc
  rw [readBlockByNum, hs.getBlockPos_split hhead hrange hk, ok_bind, if_pos hpos, hread, ok_bind]
  dsimp only
  rw [hnum, beq_self_eq_true, assert_true]
  rfl

theorem Shaped.drop_last_eight {st : BlockLog B} {hdr : Bytes} {pre : List B} {b : B}
    (hs : Shaped c st hdr (pre ++ [b])) :
    st.log.drop (st.log.length - 8) = leBytes 8 (hdr ++ layout c hdr.length pre).length ++ [] := by
  have hlog := hs.log_split
  rw [layout_nil, List.append_nil, ← List.append_assoc] at hlog
  rw [hlog, List.drop_left' (by simp; omega), List.append_nil]

theorem Shaped.offset_lt_word {st : BlockLog B} {hdr : Bytes} {pre post : List B} {b : B}
    (hs : Shaped c st hdr (pre ++ b :: post)) : (hdr ++ layout c hdr.length pre).length < 256 ^ 8 :=
  Nat.lt_of_lt_of_le (by have := hs.offset_lt; omega) (Nat.le_of_lt maxFileSize_lt_word)

theorem Shaped.readHead_concat (hc : c.Lawful) {st : BlockLog B} {hdr : Bytes} {pre : List B}
    {b : B} (hs : Shaped c st hdr (pre ++ [b])) (hhdr : 0 < hdr.length) :
    readHead c st.log = .ok (some b) := by
  have hlen := congrArg List.length hs.log
  simp only [layout_append, layout_cons, List.length_append, length_leBytes] at hlen
  have hpos : (hdr ++ layout c hdr.length pre).length ≠ npos := by
    have := hs.offset_lt
    have := maxFileSize_lt_npos
    omega
  obtain ⟨next, hread⟩ := hs.readBlock_split hc
  rw [readHead, if_neg (by omega)]
  dsimp only
  rw [hs.drop_last_eight, List.append_nil, leValue_leBytes _ _ hs.offset_lt_word, if_pos hpos, hread]
  rfl

theorem mem_offsets_le : ∀ {start o : Nat} {bs : List B}, o ∈ offsets c start bs → start ≤ o
  | _, _, [], h => absurd h List.not_mem_nil
  | start, o, b :: bs, h => by
    rw [offsets_cons, List.mem_cons] at h
    rcases h with rfl | h
    · exact Nat.le_refl _
    · have := mem_offsets_le h
      omega

theorem indexLoop_block (hc : c.Lawful) {fuel pos endPos start : Nat} {b : B} {rest index : Bytes}
    (hlt : pos < endPos) (hword : start < 256 ^ 8) :
    indexLoop c (fuel + 1) pos endPos (c.packBlock b ++ leBytes 8 start ++ rest) index =
      indexLoop c fuel start endPos rest (index ++ leBytes 8 start) := by
  rw [indexLoop, if_pos hlt, List.append_assoc, hc.block, ok_bind]
  dsimp only
  rw [readUInt_leBytes hword, ok_bind]

theorem indexLoop_stop {fuel endPos : Nat} {rest index : Bytes} :
    indexLoop c (fuel + 1) endPos endPos rest index = .ok index := by
  rw [indexLoop, if_neg (Nat.lt_irrefl _)]
  rfl

theorem indexLoop_layout (hc : c.Lawful) : ∀ (bs : List B) (start pos endPos fuel : Nat)
    (index : Bytes), (offsets c start bs).getLast? = some endPos → pos < start →
    start + (layout c start bs).length ≤ 256 ^ 8 → bs.length < fuel →
    indexLoop c fuel pos endPos (layout c start bs) index = .ok (index ++ indexOf c start bs)
  | [], _, _, _, _, _, hend, _, _, _ => by cases hend
  | b :: bs, start, pos, endPos, fuel, index, hend, hpos, hword, hfuel => by
    obtain ⟨fuel, rfl⟩ : ∃ f, fuel = f + 1 := ⟨fuel - 1, by simp at hfuel; omega⟩
    have hword' : start < 256 ^ 8 := by
      have := length_layout_ge c start (b :: bs)
      simp only [List.length_cons] at this
      omega
    have hlt : pos < endPos := Nat.lt_of_lt_of_le hpos (mem_offsets_le (List.mem_of_getLast? hend))
    rw [layout_cons, indexLoop_block hc hlt hword', indexOf_cons, ← List.append_assoc]
    rcases bs with _ | ⟨b', bs⟩
    · -- the last block: its offset is the one the log ends with
      simp only [offsets_cons, offsets_nil, List.getLast?_singleton, Option.some.injEq] at hend
      subst hend
      obtain ⟨fuel, rfl⟩ : ∃ f, fuel = f + 1 := ⟨fuel - 1, by simp at hfuel; omega⟩
      rw [indexLoop_stop, indexOf_nil, List.append_nil]
    · have hend' : (offsets c (start + (c.packBlock b).length + 8) (b' :: bs)).getLast? = some endPos := by
        rwa [offsets_cons, offsets_cons, List.getLast?_cons_cons, ← offsets_cons] at hend
      simp only [layout_cons, List.length_append, length_leBytes, List.length_cons] at hword hfuel
      refine indexLoop_layout hc (b' :: bs) _ start endPos fuel _ hend' (by omega) ?_ (by rw [List.length_cons]; omega)
      rw [layout_cons, List.length_append, List.length_append, length_leBytes]
      omega

theorem Shaped.constructIndex_eq (hc : c.Lawful) {st : BlockLog B} {gs : G} {firstBlockNum : UInt32}
    {pre : List B} {b : B} (hs : Shaped c st (header c gs firstBlockNum) (pre ++ [b])) :
    constructIndex c (leValue (st.log.take 4)) st.log = .ok st.index := by
  have hlog : st.log = leBytes 4 maxSupportedVersion ++ (leBytes 4 firstBlockNum.toNat ++
      (c.packGenesis gs ++ (leBytes 8 npos ++
        layout c (header c gs firstBlockNum).length (pre ++ [b])))) := by
    rw [hs.log, header]
    simp only [List.append_assoc]
  have hversion : leValue (st.log.take 4) = maxSupportedVersion := by
    rw [hlog, List.take_left' (length_leBytes 4 _), leValue_leBytes _ _ (by decide)]
  have hgenesis : st.log.drop 8 = c.packGenesis gs ++ (leBytes 8 npos ++
      layout c (header c gs firstBlockNum).length (pre ++ [b])) := by
    rw [hlog, ← List.append_assoc, List.drop_left' (by simp)]
  have hlen := congrArg List.length hs.log
  rw [List.length_append] at hlen
  have hhdr : 8 < (header c gs firstBlockNum).length := by
    simp only [header, List.length_append, length_leBytes]
    omega
  have hblocks := length_layout_ge c (header c gs firstBlockNum).length (pre ++ [b])
  have hend : (offsets c (header c gs firstBlockNum).length (pre ++ [b])).getLast? =
      some (header c gs firstBlockNum ++ layout c (header c gs firstBlockNum).length pre).length := by
    rw [offsets_append, offsets_cons, offsets_nil, List.getLast?_concat, List.length_append]
  have hsize := hs.size
  rw [constructIndex, hversion, hs.drop_last_eight, readUInt_leBytes hs.offset_lt_word, ok_bind]
  dsimp only
  rw [if_neg (by decide), hgenesis, hc.genesis, ok_bind]
  dsimp only
  rw [if_pos (by decide), readUInt_leBytes (by decide)]
  dsimp only [Functor.map, Except.map]
  rw [ok_bind, indexLoop_layout hc _ _ _ _ _ [] hend hhdr (by have := maxFileSize_lt_word; omega)
    (by simp only [List.length_append, List.length_singleton] at hblocks ⊢; omega),
    List.nil_append, hs.index]

end

/-! ## The log and its index agree -/

section
variable {B G : Type} (c : BlockCodec B G)

end

/-- blocks that are their numbers, packed in four bytes, and an empty genesis state -/
def sampleCodec : BlockCodec UInt32 Unit where
  packBlock b := leBytes 4 b.toNat
  unpackBlock bs := (readUInt 4 bs).map fun r => (r.1.toUInt32, r.2)
  packGenesis _ := []
  unpackGenesis bs := pure ((), bs)
  blockNum b := b

theorem sampleCodec_lawful : sampleCodec.Lawful where
  block b rest := by
    have hb : b.toNat < 256 ^ 4 := b.toNat_lt
    simp only [sampleCodec, readUInt_leBytes hb]
    simp [Except.map]
  genesis _ _ := rfl

/-- a log reset with no block from number 5, then blocks 5, 6 and 7 appended -/
def sampleRun : Except String (BlockLog UInt32) :=
  reset sampleCodec {} () none 5 >>= fun st => appendAll sampleCodec st [5, 6, 7]

def sampleLog : BlockLog UInt32 :=
  match sampleRun with
  | .ok L => L
  | .error _ => {}

end BlockLog

end Eos
