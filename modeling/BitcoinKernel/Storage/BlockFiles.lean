import BitcoinKernel.Storage.Streams
import BitcoinKernel.Storage.UndoFormat
import BitcoinKernel.State.BlockIndex
import BitcoinKernel.Validation.CheckBlock

/-!
# The block files

`BlockManager` (`node/blockstorage.cpp`) keeps the blocks in the files `blk?????.dat` and
their undo data in the files `rev?????.dat`.  A record is a header, of the network's magic
and a size, and the data.  `m_blockfile_info` has for every file how many of its bytes are
used, and a `CBlockIndex` has the positions of its two records.  Files are allocated in
chunks ahead of their use, cut to the used size when they are left, and removed when they
are pruned.  All bytes are obfuscated.

* Where records go: `findNextBlockPos`, `findUndoPos`, and `FlatFileSeq` below them.
* Records: `writeBlock`, `writeBlockUndo`, `readRawBlock`, `readBlock`.
* The block tree database: `writeBlockIndexDB`, `loadBlockIndexDB`.
* Pruning: `pruneOneBlockFile`, `unlinkPrunedFiles`.
* `StorageOp` is one call from validation, and `Node.step` what it does.

`none` is a failed assertion, an exception that nothing catches, or an access behind the end
of a vector.  The operating system may fail in the ways that `WriteEnv` lists, and a write
that fails may have reached the file in part.  A crash loses what is in memory.  It does not
lose what was written to a file or to the database.
-/

namespace BitcoinKernel.Storage

open KeyStream FlatFile State Serialize Validation Outcome

/-! ## Options -/

/-- What the block storage reads of the options and the parameters of the chain. -/
structure StorageOptions where
  obfuscation : Obfuscation
  messageStart : List UInt8
  length_messageStart : messageStart.length = 4
  fastPrune : Bool
  /-- The address of the buffers of the streams. -/
  address : Nat

/-- `BLOCKFILE_CHUNK_SIZE`. -/
def blockfileChunkSize : Nat := 16 * 2 ^ 20

/-- `UNDOFILE_CHUNK_SIZE`. -/
def undofileChunkSize : Nat := 2 ^ 20

/-- `MAX_BLOCKFILE_SIZE`. -/
def maxBlockfileSize : Nat := 128 * 2 ^ 20

/-- `STORAGE_HEADER_BYTES`. -/
def storageHeaderBytes : Nat := 8

/-- `UNDO_DATA_DISK_OVERHEAD`. -/
def undoDataDiskOverhead : Nat := storageHeaderBytes + 32

/-- The size of the buffer of a `BufferedWriter`. -/
def writerBufferSize : Nat := 2 ^ 16

/-- The chunk size of `m_block_file_seq`. -/
def StorageOptions.blockChunk (o : StorageOptions) : Nat :=
  if o.fastPrune then 0x4000 else blockfileChunkSize

/-! ## Positions and file information -/

/-- `FlatFilePos`, when it is not null. -/
structure FilePos where
  nFile : Nat
  nPos : Nat
deriving DecidableEq, Repr

/-- The positions in a `CBlockIndex`, with `BLOCK_HAVE_DATA` and `BLOCK_HAVE_UNDO` of its
status. -/
structure DiskPosition where
  nFile : Nat := 0
  nDataPos : Nat := 0
  nUndoPos : Nat := 0
  haveData : Bool := false
  haveUndo : Bool := false
deriving DecidableEq, Repr

namespace DiskPosition

/-- `GetBlockPos`. -/
def getBlockPos (p : DiskPosition) : Option FilePos :=
  if p.haveData then some ⟨p.nFile, p.nDataPos⟩ else none

/-- `GetUndoPos`. -/
def getUndoPos (p : DiskPosition) : Option FilePos :=
  if p.haveUndo then some ⟨p.nFile, p.nUndoPos⟩ else none

/-- The fields that `CDiskBlockIndex` writes.  The others are zero when it is read. -/
def stored (p : DiskPosition) : DiskPosition where
  nFile := if p.haveData || p.haveUndo then p.nFile else 0
  nDataPos := if p.haveData then p.nDataPos else 0
  nUndoPos := if p.haveUndo then p.nUndoPos else 0
  haveData := p.haveData
  haveUndo := p.haveUndo

end DiskPosition

/-- `CBlockFileInfo`. -/
structure FileInfo where
  nBlocks : Nat := 0
  nSize : Nat := 0
  nUndoSize : Nat := 0
  nHeightFirst : Nat := 0
  nHeightLast : Nat := 0
  nTimeFirst : Nat := 0
  nTimeLast : Nat := 0
deriving DecidableEq, Repr

namespace FileInfo

/-- `AddBlock`. -/
def addBlock (info : FileInfo) (nHeightIn nTimeIn : Nat) : FileInfo :=
  { info with
    nHeightFirst :=
      if info.nBlocks = 0 ∨ info.nHeightFirst > nHeightIn then nHeightIn else info.nHeightFirst
    nTimeFirst :=
      if info.nBlocks = 0 ∨ info.nTimeFirst > nTimeIn then nTimeIn else info.nTimeFirst
    nBlocks := (info.nBlocks + 1) % 2 ^ 32
    nHeightLast := if nHeightIn > info.nHeightLast then nHeightIn else info.nHeightLast
    nTimeLast := if nTimeIn > info.nTimeLast then nTimeIn else info.nTimeLast }

/-- `nSize += nAddSize`. -/
def addSize (info : FileInfo) (nAddSize : Nat) : FileInfo :=
  { info with nSize := (info.nSize + nAddSize) % 2 ^ 32 }

/-- `nUndoSize += nAddSize`. -/
def addUndoSize (info : FileInfo) (nAddSize : Nat) : FileInfo :=
  { info with nUndoSize := (info.nUndoSize + nAddSize) % 2 ^ 32 }

/-- `nSize = std::max(end, nSize)`. -/
def reach (info : FileInfo) (last : Nat) : FileInfo :=
  { info with nSize := max last info.nSize }

end FileInfo

/-- `BlockfileType`. -/
inductive BlockfileType where
  | normal
  | assumed
deriving DecidableEq, Repr

/-- `BlockfileCursor`. -/
structure Cursor where
  fileNum : Nat := 0
  undoHeight : Nat := 0
deriving DecidableEq, Repr

/-! ## The operating system -/

/-- What `AllocateFileRange` does on a platform. -/
inductive Allocation where
  /-- The end of the file is set (Windows, macOS). -/
  | setEnd
  /-- `posix_fallocate`. -/
  | fallocate
  /-- Zeros are written.  This may fail after a number of bytes. -/
  | zeros (written : Nat)
deriving DecidableEq, Repr

/-- What happens to the calls that a write makes. -/
structure WriteEnv where
  /-- `CheckDiskSpace`. -/
  diskSpace : Bool := true
  /-- The file opens for `Allocate`, on this platform. -/
  allocation : Option Allocation := some .fallocate
  /-- `FlatFileSeq::Flush` of the block file opens and cuts it. -/
  flushesBlock : Bool := true
  /-- The same for the undo file. -/
  flushesUndo : Bool := true
  /-- The file opens for the record. -/
  opens : Bool := true
  /-- The write or the `fclose` fails, and this many bytes are in the file. -/
  fails : Option Nat := none
deriving DecidableEq, Repr

/-- `AllocateFileRange`. -/
def allocateFileRange (how : Allocation) (file : List UInt8) (offset length : Nat) : List UInt8 :=
  match how with
  | .setEnd => truncate file (offset + length)
  | .fallocate => allocate file (offset + length)
  | .zeros written => writeAt file offset (List.replicate (min written length) 0)

/-- `CeilDiv`. -/
def ceilDiv (dividend divisor : Nat) : Nat :=
  dividend / divisor + if dividend % divisor ≠ 0 then 1 else 0

/-- `FlatFileSeq::Allocate`, with `out_of_space`. -/
def flatFileAllocate (env : WriteEnv) (chunkSize : Nat) (file : List UInt8)
    (nPos addSize : Nat) : List UInt8 × Bool :=
  let nOldChunks := ceilDiv nPos chunkSize
  let nNewChunks := ceilDiv (nPos + addSize) chunkSize
  if nNewChunks > nOldChunks then
    if env.diskSpace then
      match env.allocation with
      | some how => (allocateFileRange how file nPos (nNewChunks * chunkSize - nPos), false)
      | none => (file, false)
    else (file, true)
  else (file, false)

/-- `FlatFileSeq::Flush`. -/
def flatFileFlush (success : Bool) (file : List UInt8) (nPos : Nat) (finalize : Bool) :
    List UInt8 :=
  if success && finalize then truncate file nPos else file

/-! ## `BlockManager` -/

/-- The members of `BlockManager` that the block files need, with the files. -/
structure BlockStore where
  infos : List FileInfo := []
  normalCursor : Option Cursor := some {}
  assumedCursor : Option Cursor := none
  snapshotHeight : Option Nat := none
  position : EntryPtr → DiskPosition := fun _ => {}
  dirtyFileinfo : Nat → Bool := fun _ => false
  dirtyBlockindex : EntryPtr → Bool := fun _ => false
  havePruned : Bool := false
  blk : Nat → List UInt8 := fun _ => []
  rev : Nat → List UInt8 := fun _ => []

namespace BlockStore

/-- `m_blockfile_cursors[type]`. -/
def cursor (s : BlockStore) : BlockfileType → Option Cursor
  | .normal => s.normalCursor
  | .assumed => s.assumedCursor

def setCursor (s : BlockStore) (type : BlockfileType) (c : Cursor) : BlockStore :=
  match type with
  | .normal => { s with normalCursor := some c }
  | .assumed => { s with assumedCursor := some c }

/-- `BlockfileTypeForHeight`. -/
def blockfileTypeForHeight (s : BlockStore) (height : Nat) : BlockfileType :=
  match s.snapshotHeight with
  | none => .normal
  | some snapshotHeight => if height ≥ snapshotHeight then .assumed else .normal

/-- `MaxBlockfileNum`. -/
def maxBlockfileNum (s : BlockStore) : Nat :=
  max (s.normalCursor.getD {}).fileNum (s.assumedCursor.getD {}).fileNum

/-- `m_blockfile_info.resize(nFile + 1)`, when the vector is shorter. -/
def resize (s : BlockStore) (nFile : Nat) : BlockStore :=
  { s with infos := s.infos ++ List.replicate (nFile + 1 - s.infos.length) {} }

/-- A change of one `CBlockFileInfo`. -/
def modifyInfo (s : BlockStore) (nFile : Nat) (f : FileInfo → FileInfo) : BlockStore :=
  { s with infos := s.infos.modify nFile f }

def markFile (s : BlockStore) (nFile : Nat) : BlockStore :=
  { s with dirtyFileinfo := Function.update s.dirtyFileinfo nFile true }

def setBlk (s : BlockStore) (nFile : Nat) (file : List UInt8) : BlockStore :=
  { s with blk := Function.update s.blk nFile file }

def setRev (s : BlockStore) (nFile : Nat) (file : List UInt8) : BlockStore :=
  { s with rev := Function.update s.rev nFile file }

/-- The new positions of an entry, which is then dirty. -/
def setPosition (s : BlockStore) (e : EntryPtr) (p : DiskPosition) : BlockStore :=
  { s with
    position := Function.update s.position e p
    dirtyBlockindex := Function.update s.dirtyBlockindex e true }

/-! ### Where records go -/

/-- `FlushUndoFile`. -/
def flushUndoFile (s : BlockStore) (env : WriteEnv) (blockFile : Nat) (finalize : Bool) :
    Option BlockStore := do
  let info ← s.infos[blockFile]?
  return s.setRev blockFile
    (flatFileFlush env.flushesUndo (s.rev blockFile) info.nUndoSize finalize)

/-- `FlushBlockFile`.  No caller uses whether it succeeds. -/
def flushBlockFile (s : BlockStore) (env : WriteEnv) (blockfileNum : Nat)
    (fFinalize finalizeUndo : Bool) : Option BlockStore := do
  if s.infos.length < 1 then return s
  let info ← s.infos[blockfileNum]?
  let s := s.setBlk blockfileNum
    (flatFileFlush env.flushesBlock (s.blk blockfileNum) info.nSize fFinalize)
  if !fFinalize || finalizeUndo then s.flushUndoFile env blockfileNum finalizeUndo
  else return s

/-- `FlushChainstateBlockFile`. -/
def flushChainstateBlockFile (s : BlockStore) (env : WriteEnv) (tipHeight : Nat) :
    Option BlockStore :=
  match s.cursor (s.blockfileTypeForHeight tipHeight) with
  | some cursor => s.flushBlockFile env cursor.fileNum false false
  | none => some s

/-- `max_blockfile_size` in `FindNextBlockPos`. -/
def maxBlockfileSizeFor (o : StorageOptions) (nAddSize : Nat) : Nat :=
  if o.fastPrune then if nAddSize ≥ 0x10000 then nAddSize + 1 else 0x10000
  else maxBlockfileSize

/-- The loop of `FindNextBlockPos`, with a bound on its turns.  The flag is
`finalize_undo`. -/
def nextFile (type : BlockfileType) (maxSize nAddSize : Nat) :
    (turns : Nat) → Nat → Bool → BlockStore → Option (Nat × Bool × BlockStore)
  | 0, _, _, _ => none
  | turns + 1, nFile, finalizeUndo, s => do
      let info ← s.infos[nFile]?
      if (info.nSize + nAddSize) % 2 ^ 32 ≥ maxSize then
        let cursor ← s.cursor type
        let next := s.maxBlockfileNum + 1
        nextFile type maxSize nAddSize turns next (info.nHeightLast == cursor.undoHeight)
          ((s.setCursor type { fileNum := next }).resize next)
      else return (nFile, finalizeUndo, s)

/-- The first part of `FindNextBlockPos`: the cursor of the type exists. -/
def withCursor (s : BlockStore) (type : BlockfileType) : Option (Cursor × BlockStore) :=
  match s.cursor type with
  | some cursor => some (cursor, s)
  | none =>
    match type with
    | .normal => none
    | .assumed =>
      let cursor : Cursor := { fileNum := s.maxBlockfileNum + 1 }
      some (cursor, s.setCursor type cursor)

/-- The part of `FindNextBlockPos` that leaves the last file. -/
def leaveFile (s : BlockStore) (env : WriteEnv) (type : BlockfileType)
    (nFile lastBlockfile : Nat) (finalizeUndo : Bool) : Option BlockStore :=
  if nFile ≠ lastBlockfile then
    (s.flushBlockFile env lastBlockfile true finalizeUndo).map
      fun s => s.setCursor type { fileNum := nFile }
  else some s

/-- `FindNextBlockPos`. -/
def findNextBlockPos (o : StorageOptions) (s : BlockStore) (env : WriteEnv)
    (nAddSize nHeight nTime : Nat) : Option (Option FilePos × BlockStore) := do
  let chainType := s.blockfileTypeForHeight nHeight
  let (cursor, s) ← s.withCursor chainType
  let lastBlockfile := cursor.fileNum
  let s := s.resize lastBlockfile
  let maxSize := maxBlockfileSizeFor o nAddSize
  if nAddSize ≥ maxSize then none
  let (nFile, finalizeUndo, s) ←
    nextFile chainType maxSize nAddSize (s.infos.length + 1) lastBlockfile false s
  let info ← s.infos[nFile]?
  let nPos := info.nSize
  let s ← s.leaveFile env chainType nFile lastBlockfile finalizeUndo
  let s := s.modifyInfo nFile fun info => (info.addBlock nHeight nTime).addSize nAddSize
  let (file, outOfSpace) := flatFileAllocate env o.blockChunk (s.blk nFile) nPos nAddSize
  let s := s.setBlk nFile file
  if outOfSpace then return (none, s)
  return (some ⟨nFile, nPos⟩, s.markFile nFile)

/-- `FindUndoPos`. -/
def findUndoPos (s : BlockStore) (env : WriteEnv) (nFile nAddSize : Nat) :
    Option (Option FilePos × BlockStore) := do
  let info ← s.infos[nFile]?
  let nPos := info.nUndoSize
  let s := (s.modifyInfo nFile fun info => info.addUndoSize nAddSize).markFile nFile
  let (file, outOfSpace) := flatFileAllocate env undofileChunkSize (s.rev nFile) nPos nAddSize
  let s := s.setRev nFile file
  if outOfSpace then return (none, s)
  return (some ⟨nFile, nPos⟩, s)

/-! ### Records -/

/-- A record is written into an open file, or only its first bytes are. -/
def writeRecord (o : StorageOptions) (env : WriteEnv) (file : List UInt8) (nPos : Nat)
    (pieces : List (List UInt8)) : List UInt8 :=
  match env.fails with
  | none =>
    (BufferedWriter.writeAll ⟨⟨o.obfuscation, file, nPos⟩, o.address, writerBufferSize, []⟩
      pieces).file
  | some count =>
    (AutoFile.append ⟨o.obfuscation, file, nPos⟩ (pieces.flatten.take count)).file

/-- What `WriteBlock` writes. -/
def blockPieces (o : StorageOptions) (block : Block) : List (List UInt8) :=
  let data := writeBlock true block
  [o.messageStart, Bytes.encodeLE 4 data.length, data]

/-- `WriteBlock`.  No position is the null position or an exception. -/
def writeBlock (o : StorageOptions) (s : BlockStore) (env : WriteEnv) (block : Block)
    (nHeight : Nat) : Option (Option FilePos × BlockStore) := do
  let blockSize := (Serialize.writeBlock true block).length % 2 ^ 32
  let (pos, s) ← findNextBlockPos o s env ((blockSize + storageHeaderBytes) % 2 ^ 32) nHeight
    block.nTime.toNat
  match pos with
  | none => return (none, s)
  | some pos =>
    if !env.opens then return (none, s)
    let file := writeRecord o env (s.blk pos.nFile) pos.nPos (blockPieces o block)
    let s := s.setBlk pos.nFile file
    if env.fails.isSome then return (none, s)
    return (some { pos with nPos := pos.nPos + storageHeaderBytes }, s)

/-- `UpdateBlockInfo`, for a block that was found in a file. -/
def updateBlockInfo (s : BlockStore) (block : Block) (nHeight : Nat) (pos : FilePos) : BlockStore :=
  let chainType := s.blockfileTypeForHeight nHeight
  let s :=
    match s.cursor chainType with
    | some cursor =>
      if cursor.fileNum < pos.nFile then s.setCursor chainType { fileNum := pos.nFile } else s
    | none => s.setCursor chainType { fileNum := pos.nFile }
  let addedSize := (Serialize.writeBlock true block).length % 2 ^ 32
  let s := s.resize pos.nFile
  let s := s.modifyInfo pos.nFile fun info =>
    (info.addBlock nHeight block.nTime.toNat).reach ((pos.nPos + addedSize) % 2 ^ 32)
  s.markFile pos.nFile

/-- `ReceivedBlockTransactions`, on the positions of the entry. -/
def receivedBlockTransactions (s : BlockStore) (e : EntryPtr) (pos : FilePos) : BlockStore :=
  s.setPosition e
    { s.position e with
      nFile := pos.nFile, nDataPos := pos.nPos, nUndoPos := 0, haveData := true }

section Undo

variable (keys : PubKeys) (hash256 : List UInt8 → Uint256)

/-- What `WriteBlockUndo` writes. -/
def undoPieces (o : StorageOptions) (prevHash : Uint256) (undo : BlockUndo) : List (List UInt8) :=
  let data := writeBlockUndo keys undo
  [o.messageStart, Bytes.encodeLE 4 data.length, data, (hash256 (prevHash.bytes ++ data)).bytes]

/-- The part of `WriteBlockUndo` that cuts the undo file or moves the cursor. -/
def trackUndo (s : BlockStore) (env : WriteEnv) (type : BlockfileType) (cursor : Cursor)
    (nFile nHeight : Nat) : Option BlockStore := do
  let info ← s.infos[nFile]?
  if nFile < cursor.fileNum ∧ nHeight = info.nHeightLast then
    s.flushUndoFile env nFile true
  else if nFile = cursor.fileNum ∧ nHeight > cursor.undoHeight then
    return s.setCursor type { cursor with undoHeight := nHeight }
  else return s

/-- `WriteBlockUndo`, for an entry with its height and the hash of its parent. -/
def writeBlockUndo (o : StorageOptions) (s : BlockStore) (env : WriteEnv) (e : EntryPtr)
    (nHeight : Nat) (prevHash : Uint256) (undo : BlockUndo) : Option (Bool × BlockStore) := do
  let type := s.blockfileTypeForHeight nHeight
  let cursor ← s.cursor type
  if (s.position e).getUndoPos.isSome then return (true, s)
  let undoSize := (Storage.writeBlockUndo keys undo).length % 2 ^ 32
  let (pos, s) ← s.findUndoPos env (s.position e).nFile
    ((undoSize + undoDataDiskOverhead) % 2 ^ 32)
  match pos with
  | none => return (false, s)
  | some pos =>
    if !env.opens then return (false, s)
    let file := writeRecord o env (s.rev pos.nFile) pos.nPos
      (undoPieces keys hash256 o prevHash undo)
    let s := s.setRev pos.nFile file
    if env.fails.isSome then return (false, s)
    let s ← s.trackUndo env type cursor pos.nFile nHeight
    return (true, s.setPosition e
      { s.position e with nUndoPos := pos.nPos + storageHeaderBytes, haveUndo := true })

/-- `ReadBlockUndo`. -/
def readBlockUndo (o : StorageOptions) (s : BlockStore) (e : EntryPtr) (prevHash : Uint256) :
    Option BlockUndo := do
  let pos ← (s.position e).getUndoPos
  Storage.readBlockUndo keys hash256 prevHash
    (AutoFile.remaining ⟨o.obfuscation, s.rev pos.nFile, pos.nPos⟩)

end Undo

/-- `ReadRawError`. -/
inductive ReadRawError where
  | io
  | badPartRange
deriving DecidableEq, Repr

/-- The part of a block that `ReadRawBlock` reads: where the file is then, and how much. -/
def seekPart (filein : AutoFile) (blkSize : Nat) :
    (blockPart : Option (Nat × Nat)) → Except ReadRawError (AutoFile × Nat)
  | none => .ok (filein, blkSize)
  | some (offset, size) =>
    if size = 0 ∨ min (offset + size) (2 ^ 64 - 1) > blkSize then .error .badPartRange
    else .ok ({ filein with position := filein.position + offset }, size)

/-- The end of `ReadRawBlock`, behind the header. -/
def readPart (o : StorageOptions) (filein : AutoFile) (blkSize : Nat)
    (blockPart : Option (Nat × Nat)) : Except ReadRawError (List UInt8) := do
  let (filein, size) ← seekPart filein blkSize blockPart
  let (data, _) ← ofOption .io (filein.read o.address size)
  return data

/-- `ReadRawBlock`, of a whole block or of a part with an offset and a size. -/
def readRawBlock (o : StorageOptions) (s : BlockStore) (pos : Option FilePos)
    (blockPart : Option (Nat × Nat)) : Except ReadRawError (List UInt8) := do
  -- the null position has `nPos` zero
  let pos ← ofOption .io pos
  if pos.nPos < storageHeaderBytes then throw .io
  let filein : AutoFile := ⟨o.obfuscation, s.blk pos.nFile, pos.nPos - storageHeaderBytes⟩
  let (blkStart, filein) ← ofOption .io (filein.read o.address 4)
  let (sizeBytes, filein) ← ofOption .io (filein.read o.address 4)
  if blkStart ≠ o.messageStart then throw .io
  if Bytes.decodeLE sizeBytes > maxSize then throw .io
  readPart o filein (Bytes.decodeLE sizeBytes) blockPart

/-- `ReadBlock`, at a position and with the expected hash. -/
def readBlock (o : StorageOptions) (hash256 : List UInt8 → Uint256) (params : ConsensusParams)
    (s : BlockStore) (pos : Option FilePos) (expectedHash : Option Uint256) : Option Block := do
  let blockData ← (s.readRawBlock o pos none).toOption
  let (block, _) ← (Serialize.readBlock.run blockData).toOption
  let blockHash := block.toBlockHeader.getHash hash256
  if !params.checkProofOfWork blockHash block.nBits then none
  if params.signetBlocks && !params.checkSignetBlockSolution block then none
  if expectedHash.any (blockHash != ·) then none
  return block

/-! ### Pruning -/

/-- `PruneOneBlockFile`. -/
def pruneOneBlockFile (s : BlockStore) (fileNumber : Nat) : Option BlockStore := do
  let _ ← s.infos[fileNumber]?
  let pruned e := (s.position e).nFile == fileNumber
  let s :=
    { s with
      position := fun e => if pruned e then {} else s.position e
      dirtyBlockindex := fun e => pruned e || s.dirtyBlockindex e }
  return (s.modifyInfo fileNumber fun _ => {}).markFile fileNumber

/-- `UnlinkPrunedFiles`.  The flags say which files the operating system removes. -/
def unlinkPrunedFiles (s : BlockStore) (removes : Nat → Bool × Bool) (files : List Nat) :
    BlockStore :=
  { s with
    blk := fun n => if n ∈ files ∧ (removes n).1 then [] else s.blk n
    rev := fun n => if n ∈ files ∧ (removes n).2 then [] else s.rev n }

/-- `ScanAndUnlinkAlreadyPrunedFiles`. -/
def scanAndUnlinkAlreadyPrunedFiles (s : BlockStore) (removes : Nat → Bool × Bool) : BlockStore :=
  if !s.havePruned then s
  else
    s.unlinkPrunedFiles removes
      ((List.range s.maxBlockfileNum).filter fun n => (s.infos[n]?.getD {}).nSize == 0)

end BlockStore

/-! ## The block tree database -/

/-- `BlockTreeDB`: the records of the files, the last block file, the entries, and the flag
`prunedblockfiles`. -/
structure BlockTreeDB where
  fileInfo : List (Option FileInfo) := []
  lastBlock : Nat := 0
  index : EntryPtr → Option DiskPosition := fun _ => none
  prunedBlockFiles : Bool := false

/-- `WriteBlockIndexDB` and `WriteBatchSync`: what is dirty is written in one batch. -/
def BlockStore.writeBlockIndexDB (s : BlockStore) (db : BlockTreeDB) : BlockStore × BlockTreeDB :=
  ({ s with dirtyFileinfo := fun _ => false, dirtyBlockindex := fun _ => false }, { db with
      fileInfo := (List.range (max db.fileInfo.length s.infos.length)).map fun n =>
        if s.dirtyFileinfo n then some (s.infos[n]?.getD {}) else db.fileInfo[n]?.join
      lastBlock := s.maxBlockfileNum
      index := fun e => if s.dirtyBlockindex e then some (s.position e).stored else db.index e })

/-- The file information that `LoadBlockIndexDB` reads: up to the last block file, and from
there as far as there are records. -/
def BlockTreeDB.loadInfos (db : BlockTreeDB) : List FileInfo :=
  ((List.range (db.lastBlock + 1)).map fun n => (db.fileInfo[n]?.join).getD {}) ++
    ((db.fileInfo.drop (db.lastBlock + 1)).takeWhile Option.isSome).filterMap id

/-- The cursors that `LoadBlockIndexDB` sets, file by file. -/
def BlockStore.loadCursors (s : BlockStore) : BlockStore :=
  s.infos.zipIdx.foldl (fun s p =>
    s.setCursor (s.blockfileTypeForHeight p.1.nHeightLast) { fileNum := p.2 }) s

/-- `LoadBlockIndexDB` in a new process, with the files as they are. -/
def BlockStore.loadBlockIndexDB (s : BlockStore) (db : BlockTreeDB)
    (snapshotHeight : Option Nat) : BlockStore :=
  BlockStore.loadCursors
    { blk := s.blk
      rev := s.rev
      snapshotHeight
      infos := db.loadInfos
      position := fun e => (db.index e).getD {}
      havePruned := db.prunedBlockFiles }

/-! ## Calls -/

/-- The block files and the database of a node.  No function reads the last two fields,
which have the block and the undo data that were stored last for an entry. -/
structure Node extends BlockStore where
  db : BlockTreeDB := {}
  blocks : EntryPtr → Option Block := fun _ => none
  undos : EntryPtr → Option BlockUndo := fun _ => none

/-- The calls that validation makes. -/
inductive StorageOp where
  /-- The last part of `AcceptBlock`, for a block that is not stored yet. -/
  | acceptBlock (e : EntryPtr) (block : Block) (env : WriteEnv)
  /-- The same for a block that a reindex found in a file. -/
  | acceptFound (e : EntryPtr) (block : Block) (pos : FilePos)
  /-- `WriteBlockUndo`, from `ConnectBlock`. -/
  | writeUndo (e : EntryPtr) (undo : BlockUndo) (env : WriteEnv)
  /-- The part of `FlushStateToDisk` about the block files.  `prunes` are the files that
  `FindFilesToPrune` or `FindFilesToPruneManual` prune. -/
  | flushState (prunes : List Nat) (tipHeight : Nat) (env : WriteEnv)
      (removes : Nat → Bool × Bool)
  /-- `m_snapshot_height` is set. -/
  | loadSnapshot (height : Nat)
  /-- The process ends at any point between two calls, and a new one loads the database. -/
  | restart (snapshotHeight : Option Nat) (removes : Nat → Bool × Bool)
  /-- A new process starts with an empty database and will look for the blocks in the
  files. -/
  | reindex

section Step

variable (o : StorageOptions) (keys : PubKeys) (hash256 : List UInt8 → Uint256)
  (entry : EntryPtr → BlockIndex)

namespace Node

/-- The last part of `AcceptBlock`. -/
def acceptBlock (w : Node) (e : EntryPtr) (block : Block) (env : WriteEnv) : Option Node := do
  if (w.position e).haveData then return w
  let (pos, s) ← w.toBlockStore.writeBlock o env block (entry e).nHeight
  match pos with
  | none => return { w with toBlockStore := s }
  | some pos =>
    return { w with
      toBlockStore := s.receivedBlockTransactions e pos
      blocks := Function.update w.blocks e (some block) }

/-- `AcceptBlock` with the position of the block. -/
def acceptFound (w : Node) (e : EntryPtr) (block : Block) (pos : FilePos) : Node :=
  if (w.position e).haveData then w
  else
    { w with
      toBlockStore := (w.toBlockStore.updateBlockInfo block (entry e).nHeight
        pos).receivedBlockTransactions e pos
      blocks := Function.update w.blocks e (some block) }

/-- The hash of `block.pprev`. -/
def prevHash (e : EntryPtr) : Option Uint256 := (entry e).pprev.map fun p => (entry p).hash

/-- `WriteBlockUndo`. -/
def writeUndo (w : Node) (e : EntryPtr) (undo : BlockUndo) (env : WriteEnv) : Option Node := do
  let prevHash ← prevHash entry e
  let (written, s) ← w.toBlockStore.writeBlockUndo keys hash256 o env e (entry e).nHeight
    prevHash undo
  let new := written && !(w.position e).haveUndo
  return { w with
    toBlockStore := s
    undos := if new then Function.update w.undos e (some undo) else w.undos }

/-- The part of `FlushStateToDisk` about the block files.  Without disk space it stops
behind the pruning in memory. -/
def flushState (w : Node) (prunes : List Nat) (tipHeight : Nat) (env : WriteEnv)
    (removes : Nat → Bool × Bool) : Option Node := do
  let s ← prunes.foldlM BlockStore.pruneOneBlockFile w.toBlockStore
  let havePruned := !prunes.isEmpty || s.havePruned
  let s := { s with havePruned }
  let db := { w.db with prunedBlockFiles := !prunes.isEmpty || w.db.prunedBlockFiles }
  if !env.diskSpace then return { w with toBlockStore := s, db }
  let s ← s.flushChainstateBlockFile env tipHeight
  let (s, db) := s.writeBlockIndexDB db
  return { w with toBlockStore := s.unlinkPrunedFiles removes prunes, db }

/-- One call. -/
def step (w : Node) : StorageOp → Option Node
  | .acceptBlock e block env => w.acceptBlock o entry e block env
  | .acceptFound e block pos => some (w.acceptFound entry e block pos)
  | .writeUndo e undo env => w.writeUndo o keys hash256 entry e undo env
  | .flushState prunes tipHeight env removes => w.flushState prunes tipHeight env removes
  | .loadSnapshot height =>
    some { w with toBlockStore := { w.toBlockStore with snapshotHeight := some height } }
  | .restart snapshotHeight removes =>
    some { w with
      toBlockStore := (w.toBlockStore.loadBlockIndexDB w.db
        snapshotHeight).scanAndUnlinkAlreadyPrunedFiles removes }
  | .reindex => some { w with toBlockStore := { blk := w.blk, rev := w.rev }, db := {} }

end Node

end Step

end BitcoinKernel.Storage
