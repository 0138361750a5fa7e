import BitcoinKernel.Storage.Compressor

/-!
# Coins in the database and in the undo files

The records of the chainstate database (`Coin::Serialize` in `coins.h`), and the undo
data of a block (`undo.h`) with the checksum that `WriteBlockUndo` puts behind it and
`ReadBlockUndo` compares (`node/blockstorage.cpp`).

A coin in the undo data has a zero between its height and its output, which old versions
used for the version of a transaction.  It is missing for the height zero.  The reader
skips any number there, so it accepts more than is written, and the results are about
what is written only (`Codec.Restores`).

* `restores_coin` and `restores_blockUndo`: the two formats.
* `readBlockUndo_record`: undo data with its checksum, wherever the record ends.
-/

namespace BitcoinKernel.Storage

open Serialize Codec List

variable (keys : PubKeys)

/-! ## Coins -/

/-- The height and the kind of a coin in one number. -/
def coinCode (coin : Coin) : Nat := (coin.nHeight.toNat <<< 1) ||| coin.fCoinBase.toNat

/-- `Coin::Serialize`, behind its assertion that the coin is not spent. -/
def writeCoin (coin : Coin) : List UInt8 :=
  writeVarInt 32 (coinCode coin) ++ writeTxOutCompressed keys coin.out

/-- `Coin::Unserialize`. -/
def readCoin : Reader Coin := do
  let code ← readVarInt 32
  let out ← readTxOutCompressed keys
  return { out, fCoinBase := code &&& 1 != 0, nHeight := BitVec.ofNat 31 (code >>> 1) }

/-- `TxInUndoFormatter::Ser`. -/
def writeTxInUndo (txout : Coin) : List UInt8 :=
  writeVarInt 32 (coinCode txout) ++ (if txout.nHeight > 0 then [0] else []) ++
    writeTxOutCompressed keys txout.out

/-- `TxInUndoFormatter::Unser`. -/
def readTxInUndo : Reader Coin := do
  let nCode ← readVarInt 32
  let nHeight := BitVec.ofNat 31 (nCode >>> 1)
  if nHeight > 0 then
    let _ ← readVarInt 32
    let out ← readTxOutCompressed keys
    return { out, fCoinBase := nCode &&& 1 != 0, nHeight }
  else
    let out ← readTxOutCompressed keys
    return { out, fCoinBase := nCode &&& 1 != 0, nHeight }

theorem coinCode_eq (coin : Coin) :
    coinCode coin = coin.nHeight.toNat * 2 + coin.fCoinBase.toNat := by
  have hkind : coin.fCoinBase.toNat < 2 ^ 1 := coin.fCoinBase.toNat_lt
  rw [coinCode, ← Nat.shiftLeft_add_eq_or_of_lt hkind, Nat.shiftLeft_eq]

theorem coinCode_lt (coin : Coin) : coinCode coin < 2 ^ 32 := by
  have hheight : coin.nHeight.toNat < 2 ^ 31 := coin.nHeight.isLt
  have hkind : coin.fCoinBase.toNat < 2 := coin.fCoinBase.toNat_lt
  rw [coinCode_eq]
  omega

/-- The height and the kind are found in the code. -/
theorem coinCode_parts (coin : Coin) : BitVec.ofNat 31 (coinCode coin >>> 1) = coin.nHeight ∧
      (coinCode coin &&& 1 != 0) = coin.fCoinBase := by
  have hkind : coin.fCoinBase.toNat < 2 := coin.fCoinBase.toNat_lt
  have hcode := coinCode_eq coin
  constructor
  · have hshift : coinCode coin >>> 1 = coin.nHeight.toNat := by
      rw [Nat.shiftRight_eq_div_pow, hcode]
      omega
    rw [hshift, BitVec.ofNat_toNat, BitVec.setWidth_eq]
  · rw [Nat.and_one_is_mod, hcode]
    cases coin.fCoinBase with
    | false => simp
    | true =>
      rw [Bool.toNat_true]
      have hodd : (coin.nHeight.toNat * 2 + 1) % 2 = 1 := by omega
      rw [hodd]
      rfl

theorem run_readCode (coin : Coin) (rest : List UInt8) :
    (readVarInt 32).run (writeVarInt 32 (coinCode coin) ++ rest) = .ok (coinCode coin, rest) :=
  (reads_varInt (by decide)).run_write (coinCode_lt coin) rest

theorem restores_coin :
    Restores (readCoin keys) (writeCoin keys) (fun coin => Compressible coin.out) := by
  intro coin rest h
  obtain ⟨hheight, hkind⟩ := coinCode_parts coin
  rw [readCoin, writeCoin, append_assoc, run_bind_eq_ok_iff]
  refine ⟨_, _, run_readCode coin _, ?_⟩
  rw [run_bind_eq_ok_iff]
  refine ⟨_, _, restores_txOut keys _ _ h, ?_⟩
  rw [run_pure_eq_ok_iff, hheight, hkind]
  exact ⟨rfl, rfl⟩

theorem restores_txInUndo :
    Restores (readTxInUndo keys) (writeTxInUndo keys) (fun coin => Compressible coin.out) := by
  intro coin rest h
  obtain ⟨hheight, hkind⟩ := coinCode_parts coin
  rw [readTxInUndo, writeTxInUndo, append_assoc, append_assoc, run_bind_eq_ok_iff]
  refine ⟨_, _, run_readCode coin _, ?_⟩
  dsimp only
  rw [hheight, hkind]
  split
  · -- the zero, and what is behind it
    have hdummy : (readVarInt 32).run ([0] ++ (writeTxOutCompressed keys coin.out ++ rest)) =
        .ok (0, writeTxOutCompressed keys coin.out ++ rest) :=
      (reads_varInt (by decide)).run_write (a := 0) (by decide) _
    rw [run_bind_eq_ok_iff]
    refine ⟨_, _, hdummy, ?_⟩
    rw [run_bind_eq_ok_iff]
    exact ⟨_, _, restores_txOut keys _ _ h, rfl⟩
  · rw [nil_append, run_bind_eq_ok_iff]
    exact ⟨_, _, restores_txOut keys _ _ h, rfl⟩

/-! ## Vectors -/

section Vectors

variable {α : Type} {element : Reader α} {write : α → List UInt8} {valid : α → Prop}

theorem restores_many (h : Restores element write valid) (rest : List UInt8) (v : List α)
    (hv : ∀ a ∈ v, valid a) :
    (readMany element v.length).run (v.flatMap write ++ rest) = .ok (v, rest) := by
  induction v with
  | nil => rfl
  | cons a v ih =>
    rw [forall_mem_cons] at hv
    rw [length_cons, readMany, flatMap_cons, append_assoc, run_bind_eq_ok_iff]
    refine ⟨_, _, h a _ hv.1, ?_⟩
    rw [run_bind_eq_ok_iff]
    exact ⟨_, _, ih hv.2, rfl⟩

theorem restores_vector (h : Restores element write valid) :
    Restores (readVector element) (writeVector write) (VectorDecodable valid) := by
  rintro v rest ⟨hsize, hv⟩
  rw [readVector, writeVector, append_assoc, run_bind_eq_ok_iff]
  exact ⟨_, _, reads_compactSize.run_write hsize _, restores_many h rest v hv⟩

end Vectors

/-! ## The undo data of a block -/

/-- `CTxUndo`, when it is written. -/
def writeTxUndo (undo : TxUndo) : List UInt8 := writeVector (writeTxInUndo keys) undo.vprevout

/-- `CTxUndo`, when it is read. -/
def readTxUndo : Reader TxUndo := return ⟨← readVector (readTxInUndo keys)⟩

/-- `CBlockUndo`, when it is written. -/
def writeBlockUndo (undo : BlockUndo) : List UInt8 := writeVector (writeTxUndo keys) undo.vtxundo

/-- `CBlockUndo`, when it is read. -/
def readBlockUndoData : Reader BlockUndo := return ⟨← readVector (readTxUndo keys)⟩

/-- The undo data of a transaction that comes back. -/
def TxUndoStorable (undo : TxUndo) : Prop :=
  VectorDecodable (fun coin : Coin => Compressible coin.out) undo.vprevout

/-- The undo data of a block that comes back. -/
def BlockUndoStorable (undo : BlockUndo) : Prop := VectorDecodable TxUndoStorable undo.vtxundo

theorem restores_txUndo : Restores (readTxUndo keys) (writeTxUndo keys) TxUndoStorable := by
  intro undo rest h
  rw [readTxUndo, run_bind_eq_ok_iff]
  exact ⟨_, _, restores_vector (restores_txInUndo keys) _ rest h, rfl⟩

theorem restores_blockUndo :
    Restores (readBlockUndoData keys) (writeBlockUndo keys) BlockUndoStorable := by
  intro undo rest h
  rw [readBlockUndoData, run_bind_eq_ok_iff]
  exact ⟨_, _, restores_vector (restores_txUndo keys) _ rest h, rfl⟩

/-! ## The checksum -/

variable (hash256 : List UInt8 → Uint256)

/-- What `WriteBlockUndo` puts behind the header of a record: the undo data, and its hash
together with that of the block before. -/
def undoRecord (prevHash : Uint256) (undo : BlockUndo) : List UInt8 :=
  writeBlockUndo keys undo ++ (hash256 (prevHash.bytes ++ writeBlockUndo keys undo)).bytes

/-- `ReadBlockUndo` on the bytes of the file from the position of the undo data on.  The
verifier hashes the bytes that the reader has taken. -/
def readBlockUndo (prevHash : Uint256) (data : List UInt8) : Option BlockUndo :=
  match (readBlockUndoData keys).run data with
  | .error _ => none
  | .ok (undo, rest) =>
    let taken := data.take (data.length - rest.length)
    match readUint256.run rest with
    | .error _ => none
    | .ok (hashChecksum, _) =>
      if hashChecksum ≠ hash256 (prevHash.bytes ++ taken) then none else some undo

/-- A record is read back, whatever stands behind it in the file. -/
theorem readBlockUndo_record (prevHash : Uint256) {undo : BlockUndo} (h : BlockUndoStorable undo)
    (rest : List UInt8) :
    readBlockUndo keys hash256 prevHash (undoRecord keys hash256 prevHash undo ++ rest) =
      some undo := by
  have hread := restores_blockUndo keys undo
    ((hash256 (prevHash.bytes ++ writeBlockUndo keys undo)).bytes ++ rest) h
  have hhash := reads_uint256.run_write
    (a := hash256 (prevHash.bytes ++ writeBlockUndo keys undo)) trivial rest
  unfold readBlockUndo undoRecord
  rw [append_assoc, hread]
  dsimp only
  rw [hhash]
  dsimp only
  rw [length_append, Nat.add_sub_cancel, take_left, if_neg (not_not.mpr rfl)]

end BitcoinKernel.Storage
