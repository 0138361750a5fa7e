import BitcoinKernel.Consensus.MerkleInjective
import BitcoinKernel.Primitives.RoundTrip
import BitcoinKernel.Validation.BlockHistory

/-!
# A header that passes the merkle check determines its transactions

Two blocks can have the same header and different bytes: their transactions can
differ in the witnesses.  This module proves that they cannot differ in more.
If both pass `Block::check` with the flag for the merkle root, they have the
same txids in the same order (`merkle_header_determines_txids`).

The check of the merkle root compares the root and asks that no two partners of
the tree are equal.  `eq_of_computeMerkleRoot_eq` says that this is enough to
get the list of txids back.  The structure check behind it rules out a block
without transactions.

The hash of a pair is assumed not to collide in the two trees and not to be one
of the txids (`NoCollision`).
-/

namespace BitcoinKernel.Validation

open Serialize Consensus Stateful List

variable (hash256 : List UInt8 → Uint256)

/-- The hash of two partners of a merkle tree. -/
def pairHash (left right : Uint256) : Uint256 := hash256 (left.bytes ++ right.bytes)

/-- The txids of a block. -/
def txids (block : Block) : List Uint256 := block.vtx.map (Transaction.getHash hash256)

/-- What a fresh block passes when a check with the merkle flag accepts it. -/
theorem content_of_check {rawBlock : List UInt8} {fresh : BlockObject}
    (hcreate : blockCreate rawBlock = some fresh) {params : ConsensusParams} {flags : UInt32}
    (hmerkle : flags &&& blockCheckMerkle ≠ 0)
    (hvalid : ((Call.check params flags).run hash256 fresh).1 = .ok ()) :
    ContentOk hash256 fresh.block := by
  obtain ⟨block, rfl⟩ := exists_of_blockCreate hcreate
  have hunchecked : Unchecked hash256 block {} := ⟨rfl, fun h => by cases h⟩
  obtain ⟨hverdict, -⟩ := exec_checkBlock_of_unchecked hash256 params (flags &&& blockCheckPow ≠ 0)
    (flags &&& blockCheckMerkle ≠ 0) hunchecked
  have hfresh := hverdict.symm.trans hvalid
  obtain ⟨-, hroot, hstructure⟩ := (freshVerdict_eq_ok_iff hash256 _ _ _ _).mp hfresh
  exact ⟨hroot (decide_eq_true hmerkle), hstructure⟩

/-- The root of the txids is the one of the header, and no partners are equal. -/
theorem root_of_content {block : Block} (h : ContentOk hash256 block) : txids hash256 block ≠ [] ∧
      (computeMerkleRoot (pairHash hash256) (txids hash256 block)).1 = some block.hashMerkleRoot ∧
      (computeMerkleRoot (pairHash hash256) (txids hash256 block)).2 = false := by
  obtain ⟨hroot, hstructure⟩ := h
  unfold checkMerkleRootUncached at hroot
  obtain ⟨hmatch, hroot⟩ := throwIf_bind_eq_ok_iff.mp hroot
  have hmutated := throwIf_eq_ok_iff.mp hroot
  unfold checkStructure at hstructure
  obtain ⟨hsize, -⟩ := throwIf_bind_eq_ok_iff.mp hstructure
  have hne : txids hash256 block ≠ [] := by
    intro hnil
    apply hsize
    rw [map_eq_nil_iff.mp hnil]
    rfl
  obtain ⟨x, rest, hcons⟩ := exists_cons_of_ne_nil hne
  -- a list that is not empty has a root
  obtain ⟨root, hsome, -⟩ := exists_spine (P := fun _ => True) _ rfl
    (fun (_ : Uint256 × Uint256) (_ : _ ∈ hashedPairs (pairHash hash256) (x :: rest)) => True.intro)
  rw [← hcons] at hsome
  refine ⟨hne, ?_, Bool.not_eq_true _ ▸ hmutated⟩
  rw [hsome]
  have hroot : block.hashMerkleRoot =
      (computeMerkleRoot (pairHash hash256) (txids hash256 block)).1.getD Uint256.null :=
    Decidable.of_not_not hmatch
  rw [hroot, hsome, Option.getD_some]

/-- Two blocks that were just decoded have the same header and both pass a check
with the merkle flag.  Then they have the same number of transactions and the
same txid at every position. -/
theorem merkle_header_determines_txids {rawBlock rawBlock' : List UInt8}
    {fresh fresh' : BlockObject} (hcreate : blockCreate rawBlock = some fresh)
    (hcreate' : blockCreate rawBlock' = some fresh')
    (hheader : writeBlockHeader fresh.block.toBlockHeader =
      writeBlockHeader fresh'.block.toBlockHeader)
    {params params' : ConsensusParams} {flags flags' : UInt32}
    (hmerkle : flags &&& blockCheckMerkle ≠ 0) (hmerkle' : flags' &&& blockCheckMerkle ≠ 0)
    (hvalid : ((Call.check params flags).run hash256 fresh).1 = .ok ())
    (hvalid' : ((Call.check params' flags').run hash256 fresh').1 = .ok ())
    (hhash : NoCollision (pairHash hash256) (txids hash256 fresh.block)
      (txids hash256 fresh'.block)) :
    fresh.block.vtx.length = fresh'.block.vtx.length ∧
      ∀ i : Nat, (fresh.block.vtx[i]?).map (Transaction.getHash hash256) =
        (fresh'.block.vtx[i]?).map (Transaction.getHash hash256) := by
  obtain ⟨hne, hroot, hmutated⟩ :=
    root_of_content hash256 (content_of_check hash256 hcreate hmerkle hvalid)
  obtain ⟨hne', hroot', hmutated'⟩ :=
    root_of_content hash256 (content_of_check hash256 hcreate' hmerkle' hvalid')
  have hsame : fresh.block.hashMerkleRoot = fresh'.block.hashMerkleRoot :=
    congrArg BlockHeader.hashMerkleRoot
      (reads_blockHeader.eq_of_write_eq True.intro True.intro hheader)
  have htxids : txids hash256 fresh.block = txids hash256 fresh'.block :=
    eq_of_computeMerkleRoot_eq hhash hne hne' hmutated hmutated' (by rw [hroot, hroot', hsame])
  constructor
  · have hlength := congrArg List.length htxids
    rwa [txids, txids, length_map, length_map] at hlength
  · intro i
    rw [← getElem?_map, ← getElem?_map]
    exact congrArg (·[i]?) htxids

/-! ## Two blocks that differ in a witness -/

namespace MerkleBinding.Sample

/-- A hash that tells byte strings apart by their length. -/
def lengthHash (bytes : List UInt8) : Uint256 :=
  ⟨bytes.length.toUInt8 :: List.replicate 31 0, by
    rw [length_cons, length_replicate]⟩

/-- A coinbase with a script of two bytes. -/
def coinbase : Transaction where
  version := 1
  vin := [{ prevout := ⟨Uint256.null, OutPoint.nullIndex⟩, scriptSig := [0x51, 0x51]
            nSequence := 0xffffffff }]
  vout := [{ nValue := 5000000000, scriptPubKey := [0x51] }]
  nLockTime := 0

/-- A transaction with a witness of one byte. -/
def spend (witness : UInt8) : Transaction where
  version := 1
  vin := [{ prevout := ⟨Uint256.null, 0⟩, scriptSig := [], nSequence := 0xffffffff
            scriptWitness := [[witness]] }]
  vout := [{ nValue := 1, scriptPubKey := [0x51] }]
  nLockTime := 0

/-- A block with the two transactions. -/
def block (witness : UInt8) : Block where
  nVersion := 1
  hashPrevBlock := Uint256.null
  hashMerkleRoot := pairHash lengthHash (coinbase.getHash lengthHash)
    ((spend witness).getHash lengthHash)
  nTime := 0
  nBits := 0x207fffff
  nNonce := 0
  vtx := [coinbase, spend witness]

end MerkleBinding.Sample

open MerkleBinding.Sample in
/-- Two blocks with one header, whose second transactions have different
witnesses, have the same txids. -/
theorem merkle_header_determines_txids_sample : block 1 ≠ block 2 ∧
      ∀ i : Nat, ((block 1).vtx[i]?).map (Transaction.getHash lengthHash) =
        ((block 2).vtx[i]?).map (Transaction.getHash lengthHash) := by
  have hcreate : blockCreate (writeBlock true (block 1)) = some { block := block 1 } := by
    decide +kernel
  have hcreate' : blockCreate (writeBlock true (block 2)) = some { block := block 2 } := by
    decide +kernel
  have hhash : NoCollision (pairHash lengthHash) (txids lengthHash (block 1))
      (txids lengthHash (block 2)) := ⟨by decide +kernel, by decide +kernel⟩
  refine ⟨by decide +kernel, ?_⟩
  exact (merkle_header_determines_txids lengthHash hcreate hcreate' (by decide +kernel)
    (by decide : blockCheckMerkle &&& blockCheckMerkle ≠ 0)
    (by decide : blockCheckAll &&& blockCheckMerkle ≠ 0)
    (by decide +kernel : ((Call.check mainParams blockCheckMerkle).run lengthHash _).1 = .ok ())
    (by decide +kernel : ((Call.check regtestParams blockCheckAll).run lengthHash _).1 = .ok ())
    hhash).2

end BitcoinKernel.Validation
