import Fulcrum.Word

/-!
# Fulcrum.Block

The block data the download tasks hand to the controller.  Block parsing, the header
size and the block hash are outside the synchronization core (`BlockProc.h`, `BTC.h`);
`Btc` collects what the core uses of them, and `PreProcessedBlock` keeps the fields of
`PreProcessedBlock` that the controller and the tasks read.
-/

namespace Fulcrum

/-- A `QByteArray`, decoded. -/
abbrev Bytes := List UInt8

/-- `bitcoin::uint256::width()`: a block hash is 32 bytes. -/
def uint256Width : Nat := 32

/-- Modelled from the spec: the bitcoin primitives the core calls, none of which is
under `src/`.  `headerSize` is `BTC::GetBlockHeaderSize()`, `hashRev` is `BTC::HashRev`
(double SHA-256, byte-reversed, so always a 32-byte hash), and `txCounts` gives the
sizes of `txInfos`, `inputs` and `outputs` of the block `BTC::Deserialize` parses. -/
structure Btc where
  headerSize : Nat
  hashRev : Bytes → Bytes
  hashRev_length : ∀ b, (hashRev b).length = uint256Width
  txCounts : Bytes → Nat × Nat × Nat

/-- The fields of a `PreProcessedBlock` the synchronization core reads. -/
structure PreProcessedBlock where
  height : Nat
  sizeBytes : Nat
  header : Bytes
  nTx : Nat
  nIns : Nat
  nOuts : Nat
  deriving DecidableEq, Repr

/-- Modelled from the spec: `PreProcessedBlock::makeShared(height, size, block)`; the
header it keeps is the block's serialized header, its first `headerSize` bytes. -/
def PreProcessedBlock.makeShared (btc : Btc) (height sizeBytes : Nat) (rawblock : Bytes) :
    PreProcessedBlock :=
  { height, sizeBytes
    header := rawblock.take btc.headerSize
    nTx := (btc.txCounts rawblock).1
    nIns := (btc.txCounts rawblock).2.1
    nOuts := (btc.txCounts rawblock).2.2 }

@[simp] theorem PreProcessedBlock.makeShared_height (btc : Btc) (h n : Nat) (b : Bytes) :
    (PreProcessedBlock.makeShared btc h n b).height = h := rfl

@[simp] theorem PreProcessedBlock.makeShared_header (btc : Btc) (h n : Nat) (b : Bytes) :
    (PreProcessedBlock.makeShared btc h n b).header = b.take btc.headerSize := rfl

end Fulcrum
