import Mathlib

/-!
# Blob information

`BlobInfo` (`storage/src/device.rs`) describes one data blob of an image: its place in the
blob table, its sizes and chunking, the algorithms that process it, and where its chunk
information array and ZRan tables lie. The storage layer checks it against the blob meta
header; the RAFS v6 blob table writes it and reads it back. The algorithms are the
`Algorithm` enumerations of `utils/src/compress` and `utils/src/digest`, stored as `u32`
and read back by `TryFrom<u32>`.
-/

namespace Nydus

namespace Compress

/-- `compress::Algorithm`. -/
inductive Algorithm where
  | none
  | lz4Block
  | gZip
  | zstd
deriving DecidableEq, Repr

/-- `algorithm as u32`: the declaration order. -/
def Algorithm.toU32 : Algorithm → UInt32
  | .none => 0
  | .lz4Block => 1
  | .gZip => 2
  | .zstd => 3

/-- `Algorithm::try_from(u32)`. -/
def Algorithm.tryFrom (value : UInt32) : Option Algorithm :=
  if value = Algorithm.none.toU32 then some .none
  else if value = Algorithm.lz4Block.toU32 then some .lz4Block
  else if value = Algorithm.gZip.toU32 then some .gZip
  else if value = Algorithm.zstd.toU32 then some .zstd
  else Option.none

@[simp] theorem Algorithm.tryFrom_toU32 (a : Algorithm) : Algorithm.tryFrom a.toU32 = some a := by
  cases a <;> decide

/-- The values that name an algorithm are the algorithms' own. -/
theorem Algorithm.tryFrom_eq_some {value : UInt32} {a : Algorithm} :
    Algorithm.tryFrom value = some a ↔ value = a.toU32 := by
  constructor
  · intro names
    unfold tryFrom at names
    split_ifs at names with h₀ h₁ h₂ h₃ <;> (cases names; assumption)
  · rintro rfl
    exact tryFrom_toU32 a

example : Algorithm.tryFrom 4 = Option.none := by decide

end Compress

namespace Digest

/-- `digest::Algorithm`. -/
inductive Algorithm where
  | blake3
  | sha256
deriving DecidableEq, Repr

/-- `algorithm as u32`: the declaration order. -/
def Algorithm.toU32 : Algorithm → UInt32
  | .blake3 => 0
  | .sha256 => 1

/-- `Algorithm::try_from(u32)`, which tries `Sha256` first. -/
def Algorithm.tryFrom (value : UInt32) : Option Algorithm :=
  if value = Algorithm.sha256.toU32 then some .sha256
  else if value = Algorithm.blake3.toU32 then some .blake3
  else none

@[simp] theorem Algorithm.tryFrom_toU32 (a : Algorithm) : Algorithm.tryFrom a.toU32 = some a := by
  cases a <;> decide

end Digest

namespace Storage

/-- `BlobInfo`, with the source's widths. The blob features, the prefetch range, the
legacy-stargz mark and the fs-cache file are left out: neither the meta header check nor the
v6 blob table reads them. -/
structure BlobInfo where
  blobIndex : UInt32
  blobId : String
  compressedSize : UInt64
  uncompressedSize : UInt64
  chunkSize : UInt32
  chunkCount : UInt32
  compressor : Compress.Algorithm
  digester : Digest.Algorithm
  metaFlags : UInt32
  metaCiCompressor : UInt32
  metaCiOffset : UInt64
  metaCiCompressedSize : UInt64
  metaCiUncompressedSize : UInt64
  metaCiZranOffset : UInt64
  metaCiZranSize : UInt64
  metaCiZranCount : UInt32
deriving DecidableEq, Repr

namespace BlobInfo

/-- `BlobInfo::new`: no compression, Blake3 digests, no blob meta. -/
def new (blobIndex : UInt32) (blobId : String) (uncompressedSize compressedSize : UInt64)
    (chunkSize chunkCount : UInt32) : BlobInfo :=
  ⟨blobIndex, blobId, compressedSize, uncompressedSize, chunkSize, chunkCount, .none, .blake3,
    0, 0, 0, 0, 0, 0, 0, 0⟩

/-- `BlobInfo::set_compressor`. -/
def setCompressor (b : BlobInfo) (compressor : Compress.Algorithm) : BlobInfo :=
  { b with compressor }

/-- `BlobInfo::set_digester`. -/
def setDigester (b : BlobInfo) (digester : Digest.Algorithm) : BlobInfo :=
  { b with digester }

/-- `BlobInfo::set_blob_meta_info`. -/
def setBlobMetaInfo (b : BlobInfo) (flags : UInt32) (offset compressedSize uncompressedSize : UInt64)
    (compressor : UInt32) : BlobInfo :=
  { b with metaFlags := flags, metaCiCompressor := compressor, metaCiOffset := offset,
           metaCiCompressedSize := compressedSize, metaCiUncompressedSize := uncompressedSize }

/-- `BlobInfo::set_blob_meta_zran_info`. -/
def setBlobMetaZranInfo (b : BlobInfo) (count : UInt32) (offset size : UInt64) : BlobInfo :=
  { b with metaCiZranCount := count, metaCiZranOffset := offset, metaCiZranSize := size }

/-- `BlobInfo::meta_ci_compressor`: the stored `u32` read as an algorithm, with every value
that names none read as `None`. -/
def metaCiCompressorAlgorithm (b : BlobInfo) : Compress.Algorithm :=
  if b.metaCiCompressor = Compress.Algorithm.lz4Block.toU32 then .lz4Block
  else if b.metaCiCompressor = Compress.Algorithm.gZip.toU32 then .gZip
  else if b.metaCiCompressor = Compress.Algorithm.zstd.toU32 then .zstd
  else .none

/-- A stored value that names an algorithm reads back as that algorithm. -/
theorem metaCiCompressorAlgorithm_toU32 {b : BlobInfo} {a : Compress.Algorithm}
    (names : Compress.Algorithm.tryFrom b.metaCiCompressor = some a) :
    b.metaCiCompressorAlgorithm.toU32 = b.metaCiCompressor := by
  rw [Compress.Algorithm.tryFrom_eq_some] at names
  unfold metaCiCompressorAlgorithm
  rw [names]
  cases a <;> decide

end BlobInfo

end Storage

end Nydus
