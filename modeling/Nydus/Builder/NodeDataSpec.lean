import Nydus.Builder.NodeData
import Nydus.Lib.Except
import Nydus.Lib.Store

/-!
# What the data of a chunk is

A chunk reference names a blob of the table being built and a compressed range of it.
The bytes of a blob are the backend's, by blob id, but for the blob of the build, whose
bytes are those its writer wrote after `blob_offset` (`blobData`); the bytes of a chunk
are its range, decompressed when it is compressed (`storedData`). A chunk tells the truth
about its data when those bytes have its digest and its uncompressed size
(`ChunkHolds`).

The dump keeps an invariant of the blob manager and the bytes written (`DumpInv`): the
compressed offset of the blob of the build is the end of what was written, every chunk
of the dicts tells the truth, and the blob the global dict remembers for a blob of its
own is that blob. Under it, each turn of the chunk loop only grows the table and the
written bytes (`TableGrows`, `Store.Grows`), so what a chunk designates once it keeps
designating.
-/

namespace Nydus

open Store

/-- The bytes of blob `idx` of the table being built: the backend's, by blob id, but for
the blob of the build, those its writer wrote after `blob_offset`. -/
def blobData (ctx : BuildContext) (backend : String → List UInt8) (mgr : BlobManager)
    (written : List UInt8) (idx : Nat) : Option (List UInt8) :=
  if mgr.currentBlobIndex = some idx then some (List.replicate ctx.blobOffset 0 ++ written)
  else mgr.blobs[idx]?.map fun b => backend b.blobId

/-- The bytes of blob `idx` of the global chunk dict's own table. -/
def dictData (backend : String → List UInt8) (dict : ChunkDict) (idx : Nat) :
    Option (List UInt8) :=
  (dict.getBlobsByInnerIdx idx).map fun b => backend b.blobId

/-- The bytes chunk `c` designates in the blobs `S`: its compressed range, decompressed
when the chunk is compressed. -/
def storedData (decompress : List UInt8 → List UInt8) (S : Nat → Option (List UInt8))
    (c : ChunkWrapper) : Option (List UInt8) :=
  (Store.read S c.blobIndex c.compressedOffset c.compressedSize).map fun raw =>
    if c.isCompressed then decompress raw else raw

/-- Chunk `c` tells the truth about its data in `S`: the bytes it designates have its
digest and its uncompressed size. -/
def ChunkHolds (digest : List UInt8 → Nat) (decompress : List UInt8 → List UInt8)
    (S : Nat → Option (List UInt8)) (c : ChunkWrapper) : Prop :=
  ∃ d, storedData decompress S c = some d ∧ digest d = c.id ∧ d.length = c.uncompressedSize

/-- What the data dump keeps of the blob manager and of the bytes its writer wrote. -/
structure DumpInv (ctx : BuildContext) (decompress : List UInt8 → List UInt8)
    (backend : String → List UInt8) (mgr : BlobManager) (written : List UInt8) : Prop where
  /-- Nothing is written before the blob of the build exists. -/
  fresh : mgr.currentBlobIndex = none → written = []
  /-- The blob of the build is in the table; its compressed offset is the end of what was
  written, and its chunk array, if kept, has an entry for each chunk index. -/
  current : ∀ k, mgr.currentBlobIndex = some k → ∃ b, mgr.blobs[k]? = some b ∧
    b.compressedOffset = ctx.blobOffset + written.length ∧
    (b.blobMetaInfoEnabled = true → b.chunkCount = b.blobMetaInfo.length)
  /-- Every chunk of the global dict tells the truth about its data in the dict's blobs. -/
  dict : ∀ id c, mgr.globalChunkDict.getChunk id = some c →
    ChunkHolds ctx.digest decompress (dictData backend mgr.globalChunkDict) c
  /-- The blob the global dict remembers for the blob of one of its chunks has that blob's
  id, and is not the blob of the build. -/
  realIdx : ∀ id c r, mgr.globalChunkDict.getChunk id = some c →
    mgr.globalChunkDict.getRealBlobIdx c.blobIndex = some r →
    mgr.currentBlobIndex ≠ some r ∧
      mgr.blobs[r]?.map (·.blobId) = (mgr.globalChunkDict.getBlobsByInnerIdx c.blobIndex).map (·.blobId)
  /-- Every chunk of the layered dict tells the truth about its data. -/
  layered : ∀ id c, mgr.layeredChunkDict.getChunk id = some c →
    ChunkHolds ctx.digest decompress (blobData ctx backend mgr written) c

/-- The table being built only grows: the blob of the build stays, or is set past the old
table, and every other blob of the old table stays. -/
structure TableGrows (mgr mgr' : BlobManager) : Prop where
  current : mgr'.currentBlobIndex = mgr.currentBlobIndex ∨
    mgr.currentBlobIndex = none ∧ ∃ k, mgr'.currentBlobIndex = some k ∧ mgr.blobs.length ≤ k
  blobs : ∀ i, i < mgr.blobs.length → mgr.currentBlobIndex ≠ some i → mgr'.blobs[i]? = mgr.blobs[i]?
  length : mgr.blobs.length ≤ mgr'.blobs.length

/-! ## Designated bytes -/

section Stored

variable {decompress : List UInt8 → List UInt8}

theorem storedData_of_grows {S S' : Nat → Option (List UInt8)} {c : ChunkWrapper} {d : List UInt8}
    (g : Grows S S') (h : storedData decompress S c = some d) : storedData decompress S' c = some d := by
  unfold storedData at h ⊢
  obtain ⟨raw, range, rfl⟩ := Option.map_eq_some_iff.mp h
  rw [g.read_eq range, Option.map_some]

theorem ChunkHolds.of_grows {digest : List UInt8 → Nat} {S S' : Nat → Option (List UInt8)}
    {c : ChunkWrapper} (g : Grows S S') (h : ChunkHolds digest decompress S c) :
    ChunkHolds digest decompress S' c := by
  obtain ⟨d, stored, hd⟩ := h
  exact ⟨d, storedData_of_grows g stored, hd⟩

/-- A chunk designates bytes only in a blob `S` has. -/
theorem isSome_of_storedData {S : Nat → Option (List UInt8)} {c : ChunkWrapper} {d : List UInt8}
    (h : storedData decompress S c = some d) : (S c.blobIndex).isSome := by
  unfold storedData at h
  obtain ⟨raw, range, -⟩ := Option.map_eq_some_iff.mp h
  exact isSome_of_read range

/-- Two chunks that agree on where they are stored designate the same bytes, in stores
that agree on their blobs. -/
theorem storedData_congr {S S' : Nat → Option (List UInt8)} {c c' : ChunkWrapper}
    (blob : S' c'.blobIndex = S c.blobIndex) (offset : c'.compressedOffset = c.compressedOffset)
    (size : c'.compressedSize = c.compressedSize) (compressed : c'.isCompressed = c.isCompressed) :
    storedData decompress S' c' = storedData decompress S c := by
  simp only [storedData, Store.read, blob, offset, size, compressed]

end Stored

/-! ## The table grows -/

namespace TableGrows

theorem refl (mgr : BlobManager) : TableGrows mgr mgr :=
  ⟨Or.inl rfl, fun _ _ _ => rfl, le_refl _⟩

theorem trans {mgr mgr' mgr'' : BlobManager} (g₁ : TableGrows mgr mgr') (g₂ : TableGrows mgr' mgr'') :
    TableGrows mgr mgr'' := by
  -- an index of the old table is not the blob of the build of the middle one
  have notCurrent : ∀ i, i < mgr.blobs.length → mgr.currentBlobIndex ≠ some i →
      mgr'.currentBlobIndex ≠ some i := by
    intro i inTable notCur
    rcases g₁.current with same | ⟨-, k, set, past⟩
    · rwa [same]
    · rw [set]
      intro hk
      cases hk
      omega
  refine ⟨?_, ?_, le_trans g₁.length g₂.length⟩
  · rcases g₁.current with same₁ | ⟨none₁, k, set₁, past₁⟩
    · rcases g₂.current with same₂ | ⟨none₂, k, set₂, past₂⟩
      · exact Or.inl (same₂.trans same₁)
      · exact Or.inr ⟨same₁ ▸ none₂, k, set₂, le_trans g₁.length past₂⟩
    · rcases g₂.current with same₂ | ⟨none₂, -, -, -⟩
      · exact Or.inr ⟨none₁, k, same₂.trans set₁, past₁⟩
      · rw [set₁] at none₂
        cases none₂
  · intro i inTable notCur
    rw [g₂.blobs i (lt_of_lt_of_le inTable g₁.length) (notCurrent i inTable notCur),
      g₁.blobs i inTable notCur]

variable {ctx : BuildContext} {backend : String → List UInt8}

/-- The blobs of a growing table grow, with what is written after the blob of the build. -/
theorem blobData_grows {mgr mgr' : BlobManager} (g : TableGrows mgr mgr') (written t : List UInt8) :
    Grows (blobData ctx backend mgr written) (blobData ctx backend mgr' (written ++ t)) := by
  intro idx b held
  unfold blobData at held ⊢
  split at held
  · rename_i isCurrent
    cases held
    rcases g.current with same | ⟨none, -⟩
    · rw [if_pos (same.trans isCurrent)]
      exact ⟨t, by rw [List.append_assoc]⟩
    · rw [none] at isCurrent
      cases isCurrent
  · rename_i notCurrent
    obtain ⟨blob, found, rfl⟩ := Option.map_eq_some_iff.mp held
    have inTable : idx < mgr.blobs.length := (List.getElem?_eq_some_iff.mp found).1
    -- the old index is not the blob of the build of the new table
    have stillNot : mgr'.currentBlobIndex ≠ some idx := by
      rcases g.current with same | ⟨-, k, set, past⟩
      · rwa [same]
      · rw [set]
        intro hk
        cases hk
        omega
    rw [if_neg stillNot, g.blobs idx inTable notCurrent, found]
    exact ⟨[], by rw [Option.map_some, List.append_nil]⟩

/-- The blobs of a growing table grow, with nothing more written. -/
theorem blobData_grows_same {mgr mgr' : BlobManager} {written : List UInt8} (g : TableGrows mgr mgr') :
    Grows (blobData ctx backend mgr written) (blobData ctx backend mgr' written) := by
  have grows : Grows (blobData ctx backend mgr written) (blobData ctx backend mgr' (written ++ [])) :=
    g.blobData_grows written []
  rwa [List.append_nil] at grows

end TableGrows

/-! ## The dicts -/

namespace ChunkDict

theorem id_of_getChunk {d : ChunkDict} {id : Nat} {c : ChunkWrapper} (h : d.getChunk id = some c) :
    c.id = id := by
  cases d with
  | unit => cases h
  | hash m blobs blobIdxM =>
    simpa using List.find?_some h

/-- The dict a chunk was added to knows what it knew, and the chunk. -/
theorem getChunk_addChunk {d : ChunkDict} {chunk c : ChunkWrapper} {id : Nat}
    (h : (d.addChunk chunk).getChunk id = some c) : d.getChunk id = some c ∨ c = chunk := by
  cases d with
  | unit => cases h
  | hash m blobs blobIdxM =>
    simp only [addChunk] at h
    split at h
    · exact Or.inl h
    · simp only [getChunk, List.find?_append] at h ⊢
      cases known : m.find? (·.id = id) with
      | some c' =>
        rw [known, Option.some_or] at h
        exact Or.inl h
      | none =>
        rw [known, Option.none_or] at h
        simp only [List.find?_cons, List.find?_nil] at h
        split at h
        · exact Or.inr (Option.some.inj h).symm
        · cases h

end ChunkDict

end Nydus
