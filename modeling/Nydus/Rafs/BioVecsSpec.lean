import Mathlib
import Nydus.Lib.Blocks
import Nydus.Rafs.BioVecs

/-!
# What a read's blob IO is made of

Both allocations build their vectors the same way: each descriptor is pushed onto the
current vector, after `switch` has started a new one where the descriptor's blob is not the
current vector's. What that keeps (`Grouped`) makes the vectors the maximal runs of one blob
of their descriptors, each of their size (`Grouped.runs`). `ReadsRange` is what a read
asks of the result: the descriptors read, in order, the parts of the chunks the read meets
(`Blocks.cut`), so that placed at their chunks they tile the range read; the vectors are
the runs of one blob; and their sizes add up to the bytes read.
-/

namespace Nydus

open Blocks

/-- A list related element by element to another maps to the same list where the relation
says the two maps agree. -/
theorem map_eq_map_of_forall₂ {α β γ : Type} {R : α → β → Prop} {f : α → γ} {g : β → γ}
    {as : List α} {bs : List β} (rel : List.Forall₂ R as bs) (agree : ∀ a b, R a b → f a = g b) :
    as.map f = bs.map g := by
  induction rel with
  | nil => rfl
  | cons head _ ih => rw [List.map_cons, List.map_cons, agree _ _ head, ih]

theorem zipWith_eq_map_of_forall₂ {α β γ : Type} {R : α → β → Prop} {f : α → β → γ} {g : β → γ}
    {as : List α} {bs : List β} (rel : List.Forall₂ R as bs) (agree : ∀ a b, R a b → f a b = g b) :
    List.zipWith f as bs = bs.map g := by
  induction rel with
  | nil => rfl
  | cons head _ ih => rw [List.zipWith_cons_cons, List.map_cons, agree _ _ head, ih]

/-- An entry of a blob table is the blob of the index it is found at. -/
theorem BlobTable.get_blobIndex {t : BlobTable} {i : Nat} {blob : BlobRef}
    (found : t.get i = some blob) : blob.blobIndex = i := by
  unfold BlobTable.get at found
  obtain ⟨within, entry⟩ := List.getElem?_eq_some_iff.mp found
  rw [← entry]
  exact t.indexed i within

namespace BlobIoVec

/-- Descriptors of the same blob: what the vectors are runs of. -/
def sameBlob (a b : BlobIoDesc) : Bool := a.chunkinfo.blobIndex == b.chunkinfo.blobIndex

/-- The descriptors of vectors, in order. -/
def descs (vecs : List BlobIoVec) : List BlobIoDesc := (vecs.map (·.bios)).flatten

/-- The sum of the sizes of vectors. -/
def total (vecs : List BlobIoVec) : Nat := (vecs.map (·.size)).sum

@[simp] theorem descs_append (vecs vecs' : List BlobIoVec) :
    descs (vecs ++ vecs') = descs vecs ++ descs vecs' := by
  simp [descs]

@[simp] theorem descs_singleton (v : BlobIoVec) : descs [v] = v.bios := by
  simp [descs]

theorem push_eq_ok {v : BlobIoVec} {desc : BlobIoDesc} {blob : BlobRef}
    (same : v.blob.blobIndex = blob.blobIndex) (fits : v.size + desc.size ≤ U32_MAX) :
    v.push desc blob = .ok ⟨v.blob, v.size + desc.size, v.bios ++ [desc]⟩ := by
  have room : ¬ U32_MAX < v.size + desc.size := by omega
  simp only [push, same, ne_eq, not_true_eq_false, if_false, room]

/-- The first descriptor of a new vector. -/
theorem push_new {desc : BlobIoDesc} {blob : BlobRef} (fits : desc.size ≤ U32_MAX) :
    (new blob).push desc blob = .ok ⟨blob, desc.size, [desc]⟩ := by
  have := @push_eq_ok (new blob) desc blob rfl (by simp only [new]; omega)
  simpa [new] using this

/-- What the vectors an allocation builds keep: none is empty, each holds descriptors of its
own blob and has their size, and neighbours are of different blobs. -/
structure Grouped (vecs : List BlobIoVec) : Prop where
  nonempty : ∀ v ∈ vecs, v.bios ≠ []
  ofBlob : ∀ v ∈ vecs, ∀ d ∈ v.bios, d.chunkinfo.blobIndex = v.blob.blobIndex
  sized : ∀ v ∈ vecs, v.size = (v.bios.map (·.size)).sum
  apart : (vecs.map fun v => v.blob.blobIndex).IsChain (· ≠ ·)

namespace Grouped

/-- A vector of one descriptor. -/
theorem single {desc : BlobIoDesc} {blob : BlobRef} (keyed : desc.chunkinfo.blobIndex = blob.blobIndex) :
    Grouped [⟨blob, desc.size, [desc]⟩] where
  nonempty := by simp
  ofBlob := by simpa using keyed
  sized := by simp
  apart := List.isChain_singleton _

/-- A descriptor of another blob than the last vector's starts a vector of its own. -/
theorem append_new {done : List BlobIoVec} {desc : BlobIoVec} {d : BlobIoDesc} {blob : BlobRef}
    (grouped : Grouped (done ++ [desc])) (other : blob.blobIndex ≠ desc.blob.blobIndex)
    (keyed : d.chunkinfo.blobIndex = blob.blobIndex) :
    Grouped (done ++ [desc] ++ [⟨blob, d.size, [d]⟩]) where
  nonempty := by
    intro v member
    rcases List.mem_append.mp member with old | now
    · exact grouped.nonempty v old
    · rw [List.mem_singleton.mp now]
      simp
  ofBlob := by
    intro v member
    rcases List.mem_append.mp member with old | now
    · exact grouped.ofBlob v old
    · rw [List.mem_singleton.mp now]
      simpa using keyed
  sized := by
    intro v member
    rcases List.mem_append.mp member with old | now
    · exact grouped.sized v old
    · rw [List.mem_singleton.mp now]
      simp
  apart := by
    rw [List.map_append, List.isChain_append]
    refine ⟨grouped.apart, List.isChain_singleton _, ?_⟩
    intro x last y first
    simp only [List.map_append, List.map_singleton, List.getLast?_concat, Option.mem_def,
      Option.some.injEq, List.head?_cons] at last first
    rw [← last, ← first]
    exact other.symm

/-- A descriptor of the last vector's blob is added to it. -/
theorem append_same {done : List BlobIoVec} {desc : BlobIoVec} {d : BlobIoDesc} {blob : BlobRef}
    (grouped : Grouped (done ++ [desc])) (same : blob.blobIndex = desc.blob.blobIndex)
    (keyed : d.chunkinfo.blobIndex = blob.blobIndex) :
    Grouped (done ++ [⟨desc.blob, desc.size + d.size, desc.bios ++ [d]⟩]) where
  nonempty := by
    intro v member
    simp only [List.mem_append, List.mem_singleton] at member
    rcases member with old | rfl
    · exact grouped.nonempty v (List.mem_append_left _ old)
    · simp
  ofBlob := by
    intro v member
    simp only [List.mem_append, List.mem_singleton] at member
    rcases member with old | rfl
    · exact grouped.ofBlob v (List.mem_append_left _ old)
    · have earlier := grouped.ofBlob desc (by simp)
      intro e added
      rcases List.mem_append.mp added with before | now
      · exact earlier e before
      · rw [List.mem_singleton.mp now, keyed, same]
  sized := by
    intro v member
    simp only [List.mem_append, List.mem_singleton] at member
    rcases member with old | rfl
    · exact grouped.sized v (List.mem_append_left _ old)
    · rw [grouped.sized desc (by simp)]
      simp
  apart := by
    have blobs : (done ++ [(⟨desc.blob, desc.size + d.size, desc.bios ++ [d]⟩ : BlobIoVec)]).map
        (fun v => v.blob.blobIndex) = (done ++ [desc]).map fun v => v.blob.blobIndex := by
      simp
    rw [blobs]
    exact grouped.apart

/-- The sizes of the vectors add up to those of their descriptors. -/
theorem total_eq {vecs : List BlobIoVec} (grouped : Grouped vecs) :
    total vecs = ((descs vecs).map (·.size)).sum := by
  have sizes : vecs.map (·.size) = vecs.map fun v => (v.bios.map (·.size)).sum :=
    List.map_congr_left grouped.sized
  rw [total, sizes, descs, List.map_flatten, List.sum_flatten, List.map_map, List.map_map]
  rfl

/-- The vectors are the maximal runs of one blob of their descriptors. -/
theorem runs {vecs : List BlobIoVec} (grouped : Grouped vecs) :
    vecs.map (·.bios) = (descs vecs).splitBy sameBlob := by
  symm
  rw [List.splitBy_eq_iff]
  refine ⟨rfl, ?_, ?_, ?_⟩
  · intro empty
    obtain ⟨v, member, bios⟩ := List.mem_map.mp empty
    exact grouped.nonempty v member bios
  · intro bios member
    obtain ⟨v, inVecs, rfl⟩ := List.mem_map.mp member
    apply List.Pairwise.isChain
    apply List.pairwise_of_forall_mem_list
    intro a inA b inB
    simp [sameBlob, grouped.ofBlob v inVecs a inA, grouped.ofBlob v inVecs b inB]
  · rw [List.isChain_map]
    have apart := (List.isChain_map (fun v : BlobIoVec => v.blob.blobIndex)).mp grouped.apart
    refine apart.imp_of_mem_imp ?_
    intro v w inV inW differ
    refine ⟨grouped.nonempty v inV, grouped.nonempty w inW, ?_⟩
    have last := grouped.ofBlob v inV _ (List.getLast_mem (grouped.nonempty v inV))
    have first := grouped.ofBlob w inW _ (List.head_mem (grouped.nonempty w inW))
    simpa [sameBlob, last, first] using differ

end Grouped

/-- One step of both loops: `switch`, then `push`. The vectors so far stay grouped and gain
the descriptor, provided it is of the blob it is pushed with and the sizes stay within
`u32`. -/
theorem switch_push {done : List BlobIoVec} {desc : BlobIoVec} {d : BlobIoDesc} {blob : BlobRef}
    (grouped : Grouped (done ++ [desc])) (keyed : d.chunkinfo.blobIndex = blob.blobIndex)
    (fits : total (done ++ [desc]) + d.size ≤ U32_MAX) :
    ∃ next, (switch blob desc done).1.push d blob = .ok next ∧
      Grouped ((switch blob desc done).2 ++ [next]) ∧
      descs ((switch blob desc done).2 ++ [next]) = descs (done ++ [desc]) ++ [d] := by
  have last : desc.size ≤ total (done ++ [desc]) := by simp [total]
  by_cases other : blob.blobIndex ≠ desc.blob.blobIndex
  · -- a vector of its own for the descriptor
    have switched : switch blob desc done = (new blob, done ++ [desc]) := if_pos other
    rw [switched]
    refine ⟨⟨blob, d.size, [d]⟩, push_new (by omega), grouped.append_new other keyed, ?_⟩
    rw [descs_append (done ++ [desc]), descs_singleton]
  · -- the descriptor joins the last vector
    have same : blob.blobIndex = desc.blob.blobIndex := not_not.mp other
    have switched : switch blob desc done = (desc, done) := if_neg other
    rw [switched]
    dsimp only
    refine ⟨_, push_eq_ok same.symm (by omega), grouped.append_same same keyed, ?_⟩
    simp

end BlobIoVec

open BlobIoVec

/-- What a read of `len` bytes at `offset` of a file of `size` bytes cut into chunks of `cs`
bytes asks of the vectors `vecs` an allocation returns. The descriptors, in order, read the
parts of the chunks the read meets (`reads d (j, o, l)`: descriptor `d` reads `l` bytes at `o`
of chunk `j`); placed at their chunks they tile the bytes read; the vectors are the maximal
runs of one blob of the descriptors, each of its blob and of the size of its descriptors;
and the sizes of the vectors add up to the bytes read. -/
structure ReadsRange (reads : BlobIoDesc → Nat × Nat × Nat → Prop) (cs size offset len : Nat)
    (vecs : List BlobIoVec) : Prop where
  parts : List.Forall₂ (fun d p => reads d p ∧ d.offset = p.2.1 ∧ d.size = p.2.2) (descs vecs)
    (cut cs offset (min (offset + len) size))
  tiles : Tiles (List.zipWith (fun d p => (p.1 * cs + d.offset, d.size)) (descs vecs)
    (cut cs offset (min (offset + len) size))) offset (min (offset + len) size)
  runs : vecs.map (·.bios) = (descs vecs).splitBy sameBlob
  ofBlob : ∀ v ∈ vecs, ∀ d ∈ v.bios, d.chunkinfo.blobIndex = v.blob.blobIndex
  sized : ∀ v ∈ vecs, v.size = (v.bios.map (·.size)).sum
  total : total vecs = min len (size - offset)

/-- Grouped vectors whose descriptors read the parts of a non-empty read are what the read
asks for. -/
theorem ReadsRange.of_grouped {reads : BlobIoDesc → Nat × Nat × Nat → Prop}
    {cs size offset len : Nat} {vecs : List BlobIoVec} (pos : 0 < cs) (within : offset < size)
    (nonempty : 0 < len) (grouped : Grouped vecs)
    (parts : List.Forall₂ (fun d p => reads d p ∧ d.offset = p.2.1 ∧ d.size = p.2.2) (descs vecs)
      (cut cs offset (min (offset + len) size))) :
    ReadsRange reads cs size offset len vecs where
  parts := parts
  tiles := by
    rw [zipWith_eq_map_of_forall₂ parts (g := extent cs) (fun d p read => by
      simp only [extent, read.2.1, read.2.2])]
    exact cut_tiles pos (by omega)
  runs := grouped.runs
  ofBlob := grouped.ofBlob
  sized := grouped.sized
  total := by
    rw [grouped.total_eq, map_eq_map_of_forall₂ parts (g := fun p => p.2.2) (fun _ _ read => read.2.2),
      sum_cut pos (by omega)]
    omega

end Nydus
