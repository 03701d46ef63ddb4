import Mathlib

/-!
# Regions of an address space

A region is a half-open range `[start, stop)` of addresses, stored as the pair
`(start, stop)`; an empty one (`stop ≤ start`) holds no address. Two regions are apart when
they share no address (`apart_iff_disjoint`). An allocator that hands out regions keeps
the list of everything it has handed out, together with what it still holds free,
pairwise apart. Handing out part of a free region, or a new region above everything so far,
keeps that list pairwise apart (`pairwise_replace`, `pairwise_append_above`).
-/

namespace Regions

/-- The addresses `[r.1, r.2)`. -/
abbrev Region := Nat × Nat

/-- Two regions share no address. -/
def Apart (r s : Region) : Prop := min r.2 s.2 ≤ max r.1 s.1

instance : DecidableRel Apart := fun r s => inferInstanceAs (Decidable (min r.2 s.2 ≤ max r.1 s.1))

/-- `s` lies inside `t`. -/
def Within (s t : Region) : Prop := t.1 ≤ s.1 ∧ s.2 ≤ t.2

variable {r s t u : Region}

theorem apart_iff_disjoint : Apart r s ↔ Disjoint (Set.Ico r.1 r.2) (Set.Ico s.1 s.2) :=
  Set.Ico_disjoint_Ico.symm

theorem Apart.symm (h : Apart r s) : Apart s r := by
  unfold Apart at *; omega

theorem apart_of_le (h : r.2 ≤ s.1) : Apart r s := by
  unfold Apart; omega

/-- Apart from a region is apart from everything inside it. -/
theorem Apart.within (h : Apart t u) (inside : Within s t) : Apart s u := by
  unfold Apart Within at *; omega

/-- Splitting a member `t` of a pairwise apart list into pieces that lie inside it and are
pairwise apart keeps the list pairwise apart. -/
theorem pairwise_replace {l pieces : List Region} (apart : (t :: l).Pairwise Apart)
    (inside : ∀ s ∈ pieces, Within s t) (pieces_apart : pieces.Pairwise Apart) :
    (pieces ++ l).Pairwise Apart := by
  rw [List.pairwise_cons] at apart
  refine List.pairwise_append.2 ⟨pieces_apart, apart.2, fun s mem u mem' => ?_⟩
  exact (apart.1 u mem').within (inside s mem)

/-- Regions that start at or above the end of every region of a pairwise apart list can be
added to it. -/
theorem pairwise_append_above {l new : List Region} {top : Nat} (apart : l.Pairwise Apart)
    (below : ∀ r ∈ l, r.2 ≤ top) (new_apart : new.Pairwise Apart) (above : ∀ s ∈ new, top ≤ s.1) :
    (l ++ new).Pairwise Apart :=
  List.pairwise_append.2 ⟨apart, new_apart, fun r mem s mem' =>
    apart_of_le ((below r mem).trans (above s mem'))⟩

/-- Pairwise apartness does not depend on the order of the list. -/
theorem pairwise_perm_iff {l l' : List Region} (perm : l.Perm l') :
    l.Pairwise Apart ↔ l'.Pairwise Apart :=
  perm.pairwise_iff Apart.symm

end Regions
