import Mathlib
/-!
# Maximal runs

The members of a set of naturals fall into maximal runs of consecutive numbers.
`IsMaximalRuns S rs` says that `rs` lists them, lowest first, each as its first and last
member. A set met in increasing order is encoded run by run: the next member either extends
the last run (`IsMaximalRuns.extend`) or, past a gap, opens a new one (`IsMaximalRuns.push`).
-/

namespace Runs

/-- `rs` lists the maximal runs of consecutive members of `S`, lowest first, each as its first
and last member: every member lies in one of them, and a run ends at least two below the
start of the next. -/
structure IsMaximalRuns (S : Nat → Prop) (rs : List (Nat × Nat)) : Prop where
  ordered : ∀ r ∈ rs, r.1 ≤ r.2
  apart : rs.IsChain fun r r' => r.2 + 1 < r'.1
  covers : ∀ n, S n ↔ ∃ r ∈ rs, r.1 ≤ n ∧ n ≤ r.2

namespace IsMaximalRuns

variable {S : Nat → Prop} {rs : List (Nat × Nat)} {a b n : Nat}

theorem nil : IsMaximalRuns (fun _ => False) [] where
  ordered _ mem := absurd mem List.not_mem_nil
  apart := List.IsChain.nil
  covers _ := by simp

/-- The runs of a set are those of any set with the same members. -/
theorem of_iff {S' : Nat → Prop} (runs : IsMaximalRuns S rs) (same : ∀ n, S n ↔ S' n) :
    IsMaximalRuns S' rs where
  ordered := runs.ordered
  apart := runs.apart
  covers n := (same n).symm.trans (runs.covers n)

theorem single (n : Nat) : IsMaximalRuns (· = n) [(n, n)] where
  ordered r mem := by
    rw [List.mem_singleton] at mem
    rw [mem]
  apart := List.isChain_singleton _
  covers m := by
    simp only [List.mem_singleton, exists_eq_left]
    omega

/-- The member right after the last run extends it. -/
theorem extend (runs : IsMaximalRuns S (rs ++ [(a, b)])) :
    IsMaximalRuns (fun m => S m ∨ m = b + 1) (rs ++ [(a, b + 1)]) where
  ordered r mem := by
    rcases List.mem_append.mp mem with earlier | last
    · exact runs.ordered r (List.mem_append_left _ earlier)
    · rw [List.mem_singleton] at last
      have := runs.ordered (a, b) (List.mem_append_right _ List.mem_cons_self)
      rw [last]
      exact Nat.le_succ_of_le this
  apart := by
    have chain := List.isChain_append.mp runs.apart
    -- only the end of the last run moves, and the gap before it is at its start
    exact List.isChain_append.mpr ⟨chain.1, List.isChain_singleton _,
      fun x x_last y y_head => by
        rw [List.head?_cons, Option.mem_some_iff] at y_head
        rw [← y_head]
        exact chain.2.2 x x_last (a, b) rfl⟩
  covers m := by
    have start := runs.ordered (a, b) (List.mem_append_right _ List.mem_cons_self)
    rw [runs.covers]
    simp only [List.mem_append, List.mem_singleton]
    constructor
    · rintro (⟨r, earlier | rfl, lo, hi⟩ | rfl)
      · exact ⟨r, .inl earlier, lo, hi⟩
      · exact ⟨(a, b + 1), .inr rfl, lo, Nat.le_succ_of_le hi⟩
      · exact ⟨(a, b + 1), .inr rfl, Nat.le_succ_of_le start, le_rfl⟩
    · rintro ⟨r, earlier | rfl, lo, hi⟩
      · exact .inl ⟨r, .inl earlier, lo, hi⟩
      · by_cases within : m ≤ b
        · exact .inl ⟨(a, b), .inr rfl, lo, within⟩
        · exact .inr (by simp only at hi; omega)

/-- A member past a gap after the last run opens a run of its own. -/
theorem push (runs : IsMaximalRuns S (rs ++ [(a, b)])) (gap : b + 1 < n) :
    IsMaximalRuns (fun m => S m ∨ m = n) (rs ++ [(a, b), (n, n)]) where
  ordered r mem := by
    rw [show rs ++ [(a, b), (n, n)] = (rs ++ [(a, b)]) ++ [(n, n)] by simp] at mem
    rcases List.mem_append.mp mem with earlier | last
    · exact runs.ordered r earlier
    · rw [List.mem_singleton] at last
      rw [last]
  apart := by
    rw [show rs ++ [(a, b), (n, n)] = (rs ++ [(a, b)]) ++ [(n, n)] by simp]
    refine List.isChain_append.mpr ⟨runs.apart, List.isChain_singleton _, fun x x_last y y_head => ?_⟩
    rw [List.getLast?_append, List.getLast?_singleton, Option.some_or, Option.mem_some_iff] at x_last
    rw [List.head?_cons, Option.mem_some_iff] at y_head
    rw [← x_last, ← y_head]
    exact gap
  covers m := by
    rw [runs.covers]
    simp only [List.mem_append, List.mem_cons, List.not_mem_nil, or_false]
    constructor
    · rintro (⟨r, earlier | rfl, lo, hi⟩ | rfl)
      · exact ⟨r, .inl earlier, lo, hi⟩
      · exact ⟨(a, b), .inr (.inl rfl), lo, hi⟩
      · exact ⟨(m, m), .inr (.inr rfl), le_rfl, le_rfl⟩
    · rintro ⟨r, earlier | rfl | rfl, lo, hi⟩
      · exact .inl ⟨r, .inl earlier, lo, hi⟩
      · exact .inl ⟨(a, b), .inr rfl, lo, hi⟩
      · exact .inr (by simp only at lo hi; omega)

end IsMaximalRuns

end Runs
