import Mathlib

/-!
# Splitting and trimming text

Text here is a list of characters, or of any elements with decidable equality. Three of the
operations of Rust's `str` are modelled on such lists: `splitn(2, sep)` (`splitOnce`),
`split` with a pattern of two characters (`splitOnPair`), and `trim_matches` with a predicate
(`trimBy`). `split` with one character is `List.splitOn`, and its lemmas are Mathlib's.

The lemmas say how each operation reads text that was put together from pieces: a split at a
separator that occurs nowhere else gives the pieces back, and trimming drops what surrounds a
piece whose ends are kept.
-/

namespace Text

variable {α : Type}

section Split

variable [DecidableEq α]

/-! ## The pattern of two elements -/

/-- Whether `a` directly followed by `b` occurs in the list. -/
def hasPair (a b : α) : List α → Bool
  | x :: y :: rest => (x = a ∧ y = b) || hasPair a b (y :: rest)
  | _ => false

/-- `split` with the pattern `[a, b]`: the pattern is searched left to right and each match
ends a piece, as `str::split` does with a string pattern. -/
def splitOnPair (a b : α) : List α → List (List α)
  | x :: y :: rest =>
    if x = a ∧ y = b then [] :: splitOnPair a b rest
    else (splitOnPair a b (y :: rest)).modifyHead (x :: ·)
  | l => [l]

variable {a b : α}

theorem hasPair_of_not_mem {l : List α} (absent : a ∉ l) : hasPair a b l = false := by
  induction l with
  | nil => rfl
  | cons x rest ih =>
    cases rest with
    | nil => rfl
    | cons y rest =>
      have : x ≠ a := fun same => absent (same ▸ List.mem_cons_self)
      simp only [hasPair, this, false_and, decide_false, Bool.false_or]
      exact ih fun mem => absent (List.mem_cons_of_mem x mem)

/-- The pattern occurs in a concatenation inside one of the parts or across the seam. -/
theorem hasPair_append (l₁ l₂ : List α) :
    hasPair a b (l₁ ++ l₂) =
      (hasPair a b l₁ || (decide (l₁.getLast? = some a ∧ l₂.head? = some b)) || hasPair a b l₂) := by
  induction l₁ with
  | nil => simp [hasPair]
  | cons x rest ih =>
    cases rest with
    | nil => cases l₂ <;> simp [hasPair]
    | cons y rest =>
      simp only [List.cons_append, hasPair] at ih ⊢
      rw [ih, List.getLast?_cons_cons]
      simp only [Bool.or_assoc]

theorem hasPair_cons_cons (x y : α) (rest : List α) :
    hasPair a b (x :: y :: rest) = (decide (x = a ∧ y = b) || hasPair a b (y :: rest)) := rfl

/-- A list in which the pattern does not occur is one piece. -/
theorem splitOnPair_of_hasPair {l : List α} (clean : hasPair a b l = false) :
    splitOnPair a b l = [l] := by
  induction l with
  | nil => rfl
  | cons x rest ih =>
    cases rest with
    | nil => rfl
    | cons y rest =>
      rw [hasPair_cons_cons, Bool.or_eq_false_iff, decide_eq_false_iff_not] at clean
      rw [splitOnPair, if_neg clean.1, ih clean.2]
      rfl

/-- The first match of the pattern ends the first piece. -/
theorem splitOnPair_append_cons_cons (distinct : a ≠ b) {p : List α} (clean : hasPair a b p = false)
    (rest : List α) : splitOnPair a b (p ++ a :: b :: rest) = p :: splitOnPair a b rest := by
  induction p with
  | nil => simp [splitOnPair]
  | cons x p ih =>
    cases p with
    | nil =>
      -- `x` is followed by `a`, which is not `b`: no match at `x`.
      rw [List.singleton_append, splitOnPair, if_neg (fun same => distinct same.2),
        splitOnPair, if_pos ⟨rfl, rfl⟩]
      rfl
    | cons y p =>
      rw [hasPair_cons_cons, Bool.or_eq_false_iff, decide_eq_false_iff_not] at clean
      rw [List.cons_append, List.cons_append, splitOnPair, if_neg clean.1, ← List.cons_append,
        ih clean.2]
      rfl

/-- Pieces joined by the pattern split back into the pieces. -/
theorem splitOnPair_intercalate (distinct : a ≠ b) :
    ∀ {ls : List (List α)}, ls ≠ [] → (∀ l ∈ ls, hasPair a b l = false) →
      splitOnPair a b (List.intercalate [a, b] ls) = ls
  | [], nonempty, _ => absurd rfl nonempty
  | [l], _, clean => by
    rw [List.intercalate_singleton]
    exact splitOnPair_of_hasPair (clean l List.mem_cons_self)
  | l :: l' :: ls, _, clean => by
    rw [List.intercalate_cons_cons, List.append_assoc, List.cons_append, List.cons_append,
      List.nil_append, splitOnPair_append_cons_cons distinct (clean l List.mem_cons_self),
      splitOnPair_intercalate distinct (List.cons_ne_nil _ _)
        fun l'' mem => clean l'' (List.mem_cons_of_mem l mem)]

/-! ## Splitting once -/

/-- `splitn(2, sep)`: the part before the first `sep` and the rest after it, or the whole
list when `sep` does not occur. -/
def splitOnce (sep : α) : List α → List (List α)
  | [] => [[]]
  | x :: rest => if x = sep then [[], rest] else (splitOnce sep rest).modifyHead (x :: ·)

theorem splitOnce_append_cons {sep : α} {p : List α} (absent : sep ∉ p) (rest : List α) :
    splitOnce sep (p ++ sep :: rest) = [p, rest] := by
  induction p with
  | nil => simp [splitOnce]
  | cons x p ih =>
    have other : x ≠ sep := fun same => absent (same ▸ List.mem_cons_self)
    rw [List.cons_append, splitOnce, if_neg other, ih fun mem => absent (List.mem_cons_of_mem x mem)]
    rfl

end Split

/-! ## Joining -/

/-- What holds of the separator and of every piece holds of their intercalation. -/
theorem forall_mem_intercalate {P : α → Prop} {sep : List α} (onSep : ∀ x ∈ sep, P x) :
    ∀ {ls : List (List α)}, (∀ l ∈ ls, ∀ x ∈ l, P x) → ∀ x ∈ List.intercalate sep ls, P x
  | [], _ => by simp
  | [l], onPieces => by
    rw [List.intercalate_singleton]
    exact onPieces l List.mem_cons_self
  | l :: l' :: ls, onPieces => by
    intro x mem
    rw [List.intercalate_cons_cons, List.mem_append, List.mem_append] at mem
    rcases mem with (inL | inSep) | inRest
    · exact onPieces l List.mem_cons_self x inL
    · exact onSep x inSep
    · exact forall_mem_intercalate onSep (fun l'' mem => onPieces l'' (List.mem_cons_of_mem l mem)) x inRest

/-! ## Trimming -/

/-- `trim_matches`: the list without its leading and trailing elements that satisfy `p`. -/
def trimBy (p : α → Bool) (l : List α) : List α := (l.dropWhile p).rdropWhile p

variable {p : α → Bool}

theorem rdropWhile_append_of_pos {l w : List α} (trailing : ∀ x ∈ w, p x = true) :
    (l ++ w).rdropWhile p = l.rdropWhile p := by
  rw [List.rdropWhile, List.reverse_append, List.dropWhile_append_of_pos (by simpa using trailing)]
  rfl

/-- Trimming drops what surrounds a list when all of it satisfies `p`. -/
theorem trimBy_append_of_pos {w m w' : List α} (leading : ∀ x ∈ w, p x = true)
    (trailing : ∀ x ∈ w', p x = true) : trimBy p (w ++ m ++ w') = trimBy p m := by
  rw [trimBy, List.append_assoc, List.dropWhile_append_of_pos leading, List.dropWhile_append]
  split
  · next dropped =>
    have gone : m.dropWhile p = [] := List.isEmpty_iff.mp dropped
    rw [trimBy, gone, List.dropWhile_eq_nil_iff.mpr trailing]
  · rw [rdropWhile_append_of_pos trailing]
    rfl

/-- Trimming keeps a list whose first and last elements do not satisfy `p`. -/
theorem trimBy_eq_self {l : List α} (first : ∀ x ∈ l.head?, p x = false)
    (last : ∀ x ∈ l.getLast?, p x = false) : trimBy p l = l := by
  have kept : l.dropWhile p = l := List.dropWhile_eq_self_iff.mpr fun nonempty => by
    have := first l[0] (by simp [List.head?_eq_getElem?])
    simp [this]
  rw [trimBy, kept, List.rdropWhile_eq_self_iff]
  intro nonempty
  have := last (l.getLast nonempty) (List.getLast?_eq_some_getLast nonempty ▸ rfl)
  simp [this]

end Text
