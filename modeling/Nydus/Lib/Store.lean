import Mathlib

/-!
# Ranges of growing stores

A store holds a list under each of its keys. A range of a list is read only where it lies
within the list, and a store grows into another when each list it holds is a prefix of
what the other holds under the same key. A range read from a store reads the same from
every store it grows into: data stays where it was while more is appended after it. A list
made of parts holds each part where the parts before it end.
-/

namespace Store

variable {κ α : Type}

/-- The `len` elements from `off` on, where they lie within `b`. -/
def readRange (b : List α) (off len : Nat) : Option (List α) :=
  if off + len ≤ b.length then some ((b.drop off).take len) else none

/-- The range `off`, `len` of what `S` holds under `k`. -/
def read (S : κ → Option (List α)) (k : κ) (off len : Nat) : Option (List α) :=
  (S k).bind fun b => readRange b off len

/-- `S'` holds, under each key `S` holds something under, that followed by more. -/
def Grows (S S' : κ → Option (List α)) : Prop :=
  ∀ k b, S k = some b → ∃ t, S' k = some (b ++ t)

theorem readRange_append {b d : List α} {off len : Nat} (t : List α)
    (h : readRange b off len = some d) : readRange (b ++ t) off len = some d := by
  unfold readRange at h ⊢
  split at h
  · rename_i fits
    cases h
    rw [if_pos (by simp only [List.length_append]; omega), List.drop_append_of_le_length (by omega),
      List.take_append_of_le_length (by simp only [List.length_drop]; omega)]
  · cases h

/-- What is appended after `p` is read back at `p`'s end. -/
theorem readRange_append_self (p w : List α) : readRange (p ++ w) p.length w.length = some w := by
  simp [readRange]

theorem Grows.refl (S : κ → Option (List α)) : Grows S S :=
  fun _ b h => ⟨[], by rw [h, List.append_nil]⟩

theorem Grows.trans {S S' S'' : κ → Option (List α)} (h₁ : Grows S S') (h₂ : Grows S' S'') :
    Grows S S'' := by
  intro k b hb
  obtain ⟨t, ht⟩ := h₁ k b hb
  obtain ⟨u, hu⟩ := h₂ k _ ht
  exact ⟨t ++ u, by rw [hu, List.append_assoc]⟩

/-- A range read from a store is read the same after growth. -/
theorem Grows.read_eq {S S' : κ → Option (List α)} (g : Grows S S') {k : κ} {off len : Nat}
    {d : List α} (h : read S k off len = some d) : read S' k off len = some d := by
  unfold read at h ⊢
  obtain ⟨b, held, range⟩ := Option.bind_eq_some_iff.mp h
  obtain ⟨t, grown⟩ := g k b held
  rw [grown, Option.bind_some]
  exact readRange_append t range

/-- A store that holds something under a key held it there. -/
theorem isSome_of_read {S : κ → Option (List α)} {k : κ} {off len : Nat} {d : List α}
    (h : read S k off len = some d) : (S k).isSome := by
  unfold read at h
  obtain ⟨b, held, -⟩ := Option.bind_eq_some_iff.mp h
  rw [held, Option.isSome_some]

/-- The slice of a concatenation that starts after the first `i` parts and is as long as
part `i` is part `i`. The induction is on the parts, with the index generalised. -/
theorem take_drop_flatten_map {α β : Type} (f : β → List α) :
    ∀ {parts : List β} {i : Nat} (h : i < parts.length),
      (((parts.map f).flatten.drop ((parts.take i).map fun p => (f p).length).sum).take
        (f parts[i]).length) = f parts[i]
  | p :: parts, 0, _ => by simp
  | p :: parts, i + 1, h => by
    have inner := take_drop_flatten_map f (Nat.lt_of_succ_lt_succ h)
    simp only [List.map_cons, List.flatten_cons, List.take_succ_cons, List.sum_cons,
      List.getElem_cons_succ]
    rw [List.drop_length_add_append]
    exact inner

end Store
