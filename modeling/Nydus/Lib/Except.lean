/-!
# Rules for `Except` computations

The models of fallible code in this development are `Except` computations written
with `do`. These rules take such a computation apart without unfolding `bind`: a
success of a sequence is a success of each step, a failure of the first step is the
failure of the sequence.
-/

namespace Except

variable {ε α β : Type}

@[simp] theorem ok_bind (a : α) (f : α → Except ε β) : (Except.ok a >>= f) = f a := rfl

@[simp] theorem error_bind (e : ε) (f : α → Except ε β) :
    (Except.error e >>= f) = Except.error e := rfl

/-- A sequence succeeds iff its first step does and the rest succeeds from there. -/
theorem bind_eq_ok {x : Except ε α} {f : α → Except ε β} {b : β} :
    (x >>= f) = .ok b ↔ ∃ a, x = .ok a ∧ f a = .ok b := by
  cases x with
  | error e => simp
  | ok a => simp

theorem mapError_eq_ok {ε' : Type} {x : Except ε α} {f : ε → ε'} {a : α} :
    x.mapError f = .ok a ↔ x = .ok a := by
  cases x with
  | error e => exact ⟨fun h => (nomatch h), fun h => (nomatch h)⟩
  | ok a' => exact ⟨fun h => by cases h; rfl, fun h => by cases h; rfl⟩

/-- A fold whose every step appends to its accumulator appends all of it. The induction is
on the list, with the accumulator generalised. -/
theorem foldlM_eq_ok_append {γ : Type} {f : List β → γ → Except ε (List β)} {g : γ → List β} :
    ∀ {l : List γ}, (∀ acc, ∀ c ∈ l, f acc c = .ok (acc ++ g c)) →
      ∀ acc, l.foldlM f acc = .ok (acc ++ l.flatMap g)
  | [], _, acc => by
    rw [List.foldlM_nil, List.flatMap_nil, List.append_nil]
    rfl
  | c :: l, step, acc => by
    have rest := foldlM_eq_ok_append fun acc' c' mem => step acc' c' (List.mem_cons_of_mem c mem)
    rw [List.foldlM_cons, step acc c List.mem_cons_self, ok_bind, rest, List.flatMap_cons,
      List.append_assoc]

end Except
