import Mathlib
/-!
# Sorted maps

An ordered map (a `BTreeMap`) is the list of its entries in ascending order of keys, and
iterating it reads that list. The operations code performs on it are a lookup, a change of
the value under a key that is present (`modify`), the entry API's "insert a default when absent,
then change it" (`upsert`), and a change of every value (`mapValues`). Each keeps the keys
ascending, which `SortedMap` carries as a field, and each is described by what a lookup reads
after it (`get?_modify`, `get?_upsert`, `get?_mapValues`).
-/

/-- A map as its entries, keys strictly ascending. -/
structure SortedMap (κ ν : Type) [LT κ] where
  entries : List (κ × ν)
  sorted : entries.Pairwise fun e e' => e.1 < e'.1

namespace SortedMap

variable {κ ν : Type}

/-! ## Entry lists -/

section Lookup

variable [DecidableEq κ]

/-- The value of the first entry under `k`. -/
def lookup (k : κ) : List (κ × ν) → Option ν
  | [] => none
  | (k', v) :: rest => if k = k' then some v else lookup k rest

/-- Every entry under `k` with its value changed by `f`. -/
def modifyEntries (k : κ) (f : ν → ν) (entries : List (κ × ν)) : List (κ × ν) :=
  entries.map fun e => if e.1 = k then (e.1, f e.2) else e

theorem keys_modifyEntries (k : κ) (f : ν → ν) (entries : List (κ × ν)) :
    (modifyEntries k f entries).map Prod.fst = entries.map Prod.fst := by
  rw [modifyEntries, List.map_map]
  apply List.map_congr_left
  intro e _
  by_cases at_k : e.1 = k <;> simp [at_k]

theorem lookup_modifyEntries (k : κ) (f : ν → ν) (x : κ) :
    ∀ entries : List (κ × ν),
      lookup x (modifyEntries k f entries) = if x = k then (lookup x entries).map f else lookup x entries
  | [] => by simp [modifyEntries, lookup]
  | (k', v) :: rest => by
    have restLookup := lookup_modifyEntries k f x rest
    rw [modifyEntries, List.map_cons, ← modifyEntries] at *
    by_cases atHead : x = k'
    · subst atHead
      by_cases atK : x = k <;> simp [lookup, atK]
    · by_cases headK : k' = k
      · simp only [headK, if_true, lookup, if_neg (headK ▸ atHead), restLookup]
      · simp only [headK, if_false, lookup, if_neg atHead, restLookup]

theorem lookup_map (f : ν → ν) (x : κ) :
    ∀ entries : List (κ × ν), lookup x (entries.map fun e => (e.1, f e.2)) = (lookup x entries).map f
  | [] => rfl
  | (k', v) :: rest => by
    by_cases atHead : x = k' <;> simp [lookup, atHead, lookup_map f x rest]

theorem mem_of_lookup {k : κ} {v : ν} :
    ∀ {entries : List (κ × ν)}, lookup k entries = some v → (k, v) ∈ entries
  | [], found => by cases found
  | (k', v') :: rest, found => by
    rw [lookup] at found
    split at found
    · next atHead =>
      cases found
      rw [atHead]
      exact List.mem_cons_self
    · exact List.mem_cons_of_mem _ (mem_of_lookup found)

section Strict

variable [LT κ] [LE κ] [Std.LawfulOrderLT κ]

theorem lookup_eq_none_of_lt {k : κ} :
    ∀ {entries : List (κ × ν)}, (∀ e ∈ entries, k < e.1) → lookup k entries = none
  | [], _ => rfl
  | (k', v) :: rest, above => by
    have atHead : k < k' := above (k', v) List.mem_cons_self
    have notHead : k ≠ k' := fun same => Std.lt_irrefl (same ▸ atHead)
    rw [lookup, if_neg notHead]
    exact lookup_eq_none_of_lt fun e mem => above e (List.mem_cons_of_mem _ mem)

theorem lookup_of_mem {k : κ} {v : ν} :
    ∀ {entries : List (κ × ν)}, entries.Pairwise (fun e e' => e.1 < e'.1) → (k, v) ∈ entries →
      lookup k entries = some v
  | [], _, mem => absurd mem List.not_mem_nil
  | (k', v') :: rest, sorted, mem => by
    have after := List.pairwise_cons.mp sorted
    rcases List.mem_cons.mp mem with same | later
    · cases same
      simp [lookup]
    · -- a later entry's key lies past the head's
      have past : k' < k := after.1 (k, v) later
      have notHead : k ≠ k' := fun eq => Std.lt_irrefl (eq ▸ past)
      rw [lookup, if_neg notHead]
      exact lookup_of_mem after.2 later

end Strict

end Lookup

/-! ## Maps -/

variable [LT κ]

/-- The empty map. -/
def empty : SortedMap κ ν := ⟨[], .nil⟩

/-- Every value changed by `f`, as a `for v in m.values_mut()` loop does. -/
def mapValues (m : SortedMap κ ν) (f : ν → ν) : SortedMap κ ν :=
  ⟨m.entries.map fun e => (e.1, f e.2), List.pairwise_map.mpr m.sorted⟩

theorem keys_mapValues (m : SortedMap κ ν) (f : ν → ν) :
    (m.mapValues f).entries.map Prod.fst = m.entries.map Prod.fst := by
  simp [mapValues]

variable [DecidableEq κ]

/-- The value under `k`. -/
def get? (m : SortedMap κ ν) (k : κ) : Option ν := lookup k m.entries

/-- `if let Some(v) = m.get_mut(k) { f(v) }`. -/
def modify (m : SortedMap κ ν) (k : κ) (f : ν → ν) : SortedMap κ ν :=
  ⟨modifyEntries k f m.entries, by
    have sorted := m.sorted.map Prod.fst fun _ _ lt => lt
    rw [← keys_modifyEntries k f] at sorted
    exact List.pairwise_map.mp sorted⟩

theorem get?_modify (m : SortedMap κ ν) (k : κ) (f : ν → ν) (x : κ) :
    (m.modify k f).get? x = if x = k then (m.get? x).map f else m.get? x :=
  lookup_modifyEntries k f x m.entries

theorem get?_mapValues (m : SortedMap κ ν) (f : ν → ν) (x : κ) :
    (m.mapValues f).get? x = (m.get? x).map f :=
  lookup_map f x m.entries

theorem keys_modify (m : SortedMap κ ν) (k : κ) (f : ν → ν) :
    (m.modify k f).entries.map Prod.fst = m.entries.map Prod.fst :=
  keys_modifyEntries k f m.entries

/-- A lookup reads exactly the entries of the map. -/
theorem get?_eq_some_iff [LE κ] [Std.LawfulOrderLT κ] {m : SortedMap κ ν} {k : κ} {v : ν} :
    m.get? k = some v ↔ (k, v) ∈ m.entries :=
  ⟨mem_of_lookup, lookup_of_mem m.sorted⟩

/-! ## Insertion -/

variable [DecidableLT κ]

/-- The entry under `k` changed by `f`, or, where the keys pass `k` without meeting it, a new
entry `f d` put in their order. -/
def upsertEntries (k : κ) (d : ν) (f : ν → ν) : List (κ × ν) → List (κ × ν)
  | [] => [(k, f d)]
  | (k', v) :: rest =>
    if k < k' then (k, f d) :: (k', v) :: rest
    else if k = k' then (k', f v) :: rest
    else (k', v) :: upsertEntries k d f rest

theorem mem_keys_upsertEntries {k x : κ} {d : ν} {f : ν → ν} :
    ∀ {entries : List (κ × ν)}, x ∈ (upsertEntries k d f entries).map Prod.fst ↔
      x = k ∨ x ∈ entries.map Prod.fst
  | [] => by simp [upsertEntries]
  | (k', v) :: rest => by
    unfold upsertEntries
    split
    · simp
    · split
      · next same => simp [same]
      · simp only [List.map_cons, List.mem_cons, mem_keys_upsertEntries]
        tauto

section Order

variable [LE κ] [Std.IsLinearOrder κ] [Std.LawfulOrderLT κ]

theorem pairwise_upsertEntries (k : κ) (d : ν) (f : ν → ν) :
    ∀ {entries : List (κ × ν)}, entries.Pairwise (fun e e' => e.1 < e'.1) →
      (upsertEntries k d f entries).Pairwise fun e e' => e.1 < e'.1
  | [], _ => List.pairwise_singleton _ _
  | (k', v) :: rest, sorted => by
    have after := List.pairwise_cons.mp sorted
    unfold upsertEntries
    split
    · next before =>
      refine List.pairwise_cons.mpr ⟨fun e mem => ?_, sorted⟩
      rcases List.mem_cons.mp mem with rfl | later
      · exact before
      · exact Std.lt_trans before (after.1 e later)
    · split
      · next same =>
        subst same
        exact List.pairwise_cons.mpr ⟨after.1, after.2⟩
      · next notBefore notSame =>
        -- `k` lies past `k'`, so it goes among the later entries, all past `k'` too
        have past : k' < k := by
          rcases Std.lt_trichotomy k k' with lt | eq | gt
          · exact absurd lt notBefore
          · exact absurd eq notSame
          · exact gt
        refine List.pairwise_cons.mpr ⟨fun e mem => ?_, pairwise_upsertEntries k d f after.2⟩
        have key := (mem_keys_upsertEntries (d := d) (f := f)).mp (List.mem_map_of_mem mem)
        rcases key with atK | earlier
        · rw [atK]
          exact past
        · obtain ⟨e', mem', same⟩ := List.mem_map.mp earlier
          rw [← same]
          exact after.1 e' mem'

theorem lookup_upsertEntries (k : κ) (d : ν) (f : ν → ν) (x : κ) :
    ∀ {entries : List (κ × ν)}, entries.Pairwise (fun e e' => e.1 < e'.1) →
      lookup x (upsertEntries k d f entries) =
        if x = k then some (f ((lookup k entries).getD d)) else lookup x entries
  | [], _ => by
    by_cases atK : x = k <;> simp [upsertEntries, lookup, atK]
  | (k', v) :: rest, sorted => by
    have after := List.pairwise_cons.mp sorted
    unfold upsertEntries
    split
    · next before =>
      -- a new entry in front: `k` was under no key, since all of them lie past it
      have absent : lookup k ((k', v) :: rest) = none :=
        lookup_eq_none_of_lt fun e mem => by
          rcases List.mem_cons.mp mem with rfl | later
          · exact before
          · exact Std.lt_trans before (after.1 e later)
      rw [absent, Option.getD_none]
      by_cases atK : x = k
      · simp [lookup, atK]
      · rw [lookup, if_neg atK]
    · split
      · next same =>
        subst same
        by_cases atK : x = k <;> simp [lookup, atK]
      · next notBefore notSame =>
        have restLookup := lookup_upsertEntries k d f x after.2
        by_cases atHead : x = k'
        · subst atHead
          have : ¬x = k := fun eq => notSame (eq ▸ rfl)
          simp [lookup, this]
        · rw [lookup, if_neg atHead, restLookup, lookup, if_neg notSame, lookup, if_neg atHead]

/-- `m.entry(k).or_insert_with(|| d)` changed by `f`. -/
def upsert (m : SortedMap κ ν) (k : κ) (d : ν) (f : ν → ν) : SortedMap κ ν :=
  ⟨upsertEntries k d f m.entries, pairwise_upsertEntries k d f m.sorted⟩

theorem get?_upsert (m : SortedMap κ ν) (k : κ) (d : ν) (f : ν → ν) (x : κ) :
    (m.upsert k d f).get? x = if x = k then some (f ((m.get? k).getD d)) else m.get? x :=
  lookup_upsertEntries k d f x m.sorted

theorem mem_keys_upsert {m : SortedMap κ ν} {k x : κ} {d : ν} {f : ν → ν} :
    x ∈ (m.upsert k d f).entries.map Prod.fst ↔ x = k ∨ x ∈ m.entries.map Prod.fst :=
  mem_keys_upsertEntries

end Order

end SortedMap
