import Mathlib
import Nydus.Lib.Decimal
/-!
# PAX extended header data

`nydus-image unpack` writes what a ustar header cannot hold (long paths and link names,
extended attributes) into a PAX extended header section. Its data is a run of records
`"<len> <key>=<value>\n"`, where `<len>` is the decimal length of the whole record, its own
digits included (`PAXExtensionSectionBuilder::build_pax_record`), one record per extension,
sorted by key (`build_data`).

The record builder guesses the length's width from the length without it and corrects the
guess once. `buildPaxRecord_self_describing` says the correction always lands: the record
states its own length. Over it, `paxRecords` reads extended header data as the format defines
it, and `paxRecords_buildData` is the round trip: reading the built data gives back every
extension, in key order, as long as no key holds an `=`. The sort of `build_data` unwraps
`str::from_utf8` of the keys it compares, so that two records or more with a key that is not
UTF-8 panic (`buildData_eq_none_iff`).
-/

namespace Nydus

open Decimal

/-! ## The builder -/

def PAX_SEP1 : List UInt8 := [0x20]
def PAX_SEP2 : List UInt8 := [0x3d]
def PAX_DELIMITER : List UInt8 := [0x0a]

/-- One extension: a key and its value, both raw bytes. -/
structure PAXRecord where
  k : List UInt8
  v : List UInt8
deriving DecidableEq, Repr

/-- The inner `pax` of `build_pax_record`: the record that claims length `size`. -/
def pax (size : Nat) (k v : List UInt8) : List UInt8 :=
  decimal size ++ PAX_SEP1 ++ k ++ PAX_SEP2 ++ v ++ PAX_DELIMITER

/-- `build_pax_record`: the length is guessed from the width of the length without its digits,
and if the record built with the guess is longer than it, rebuilt once with its actual length. -/
def buildPaxRecord (k v : List UInt8) : List UInt8 :=
  let size := k.length + v.length + PAX_SEP1.length + PAX_SEP2.length + PAX_DELIMITER.length
  let size := size + (decimal size).length
  let record := pax size k v
  if record.length ≠ size then pax record.length k v else record

/-- A continuation byte of UTF-8: `10xxxxxx`. -/
def isCont (b : UInt8) : Bool := 0x80 ≤ b && b ≤ 0xbf

/-- The bytes `str::from_utf8` accepts: well-formed UTF-8, sequence by sequence, with the
ranges of the second byte that rule out overlong forms, surrogates and code points past
U+10FFFF (`run_utf8_validation`). -/
def isUtf8 : List UInt8 → Bool
  | [] => true
  | b :: rest =>
    if b < 0x80 then isUtf8 rest
    else match rest with
      | [] => false
      | c :: rest =>
        if 0xc2 ≤ b ∧ b ≤ 0xdf then isCont c && isUtf8 rest
        else match rest with
          | [] => false
          | d :: rest =>
            if b = 0xe0 then (0xa0 ≤ c && c ≤ 0xbf) && isCont d && isUtf8 rest
            else if (0xe1 ≤ b ∧ b ≤ 0xec) ∨ b = 0xee ∨ b = 0xef then
              isCont c && isCont d && isUtf8 rest
            else if b = 0xed then (0x80 ≤ c && c ≤ 0x9f) && isCont d && isUtf8 rest
            else match rest with
              | [] => false
              | e :: rest =>
                if b = 0xf0 then (0x90 ≤ c && c ≤ 0xbf) && isCont d && isCont e && isUtf8 rest
                else if 0xf1 ≤ b ∧ b ≤ 0xf3 then isCont c && isCont d && isCont e && isUtf8 rest
                else if b = 0xf4 then (0x80 ≤ c && c ≤ 0x8f) && isCont d && isCont e && isUtf8 rest
                else false

/-- `build_data`: the extensions sorted by key and their records concatenated. The comparator
unwraps `str::from_utf8` of both keys and compares the strings, which is the byte-wise order of
the keys; the sort is stable. A sort of two records or more compares every one of them (a
record it never compared could go anywhere), so that a key that is not UTF-8 then panics
(`none`). -/
def buildData (extensions : List PAXRecord) : Option (List UInt8) :=
  if 2 ≤ extensions.length ∧ extensions.any (fun r => !isUtf8 r.k) then none
  else some ((extensions.mergeSort fun r1 r2 => decide (r1.k ≤ r2.k)).flatMap fun r =>
    buildPaxRecord r.k r.v)

theorem pax_eq_cons (size : Nat) (k v : List UInt8) :
    pax size k v = decimal size ++ 0x20 :: (k ++ 0x3d :: (v ++ [0x0a])) := by
  simp only [pax, PAX_SEP1, PAX_SEP2, PAX_DELIMITER, List.append_assoc, List.cons_append,
    List.nil_append]

theorem length_pax (size : Nat) (k v : List UInt8) :
    (pax size k v).length = Nat.log 10 size + 1 + (k.length + v.length + 3) := by
  simp only [pax_eq_cons, List.length_append, List.length_cons, List.length_nil, length_decimal]
  omega

/-- The builder's result is a record whose stated length is its length. The guess is short by
one exactly when the digits of the length carry it across a power of ten; then the rebuilt
record is one byte longer, and its length still has the wider width (`log_succ_add_width`). -/
theorem buildPaxRecord_fixed (k v : List UInt8) :
    ∃ size, buildPaxRecord k v = pax size k v ∧ (pax size k v).length = size := by
  -- the record without its length field
  generalize base_def : k.length + v.length + 3 = base
  have guess : (k.length + v.length + PAX_SEP1.length + PAX_SEP2.length +
      PAX_DELIMITER.length) + (decimal (k.length + v.length + PAX_SEP1.length +
      PAX_SEP2.length + PAX_DELIMITER.length)).length = base + (Nat.log 10 base + 1) := by
    simp only [PAX_SEP1, PAX_SEP2, PAX_DELIMITER, List.length_singleton, length_decimal]
    rw [show k.length + v.length + 1 + 1 + 1 = base by omega]
  have widens : Nat.log 10 base ≤ Nat.log 10 (base + (Nat.log 10 base + 1)) :=
    Nat.log_mono_right (by omega)
  have built : ∀ size, (pax size k v).length = Nat.log 10 size + 1 + base := by
    intro size
    rw [length_pax, base_def]
  simp only [buildPaxRecord, guess, built]
  by_cases same : Nat.log 10 (base + (Nat.log 10 base + 1)) = Nat.log 10 base
  · -- the guessed width was right: the first record is kept
    refine ⟨base + (Nat.log 10 base + 1), ?_, ?_⟩
    · rw [if_neg (by omega)]
    · omega
  · -- the length crossed a power of ten: the record is rebuilt one byte longer
    have crosses : Nat.log 10 (base + (Nat.log 10 base + 1)) = Nat.log 10 base + 1 := by
      have := log_add_width_le base
      omega
    refine ⟨base + (Nat.log 10 base + 1) + 1, ?_, ?_⟩
    · rw [if_pos (by omega), crosses]
      congr 1
      omega
    · rw [log_succ_add_width crosses]
      omega

theorem buildPaxRecord_self_describing (k v : List UInt8) :
    buildPaxRecord k v =
      decimal (buildPaxRecord k v).length ++ PAX_SEP1 ++ k ++ PAX_SEP2 ++ v ++ PAX_DELIMITER := by
  obtain ⟨size, built, fixed⟩ := buildPaxRecord_fixed k v
  rw [built, fixed]
  rfl

-- "101 ": a 98-byte record would need two digits, but then it is 100 bytes long and needs three
example : (buildPaxRecord (List.replicate 4 0x61) (List.replicate 91 0x62)).take 4 =
    [0x31, 0x30, 0x31, 0x20] := by
  rfl

/-! ## Reading extended header data back

The format's own reading of the data, independent of how it was built: a record starts with
its length in decimal and a space, runs for that many bytes and ends with a newline; its key
runs to the first `=` and its value to that newline. -/

/-- The first record of `data` and what follows it, if `data` starts with a well-formed one. -/
def readRecord (data : List UInt8) : Option ((List UInt8 × List UInt8) × List UInt8) :=
  let lenField := data.takeWhile (· != 0x20)
  let size := digitsValue lenField
  let record := data.take size
  let body := (record.drop (lenField.length + 1)).dropLast
  let key := body.takeWhile (· != 0x3d)
  if lenField ≠ [] ∧ lenField.all isDigit ∧ lenField.length + 1 < size ∧ size ≤ data.length ∧
      record.getLast? = some 0x0a ∧ key.length < body.length then
    some ((key, body.drop (key.length + 1)), data.drop size)
  else none

/-- Every record of `data`, read one after another; `fuel` bounds the number of records. -/
def readRecords : Nat → List UInt8 → Option (List (List UInt8 × List UInt8))
  | _, [] => some []
  | 0, _ :: _ => none
  | fuel + 1, data@(_ :: _) => do
    let (entry, rest) ← readRecord data
    let entries ← readRecords fuel rest
    return entry :: entries

/-- The records of a whole extended header section; no record is shorter than a byte, so the
data's length is fuel enough. -/
def paxRecords (data : List UInt8) : Option (List (List UInt8 × List UInt8)) :=
  readRecords data.length data

theorem takeWhile_decimal_space (n : Nat) (rest : List UInt8) :
    (decimal n ++ 0x20 :: rest).takeWhile (· != 0x20) = decimal n := by
  have digits : ∀ b ∈ decimal n, (b != 0x20) = true := by
    intro b mem
    have := isDigit_of_mem_decimal b mem
    simp only [isDigit, Bool.and_eq_true, decide_eq_true_eq] at this
    simp only [bne_iff_ne, ne_eq]
    rintro rfl
    simp at this
  rw [List.takeWhile_append_of_pos digits, List.takeWhile_cons_of_neg (by simp),
    List.append_nil]

theorem takeWhile_key {k : List UInt8} (noEq : 0x3d ∉ k) (rest : List UInt8) :
    (k ++ 0x3d :: rest).takeWhile (· != 0x3d) = k := by
  have keyBytes : ∀ b ∈ k, (b != 0x3d) = true := by
    intro b mem
    simp only [bne_iff_ne, ne_eq]
    rintro rfl
    exact noEq mem
  rw [List.takeWhile_append_of_pos keyBytes, List.takeWhile_cons_of_neg (by simp),
    List.append_nil]

/-- A record that states its own length and whose key has no `=` is read back, whatever follows
it. -/
theorem readRecord_pax {size : Nat} {k v : List UInt8} (fixed : (pax size k v).length = size)
    (noEq : 0x3d ∉ k) (rest : List UInt8) :
    readRecord (pax size k v ++ rest) = some ((k, v), rest) := by
  have len : size = (decimal size).length + (k.length + v.length + 3) := by
    have stated := fixed
    simp only [pax_eq_cons, List.length_append, List.length_cons, List.length_nil] at stated
    omega
  have record : (pax size k v ++ rest).take size = pax size k v := List.take_left' fixed
  have body : ((pax size k v).drop ((decimal size).length + 1)).dropLast =
      k ++ 0x3d :: v := by
    rw [pax_eq_cons, List.drop_length_add_append, List.drop_one, List.tail_cons,
      show k ++ 0x3d :: (v ++ [0x0a]) = (k ++ 0x3d :: v) ++ [0x0a] by simp, List.dropLast_concat]
  have lastByte : (pax size k v).getLast? = some 0x0a := by
    rw [pax, List.getLast?_append]
    rfl
  have whole : (pax size k v ++ rest).takeWhile (· != 0x20) = decimal size := by
    rw [pax_eq_cons, List.append_assoc, List.cons_append]
    exact takeWhile_decimal_space size _
  unfold readRecord
  simp only [whole, digitsValue_decimal, record, body, takeWhile_key noEq]
  rw [if_pos]
  · rw [List.drop_length_add_append, List.drop_one, List.tail_cons, List.drop_left' fixed]
  · refine ⟨decimal_ne_nil size, List.all_eq_true.mpr fun b mem => isDigit_of_mem_decimal b mem,
      by omega, by simp [fixed], lastByte, by simp⟩

theorem readRecords_succ {fuel : Nat} {data : List UInt8} (nonempty : data ≠ []) :
    readRecords (fuel + 1) data = (do
      let (entry, rest) ← readRecord data
      let entries ← readRecords fuel rest
      return entry :: entries) := by
  cases data with
  | nil => exact absurd rfl nonempty
  | cons _ _ => rfl

/-- The records of a list of extensions, each built by `buildPaxRecord`, are read back in order.
The induction is on the extensions; each step reads one record with `readRecord_pax`. -/
theorem readRecords_flatMap (recs : List PAXRecord) (noEq : ∀ r ∈ recs, 0x3d ∉ r.k) :
    ∀ fuel, (recs.flatMap fun r => buildPaxRecord r.k r.v).length ≤ fuel →
      readRecords fuel (recs.flatMap fun r => buildPaxRecord r.k r.v) =
        some (recs.map fun r => (r.k, r.v)) := by
  induction recs with
  | nil =>
    intro fuel _
    cases fuel <;> rfl
  | cons r recs ih =>
    intro fuel enough
    obtain ⟨size, built, fixed⟩ := buildPaxRecord_fixed r.k r.v
    have noEqHere : 0x3d ∉ r.k := noEq r List.mem_cons_self
    have restOk := ih fun r' mem => noEq r' (List.mem_cons_of_mem r mem)
    rw [List.flatMap_cons, built] at enough ⊢
    have recordLen : 0 < (pax size r.k r.v).length := by
      rw [length_pax]
      omega
    obtain ⟨fuel, rfl⟩ : ∃ fuel', fuel = fuel' + 1 :=
      Nat.exists_eq_add_one_of_ne_zero (by rw [List.length_append] at enough; omega)
    have nonempty : pax size r.k r.v ++ (recs.flatMap fun r => buildPaxRecord r.k r.v) ≠ [] :=
      List.append_ne_nil_of_left_ne_nil (List.ne_nil_of_length_pos recordLen) _
    rw [readRecords_succ nonempty, readRecord_pax fixed noEqHere]
    rw [List.length_append] at enough
    simp only [Option.bind_eq_bind, Option.bind_some, restOk fuel (by omega), List.map_cons]
    rfl

/-- `build_data` panics exactly when it sorts two records or more and a key is not UTF-8. -/
theorem buildData_eq_none_iff (extensions : List PAXRecord) :
    buildData extensions = none ↔
      2 ≤ extensions.length ∧ ∃ r ∈ extensions, isUtf8 r.k = false := by
  unfold buildData
  split
  · next panics => simpa using panics
  · next sorts => simpa using sorts

example : buildData [⟨[0xe9], [0x31]⟩, ⟨[0x61], [0x32]⟩] = none := by decide

/-- Reading back what `build_data` writes gives every extension's key and value, sorted by key,
as long as no key holds an `=` (the first `=` of a record ends its key). -/
theorem paxRecords_buildData {extensions : List PAXRecord} {data : List UInt8}
    (noEq : ∀ r ∈ extensions, 0x3d ∉ r.k) (built : buildData extensions = some data) :
    paxRecords data =
      some ((extensions.mergeSort fun r1 r2 => decide (r1.k ≤ r2.k)).map fun r => (r.k, r.v)) := by
  have sortedNoEq : ∀ r ∈ extensions.mergeSort (fun r1 r2 => decide (r1.k ≤ r2.k)), 0x3d ∉ r.k :=
    fun r mem => noEq r ((List.mergeSort_perm _ _).mem_iff.mp mem)
  unfold buildData at built
  split at built
  · cases built
  · cases built
    exact readRecords_flatMap _ sortedNoEq _ le_rfl

/-- The round trip in the format's own terms: `build_data` gives data unless it panics on a key
that is not UTF-8, and reading back what it writes gives the extensions' keys and values, each
as often as it was given, in ascending order of keys. -/
theorem buildData_round_trip (extensions : List PAXRecord) (noEq : ∀ r ∈ extensions, 0x3d ∉ r.k) :
    (buildData extensions = none ↔
      2 ≤ extensions.length ∧ ∃ r ∈ extensions, isUtf8 r.k = false) ∧
    ∀ data, buildData extensions = some data →
      ∃ entries, paxRecords data = some entries ∧
        entries.Perm (extensions.map fun r => (r.k, r.v)) ∧
        entries.Pairwise fun e e' => e.1 ≤ e'.1 := by
  refine ⟨buildData_eq_none_iff extensions, fun data built => ?_⟩
  refine ⟨_, paxRecords_buildData noEq built, (List.mergeSort_perm _ _).map _, ?_⟩
  have sorted := @List.pairwise_mergeSort _ (fun r1 r2 : PAXRecord => decide (r1.k ≤ r2.k))
    (fun a b c ab bc => by simpa using List.le_trans (of_decide_eq_true ab) (of_decide_eq_true bc))
    (fun a b => by simpa using List.le_total a.k b.k) extensions
  rw [List.pairwise_map]
  exact sorted.imp of_decide_eq_true

/-- An extended attribute `SCHILY.xattr.x=1` and a long path `path=/a=`, given out of order. -/
def xattrAndPath : List PAXRecord :=
  [⟨[0x53, 0x43, 0x48, 0x49, 0x4c, 0x59, 0x2e, 0x78, 0x61, 0x74, 0x74, 0x72, 0x2e, 0x78], [0x31]⟩,
    ⟨[0x70, 0x61, 0x74, 0x68], [0x2f, 0x61, 0x3d]⟩]

theorem buildData_round_trip_xattrAndPath :
    (∀ r ∈ xattrAndPath, 0x3d ∉ r.k) ∧
    ∀ data, buildData xattrAndPath = some data →
      ∃ entries, paxRecords data = some entries ∧
        entries.Perm (xattrAndPath.map fun r => (r.k, r.v)) ∧
        entries.Pairwise fun e e' => e.1 ≤ e'.1 :=
  ⟨by decide, (buildData_round_trip xattrAndPath (by decide)).2⟩

end Nydus
