import Mathlib
import Nydus.Lib.Text

/-!
# The authentication challenge of a registry

When a registry refuses a request, it says how to authenticate in its `WWW-Authenticate`
header: `Bearer realm="..",service="..",scope=".."` for a token server, or `Basic realm=".."`.
`RegistryState::parse_auth` (`storage/src/backend/registry.rs`) reads the header with
`to_str().unwrap()`, splits the scheme off at the first space, cuts the parameters at each
`",`, and splits each parameter at its `=` signs, keeping the first two parts. The two
functions it calls of the `http` crate, `HeaderValue::to_str` and `HeaderValue::from_str`, are
a parameter (`HeaderText`), of which the results assume only the crate's documentation
(`HeaderText.Documented`); the crate's own scans satisfy it (`HeaderText.byScan_documented`).

For parameters whose values are plain (visible ASCII, no quote, no `=`, not starting with a
comma and not ending with a space) the parse gives every value back, in any order of the
parameters and with any spaces after the commas (`parseAuth_bearer`, `parseAuth_basic`).
Outside them it does not (`parseAuth_mangles`): a value is cut at its first `=`, loses its
trailing spaces unless it comes last, and a value that starts with a comma makes the whole
challenge unreadable; and a header with a byte outside visible ASCII makes `to_str` fail, so
that the `unwrap` panics.
-/

namespace Nydus

/-! ## The model -/

/-- `char::is_whitespace`: the Unicode `White_Space` property. -/
def isWhitespace (c : Char) : Bool :=
  let n := c.toNat
  (0x9 ≤ n && n ≤ 0xd) || n == 0x20 || n == 0x85 || n == 0xa0 || n == 0x1680 ||
    (0x2000 ≤ n && n ≤ 0x200a) || n == 0x2028 || n == 0x2029 || n == 0x202f || n == 0x205f ||
    n == 0x3000

/-- `str::trim`. -/
def trim (s : List Char) : List Char := Text.trimBy isWhitespace s

/-- A header value of the `http` crate: its bytes. -/
structure HeaderValue where
  bytes : List UInt8
deriving DecidableEq, Repr

/-- The characters of visible ASCII. -/
def Visible (c : Char) : Prop := 32 ≤ c.toNat ∧ c.toNat < 127

instance : DecidablePred Visible := fun c => inferInstanceAs (Decidable (32 ≤ c.toNat ∧ c.toNat < 127))

/-- What `parse_auth` calls of the `http` crate: `HeaderValue::to_str`, and
`HeaderValue::from_str` with the value kept as its text. The crate is not part of the
repository: the development assumes of the two functions only what `Documented` says. -/
structure HeaderText where
  toStr : HeaderValue → Option (List Char)
  fromStr : List Char → Option (List Char)

/-- The documented behaviour: `to_str` yields the text of a value whose bytes are all
visible ASCII and fails on a byte past ASCII; `from_str` accepts visible ASCII text. -/
structure HeaderText.Documented (http : HeaderText) : Prop where
  toStr_visible : ∀ v : HeaderValue, (∀ b ∈ v.bytes, 32 ≤ b.toNat ∧ b.toNat < 127) →
    http.toStr v = some (v.bytes.map fun b => Char.ofNat b.toNat)
  toStr_nonAscii : ∀ v : HeaderValue, (∃ b ∈ v.bytes, 127 ≤ b.toNat) → http.toStr v = none
  fromStr_visible : ∀ s, (∀ c ∈ s, Visible c) → http.fromStr s = some s

/-- The bytes the crate's `is_visible_ascii` lets through: visible ASCII, and tab. -/
def isVisibleAscii (b : UInt8) : Bool := (32 ≤ b && b < 127) || b == 9

/-- The crate's own scans: `to_str` tests every byte with `is_visible_ascii`, and `from_str`
every byte with `is_valid` (at least 32 other than DEL, or tab), which lets a character past
ASCII through. -/
def HeaderText.byScan : HeaderText where
  toStr v := if v.bytes.all isVisibleAscii then some (v.bytes.map fun b => Char.ofNat b.toNat) else none
  fromStr s := if s.all fun c => c == '\t' || (32 ≤ c.toNat && c.toNat != 127) then some s else none

/-- The value of an ASCII text, as `HeaderValue::from_static` makes it. -/
def HeaderValue.ofAscii (s : List Char) : HeaderValue := ⟨s.map fun c => UInt8.ofNat c.toNat⟩

structure BasicAuth where
  realm : List Char
deriving DecidableEq, Repr

structure BearerAuth where
  realm : List Char
  service : List Char
  scope : List Char
  header : Option (List Char)
deriving DecidableEq, Repr

inductive Auth where
  | basic (auth : BasicAuth)
  | bearer (auth : BearerAuth)
deriving DecidableEq, Repr

/-- The panics of `parse_auth`: the `unwrap` of `to_str` on the header, and the one of
`from_str` on the configured credentials. -/
inductive AuthPanic where
  | toStrUnwrap
  | fromStrUnwrap
deriving DecidableEq, Repr

/-- The loop over the parameters: each is trimmed and split at `=`, and its first two parts
give the key, trimmed, and the value, trimmed and stripped of quotes. A parameter with no `=`
ends the parse with `None`. The `HashMap` is a list, the latest insertion first, so that a
later key replaces an earlier one for `lookup`. -/
def parsePairs : List (List Char) → List (List Char × List Char) →
    Option (List (List Char × List Char))
  | [], paras => some paras
  | pair :: pairs, paras =>
    match (trim pair).splitOn '=' with
    | key :: value :: _ => parsePairs pairs ((trim key, Text.trimBy (· == '"') (trim value)) :: paras)
    | _ => none

/-- The `Basic` header of the configured credentials, which the `Bearer` branch makes;
`from_str` failing panics at its `unwrap`. -/
def basicHeader (http : HeaderText) : Option (List Char) → Except AuthPanic (Option (List Char))
  | none => .ok none
  | some auth =>
    match http.fromStr ("Basic ".toList ++ auth) with
    | some header => .ok (some header)
    | none => .error .fromStrUnwrap

/-- The body of `RegistryState::parse_auth` on the text of the header. Only a `Bearer`
challenge with its three parameters reads `header`, the credentials' `Basic` header. -/
def parseChallenge (header : Except AuthPanic (Option (List Char))) (source : List Char) :
    Except AuthPanic (Option Auth) :=
  match Text.splitOnce ' ' source with
  | scheme :: pairs :: _ =>
    match parsePairs (Text.splitOnPair '"' ',' (trim pairs)) [] with
    | none => .ok none
    | some paras =>
      if trim scheme = "Basic".toList then
        .ok (some (.basic ⟨(paras.lookup "realm".toList).getD []⟩))
      else if trim scheme = "Bearer".toList then
        match paras.lookup "realm".toList, paras.lookup "service".toList,
            paras.lookup "scope".toList with
        | some realm, some service, some scope =>
          header.map fun header => some (.bearer ⟨realm, service, scope, header⟩)
        | _, _, _ => .ok none
      else .ok none
  | _ => .ok none

/-- `RegistryState::parse_auth`. -/
def parseAuth (http : HeaderText) (source : HeaderValue) (auth : Option (List Char)) :
    Except AuthPanic (Option Auth) :=
  match http.toStr source with
  | none => .error .toStrUnwrap
  | some source => parseChallenge (basicHeader http auth) source

/-! ## Challenges with plain parameters -/

/-- A parameter `key="value`, after the spaces that precede it. -/
def paramText (spaces : Nat) (key value : List Char) : List Char :=
  List.replicate spaces ' ' ++ key ++ '=' :: '"' :: value

/-- The parameters of a challenge as `split("\",")` cuts them: the closing quote of each
value goes with the separator, but the last one's. -/
def challengePieces : List (Nat × List Char × List Char) → List (List Char)
  | [] => []
  | [(n, k, v)] => [paramText n k v ++ ['"']]
  | (n, k, v) :: rest => paramText n k v :: challengePieces rest

/-- The challenge `scheme key="value",key="value"`, with some spaces before each parameter. -/
def challenge (scheme : List Char) (params : List (Nat × List Char × List Char)) : List Char :=
  scheme ++ ' ' :: List.intercalate ['"', ','] (challengePieces params)

/-- A key `parse_auth` reads back: visible, with no space, `=` or quote. -/
structure PlainKey (k : List Char) : Prop where
  nonempty : k ≠ []
  chars : ∀ c ∈ k, Visible c ∧ c ≠ ' ' ∧ c ≠ '=' ∧ c ≠ '"'

/-- A value `parse_auth` reads back: visible, with no `=` or quote, not starting with a comma
and not ending with a space. -/
structure PlainValue (v : List Char) : Prop where
  chars : ∀ c ∈ v, Visible c ∧ c ≠ '=' ∧ c ≠ '"'
  noLeadingComma : v.head? ≠ some ','
  noTrailingSpace : v.getLast? ≠ some ' '

/-- The parameters of a challenge that `parse_auth` reads back: plain, with distinct keys. -/
structure PlainParams (params : List (Nat × List Char × List Char)) : Prop where
  nonempty : params ≠ []
  keys : (params.map (·.2.1)).Nodup
  plainKeys : ∀ p ∈ params, PlainKey p.2.1
  plainValues : ∀ p ∈ params, PlainValue p.2.2

theorem isWhitespace_eq_false {c : Char} (visible : Visible c) (notSpace : c ≠ ' ') :
    isWhitespace c = false := by
  have : c.toNat ≠ 32 := fun same => notSpace (Char.toNat_inj.mp same)
  simp only [Visible] at visible
  simp [isWhitespace]
  omega

/-- The crate's scans have the documented behaviour. -/
theorem HeaderText.byScan_documented : HeaderText.byScan.Documented where
  toStr_visible v visible := by
    have accepted : v.bytes.all isVisibleAscii = true := by
      simp only [List.all_eq_true]
      intro b mem
      have := visible b mem
      simp [isVisibleAscii, UInt8.le_iff_toNat_le, UInt8.lt_iff_toNat_lt, this.1, this.2]
    simp only [HeaderText.byScan, if_pos accepted]
  toStr_nonAscii v := by
    rintro ⟨b, mem, big⟩
    have refused : v.bytes.all isVisibleAscii = false := by
      rw [List.all_eq_false]
      refine ⟨b, mem, ?_⟩
      have notTab : b.toNat ≠ 9 := by omega
      simp [isVisibleAscii, UInt8.le_iff_toNat_le, UInt8.lt_iff_toNat_lt, UInt8.ext_iff]
      omega
    simp only [HeaderText.byScan, refused]
    rfl
  fromStr_visible s visible := by
    have accepted : (s.all fun c => c == '\t' || (32 ≤ c.toNat && c.toNat != 127)) = true := by
      simp only [List.all_eq_true]
      intro c mem
      have := visible c mem
      simp only [Visible] at this
      have notDel : c.toNat ≠ 127 := by omega
      simp [this.1, notDel]
    simp only [HeaderText.byScan, if_pos accepted]

/-- `to_str` gives an ASCII text back. -/
theorem HeaderText.Documented.toStr_ofAscii {http : HeaderText} (documented : http.Documented)
    {s : List Char} (visible : ∀ c ∈ s, Visible c) : http.toStr (.ofAscii s) = some s := by
  have small : ∀ c ∈ s, (UInt8.ofNat c.toNat).toNat = c.toNat := fun c mem => by
    have := (visible c mem).2
    rw [UInt8.toNat_ofNat']
    omega
  have bytes : ∀ b ∈ (HeaderValue.ofAscii s).bytes, 32 ≤ b.toNat ∧ b.toNat < 127 := by
    intro b mem
    simp only [HeaderValue.ofAscii, List.mem_map] at mem
    obtain ⟨c, mem, rfl⟩ := mem
    rw [small c mem]
    exact visible c mem
  rw [documented.toStr_visible _ bytes, HeaderValue.ofAscii, List.map_map]
  congr 1
  conv => rhs; rw [← List.map_id s]
  refine List.map_congr_left fun c mem => ?_
  simp only [Function.comp_apply, small c mem, Char.ofNat_toNat, id]

section Pieces

variable {n : Nat} {k v q : List Char}

/-- The trailing quote of the last piece. -/
def Closing (q : List Char) : Prop := q = [] ∨ q = ['"']

theorem quote_not_mem_value (value : PlainValue v) : '"' ∉ v :=
  fun mem => (value.chars _ mem).2.2 rfl

/-- A quoted value ends in its closing quote or in its last character, which is no space. -/
theorem quoted_last_not_whitespace (value : PlainValue v) (closing : Closing q) :
    ∀ x ∈ ('"' :: (v ++ q)).getLast?, isWhitespace x = false := by
  intro x last
  rw [List.getLast?_cons, Option.mem_def, Option.some_inj] at last
  rcases closing with rfl | rfl
  · cases lastV : v.getLast? with
    | none =>
      simp only [List.append_nil, lastV, Option.getD_none] at last
      subst last
      decide
    | some y =>
      simp only [List.append_nil, lastV, Option.getD_some] at last
      subst last
      exact isWhitespace_eq_false (value.chars y (List.mem_of_getLast? lastV)).1
        fun same => value.noTrailingSpace (same ▸ lastV)
  · simp only [List.getLast?_append, List.getLast?_singleton, Option.some_or, Option.getD_some] at last
    subst last
    decide

/-- A piece of a plain parameter has no `",` in it: its one quote is followed by the value,
which does not start with a comma. -/
theorem hasPair_paramText (key : PlainKey k) (value : PlainValue v) (closing : Closing q) :
    Text.hasPair '"' ',' (paramText n k v ++ q) = false := by
  have noQuote : '"' ∉ List.replicate n ' ' ++ k ++ ['='] := by
    intro mem
    rcases List.mem_append.mp mem with mem | mem
    · rcases List.mem_append.mp mem with mem | mem
      · exact absurd (List.eq_of_mem_replicate mem) (by decide)
      · exact (key.chars _ mem).2.2.2 rfl
    · exact absurd (List.mem_singleton.mp mem) (by decide)
  have rest : Text.hasPair '"' ',' (v ++ q) = false := by
    rcases closing with rfl | rfl
    · simpa using Text.hasPair_of_not_mem (quote_not_mem_value value)
    · rw [Text.hasPair_append, Text.hasPair_of_not_mem (quote_not_mem_value value)]
      simp [Text.hasPair]
  have afterQuote : v.head? ≠ some ',' ∧ (v = [] → q.head? ≠ some ',') :=
    ⟨value.noLeadingComma, fun _ => by rcases closing with rfl | rfl <;> simp⟩
  have pieces : paramText n k v ++ q = (List.replicate n ' ' ++ k ++ ['=']) ++ (['"'] ++ (v ++ q)) := by
    simp [paramText]
  rw [pieces, Text.hasPair_append, Text.hasPair_of_not_mem noQuote, Text.hasPair_append, rest]
  simpa [Text.hasPair] using afterQuote

/-- Trimming a piece drops the spaces before it, and nothing at its end: that is a quote or
the last character of the value, which is no space. -/
theorem trim_paramText (key : PlainKey k) (value : PlainValue v) (closing : Closing q) :
    trim (paramText n k v ++ q) = k ++ '=' :: '"' :: (v ++ q) := by
  obtain ⟨c, k', rfl⟩ := List.exists_cons_of_ne_nil key.nonempty
  have spaces : ∀ x ∈ List.replicate n ' ', isWhitespace x = true := fun x mem => by
    rw [List.eq_of_mem_replicate mem]
    decide
  have pieces : paramText n (c :: k') v ++ q =
      List.replicate n ' ' ++ ((c :: k' ++ ['=']) ++ '"' :: (v ++ q)) ++ [] := by
    simp [paramText]
  rw [pieces, trim, Text.trimBy_append_of_pos spaces (by simp)]
  have joined : (c :: k' ++ ['=']) ++ '"' :: (v ++ q) = c :: k' ++ '=' :: '"' :: (v ++ q) := by simp
  rw [← joined]
  apply Text.trimBy_eq_self
  · have := key.chars c List.mem_cons_self
    simpa using isWhitespace_eq_false this.1 this.2.1
  · rw [List.getLast?_append_of_ne_nil _ (List.cons_ne_nil _ _)]
    exact quoted_last_not_whitespace value closing

/-- A piece of a plain parameter is read as its key and its value. -/
theorem parsePiece (key : PlainKey k) (value : PlainValue v) (closing : Closing q) :
    (trim (paramText n k v ++ q)).splitOn '=' = [k, '"' :: (v ++ q)] ∧ trim k = k ∧
      Text.trimBy (· == '"') (trim ('"' :: (v ++ q))) = v := by
  have noEq : ∀ l ∈ [k, '"' :: (v ++ q)], '=' ∉ l := by
    intro l mem
    simp only [List.mem_cons, List.not_mem_nil, or_false] at mem
    rcases mem with rfl | rfl
    · exact fun inK => (key.chars _ inK).2.2.1 rfl
    · simp only [List.mem_cons, List.mem_append, not_or]
      refine ⟨by decide, fun inV => (value.chars _ inV).2.1 rfl, fun inQ => ?_⟩
      rcases closing with rfl | rfl <;> simp at inQ
  have quoteOnly : ∀ x ∈ q, (x == '"') = true := by
    rcases closing with rfl | rfl <;> simp
  refine ⟨?_, ?_, ?_⟩
  · rw [trim_paramText key value closing,
      show k ++ '=' :: '"' :: (v ++ q) = ['='].intercalate [k, '"' :: (v ++ q)] by
        rw [List.intercalate_cons_cons, List.intercalate_singleton]
        simp]
    exact List.splitOn_intercalate '=' noEq (by simp)
  · obtain ⟨c, k', rfl⟩ := List.exists_cons_of_ne_nil key.nonempty
    apply Text.trimBy_eq_self
    · have := key.chars c List.mem_cons_self
      simpa using isWhitespace_eq_false this.1 this.2.1
    · intro x last
      have := key.chars x (List.mem_of_getLast? last)
      exact isWhitespace_eq_false this.1 this.2.1
  · have quoted : trim ('"' :: (v ++ q)) = '"' :: (v ++ q) :=
      Text.trimBy_eq_self (by simp; decide) (quoted_last_not_whitespace value closing)
    rw [quoted, show '"' :: (v ++ q) = ['"'] ++ v ++ q by simp,
      Text.trimBy_append_of_pos (by simp) quoteOnly]
    apply Text.trimBy_eq_self
    · intro x first
      simpa using (value.chars x (List.mem_of_mem_head? first)).2.2
    · intro x last
      simpa using (value.chars x (List.mem_of_getLast? last)).2.2

end Pieces

/-! ## Reading a challenge back -/

theorem mem_challengePieces {piece : List Char} :
    ∀ {params : List (Nat × List Char × List Char)}, piece ∈ challengePieces params →
      ∃ p ∈ params, ∃ q, Closing q ∧ piece = paramText p.1 p.2.1 p.2.2 ++ q
  | [], mem => by simp [challengePieces] at mem
  | [(n, k, v)], mem => by
    simp only [challengePieces, List.mem_singleton] at mem
    exact ⟨(n, k, v), List.mem_singleton_self _, ['"'], .inr rfl, mem⟩
  | (n, k, v) :: r :: rs, mem => by
    rcases List.mem_cons.mp mem with rfl | mem
    · exact ⟨(n, k, v), List.mem_cons_self, [], .inl rfl, (List.append_nil _).symm⟩
    · obtain ⟨p, inRest, found⟩ := mem_challengePieces mem
      exact ⟨p, List.mem_cons_of_mem _ inRest, found⟩

theorem challengePieces_cons_ne_nil (r : Nat × List Char × List Char)
    (rs : List (Nat × List Char × List Char)) : challengePieces (r :: rs) ≠ [] := by
  obtain ⟨n, k, v⟩ := r
  cases rs <;> simp [challengePieces]

theorem challengePieces_cons_cons (p r : Nat × List Char × List Char)
    (rs : List (Nat × List Char × List Char)) :
    challengePieces (p :: r :: rs) = paramText p.1 p.2.1 p.2.2 :: challengePieces (r :: rs) :=
  rfl

/-- The spaces before the first parameter come first in the text. -/
theorem intercalate_challengePieces_cons (n : Nat) (k v : List Char)
    (rest : List (Nat × List Char × List Char)) :
    List.intercalate ['"', ','] (challengePieces ((n, k, v) :: rest)) =
      List.replicate n ' ' ++ List.intercalate ['"', ','] (challengePieces ((0, k, v) :: rest)) := by
  cases rest with
  | nil => simp [challengePieces, paramText]
  | cons r rs =>
    obtain ⟨first, firsts, split⟩ := List.exists_cons_of_ne_nil (challengePieces_cons_ne_nil r rs)
    rw [challengePieces_cons_cons, challengePieces_cons_cons, split, List.intercalate_cons_cons,
      List.intercalate_cons_cons]
    simp [paramText]

/-- The text of the parameters ends with the closing quote of the last one. -/
theorem intercalate_challengePieces_concat :
    ∀ {params : List (Nat × List Char × List Char)}, params ≠ [] →
      ∃ text, List.intercalate ['"', ','] (challengePieces params) = text ++ ['"']
  | [], nonempty => absurd rfl nonempty
  | [(n, k, v)], _ => ⟨paramText n k v, by simp [challengePieces]⟩
  | (n, k, v) :: r :: rs, _ => by
    obtain ⟨text, ends⟩ := intercalate_challengePieces_concat (List.cons_ne_nil r rs)
    refine ⟨paramText n k v ++ ['"', ','] ++ text, ?_⟩
    obtain ⟨first, firsts, split⟩ := List.exists_cons_of_ne_nil (challengePieces_cons_ne_nil r rs)
    rw [challengePieces_cons_cons, split, List.intercalate_cons_cons, ← split, ends]
    simp

section Plain

variable {params : List (Nat × List Char × List Char)}

/-- `source[1].trim()` drops the spaces before the first parameter; the text ends with a quote. -/
theorem trim_intercalate_challengePieces {n : Nat} {k v : List Char}
    {rest : List (Nat × List Char × List Char)} (key : PlainKey k) :
    trim (List.intercalate ['"', ','] (challengePieces ((n, k, v) :: rest))) =
      List.intercalate ['"', ','] (challengePieces ((0, k, v) :: rest)) := by
  obtain ⟨c, k', rfl⟩ := List.exists_cons_of_ne_nil key.nonempty
  have spaces : ∀ x ∈ List.replicate n ' ', isWhitespace x = true := fun x mem => by
    rw [List.eq_of_mem_replicate mem]
    decide
  rw [intercalate_challengePieces_cons, trim, ← List.append_nil (List.replicate n ' ' ++ _),
    Text.trimBy_append_of_pos spaces (by simp)]
  apply Text.trimBy_eq_self
  · -- The text starts with the first key.
    have starts : ∃ tail, List.intercalate ['"', ','] (challengePieces ((0, c :: k', v) :: rest)) =
        c :: tail := by
      cases rest with
      | nil => exact ⟨_, by simp [challengePieces, paramText]; rfl⟩
      | cons r rs =>
        obtain ⟨first, firsts, split⟩ := List.exists_cons_of_ne_nil (challengePieces_cons_ne_nil r rs)
        exact ⟨_, by rw [challengePieces_cons_cons, split, List.intercalate_cons_cons]; simp [paramText]; rfl⟩
    obtain ⟨tail, starts⟩ := starts
    rw [starts]
    have := key.chars c List.mem_cons_self
    simpa using isWhitespace_eq_false this.1 this.2.1
  · obtain ⟨text, ends⟩ := intercalate_challengePieces_concat (List.cons_ne_nil (0, c :: k', v) rest)
    rw [ends, List.getLast?_concat]
    simp only [Option.mem_def, Option.some_inj]
    rintro x rfl
    decide

/-- The pieces of a plain challenge are read as their parameters, and inserted in order. -/
theorem parsePairs_challengePieces :
    ∀ {params : List (Nat × List Char × List Char)} (paras : List (List Char × List Char)),
      (∀ p ∈ params, PlainKey p.2.1 ∧ PlainValue p.2.2) →
      parsePairs (challengePieces params) paras = some ((params.map (·.2)).reverse ++ paras)
  | [], paras, _ => rfl
  | [(n, k, v)], paras, plain => by
    obtain ⟨key, value⟩ := plain (n, k, v) List.mem_cons_self
    obtain ⟨split, keyKept, valueKept⟩ := @parsePiece n k v ['"'] key value (.inr rfl)
    simp only [challengePieces, parsePairs, split, keyKept]
    rw [show '"' :: (v ++ ['"']) = '"' :: (v ++ ['"']) from rfl, valueKept]
    simp
  | (n, k, v) :: r :: rs, paras, plain => by
    obtain ⟨key, value⟩ := plain (n, k, v) List.mem_cons_self
    obtain ⟨split, keyKept, valueKept⟩ := @parsePiece n k v [] key value (.inl rfl)
    simp only [List.append_nil] at split valueKept
    have later := parsePairs_challengePieces ((k, v) :: paras)
      fun p mem => plain p (List.mem_cons_of_mem _ mem)
    rw [challengePieces_cons_cons, parsePairs]
    simp only [split, keyKept, valueKept]
    rw [later]
    simp

/-- A key of a list with distinct keys finds its own value. -/
theorem lookup_of_mem {l : List (List Char × List Char)} (distinct : (l.map Prod.fst).Nodup)
    {key value : List Char} (mem : (key, value) ∈ l) : l.lookup key = some value := by
  induction l with
  | nil => simp at mem
  | cons head l ih =>
    obtain ⟨key', value'⟩ := head
    rw [List.map_cons, List.nodup_cons] at distinct
    rw [List.lookup_cons]
    by_cases same : key = key'
    · subst same
      rcases List.mem_cons.mp mem with found | later
      · cases found
        simp
      · exact absurd (List.mem_map_of_mem (f := Prod.fst) later) distinct.1
    · rw [show (key == key') = false from beq_false_of_ne same]
      exact ih distinct.2 (by simpa [same] using mem)

theorem paramText_visible {n : Nat} {k v q : List Char} (key : PlainKey k) (value : PlainValue v)
    (closing : Closing q) : ∀ c ∈ paramText n k v ++ q, Visible c := by
  intro c mem
  simp only [paramText, List.mem_append, List.mem_cons] at mem
  rcases mem with ((inSpaces | inKey) | rfl | rfl | inValue) | inQ
  · rw [List.eq_of_mem_replicate inSpaces]
    decide
  · exact (key.chars c inKey).1
  · decide
  · decide
  · exact (value.chars c inValue).1
  · rcases closing with rfl | rfl
    · simp at inQ
    · rw [List.mem_singleton.mp inQ]
      decide

/-- A challenge of plain parameters, after a visible scheme, is visible text. -/
theorem challenge_visible (plain : PlainParams params) {scheme : List Char}
    (schemeVisible : ∀ c ∈ scheme, Visible c) : ∀ c ∈ challenge scheme params, Visible c := by
  intro c mem
  rw [challenge, List.mem_append, List.mem_cons] at mem
  rcases mem with inScheme | rfl | inText
  · exact schemeVisible c inScheme
  · decide
  · have separator : ∀ x ∈ ['"', ','], Visible x := by
      intro x mem
      simp only [List.mem_cons, List.not_mem_nil, or_false] at mem
      rcases mem with rfl | rfl <;> decide
    refine Text.forall_mem_intercalate separator (fun piece inPieces => ?_) c inText
    obtain ⟨p, inParams, q, closing, rfl⟩ := mem_challengePieces inPieces
    exact paramText_visible (plain.plainKeys p inParams) (plain.plainValues p inParams) closing

/-- The parameters of a plain challenge, as `parse_auth` reads them into its map. -/
theorem parsePairs_challenge (plain : PlainParams params) :
    parsePairs (Text.splitOnPair '"' ',' (trim (List.intercalate ['"', ','] (challengePieces params)))) [] =
      some (params.map (·.2)).reverse := by
  obtain ⟨⟨n, k, v⟩, rest, rfl⟩ := List.exists_cons_of_ne_nil plain.nonempty
  have each : ∀ p ∈ (0, k, v) :: rest, PlainKey p.2.1 ∧ PlainValue p.2.2 := by
    intro p mem
    rcases List.mem_cons.mp mem with rfl | inRest
    · exact ⟨plain.plainKeys (n, k, v) List.mem_cons_self, plain.plainValues (n, k, v) List.mem_cons_self⟩
    · exact ⟨plain.plainKeys p (List.mem_cons_of_mem _ inRest),
        plain.plainValues p (List.mem_cons_of_mem _ inRest)⟩
  have clean : ∀ piece ∈ challengePieces ((0, k, v) :: rest), Text.hasPair '"' ',' piece = false := by
    intro piece mem
    obtain ⟨p, inParams, q, closing, rfl⟩ := mem_challengePieces mem
    exact hasPair_paramText (each p inParams).1 (each p inParams).2 closing
  rw [trim_intercalate_challengePieces (plain.plainKeys _ List.mem_cons_self),
    Text.splitOnPair_intercalate (by decide) (challengePieces_cons_ne_nil _ _) clean,
    parsePairs_challengePieces [] each]
  simp

/-- The map of a plain challenge finds the value of each of its keys. -/
theorem lookup_challenge (plain : PlainParams params) {key value : List Char}
    (mem : (key, value) ∈ params.map (·.2)) : ((params.map (·.2)).reverse).lookup key = some value := by
  have distinct : (((params.map (·.2)).reverse).map Prod.fst).Nodup := by
    rw [List.map_reverse, List.nodup_reverse, List.map_map]
    exact plain.keys
  exact lookup_of_mem distinct (List.mem_reverse.mpr mem)

end Plain

/-- `parse_auth` reads a `Bearer` challenge of plain parameters, in any order and with any
spaces after the commas, as its realm, service and scope; with configured credentials in
visible ASCII, it adds their `Basic` header. -/
theorem parseAuth_bearer (http : HeaderText) (documented : http.Documented)
    {params : List (Nat × List Char × List Char)} (plain : PlainParams params)
    {realm service scope : List Char}
    (hasRealm : ("realm".toList, realm) ∈ params.map (·.2))
    (hasService : ("service".toList, service) ∈ params.map (·.2))
    (hasScope : ("scope".toList, scope) ∈ params.map (·.2))
    (auth : Option (List Char)) (credentials : ∀ a ∈ auth, ∀ c ∈ a, Visible c) :
    parseAuth http (.ofAscii (challenge "Bearer".toList params)) auth =
      .ok (some (.bearer ⟨realm, service, scope, auth.map ("Basic ".toList ++ ·)⟩)) := by
  have visible : ∀ c ∈ challenge "Bearer".toList params, Visible c :=
    challenge_visible plain (by simp [Visible])
  have header : basicHeader http auth = .ok (auth.map ("Basic ".toList ++ ·)) := by
    cases auth with
    | none => rfl
    | some a =>
      have valid : ∀ c ∈ "Basic ".toList ++ a, Visible c := by
        intro c mem
        rcases List.mem_append.mp mem with inPrefix | inA
        · have printable : ∀ c ∈ "Basic ".toList, Visible c := by simp [Visible]
          exact printable c inPrefix
        · exact credentials a rfl c inA
      simp only [basicHeader, documented.fromStr_visible _ valid, Option.map_some]
  simp only [parseAuth, documented.toStr_ofAscii visible, header]
  unfold parseChallenge
  rw [challenge, Text.splitOnce_append_cons (by decide)]
  simp only [parsePairs_challenge plain]
  rw [if_neg (by decide), if_pos (by decide)]
  simp only [lookup_challenge plain hasRealm, lookup_challenge plain hasService,
    lookup_challenge plain hasScope]
  rfl

/-- The challenge Docker Hub's registry answers with, as parameters. -/
def hubParams : List (Nat × List Char × List Char) :=
  [(0, "realm".toList, "https://auth.docker.io/token".toList),
   (0, "service".toList, "registry.docker.io".toList),
   (0, "scope".toList, "repository:library/busybox:pull".toList)]

theorem hubParams_plain : PlainParams hubParams where
  nonempty := by simp [hubParams]
  keys := by decide +kernel
  plainKeys := by
    simp only [hubParams, List.mem_cons, List.not_mem_nil, or_false]
    rintro p (rfl | rfl | rfl) <;> exact ⟨by simp, by simp [Visible]⟩
  plainValues := by
    simp only [hubParams, List.mem_cons, List.not_mem_nil, or_false]
    rintro p (rfl | rfl | rfl) <;> exact ⟨by simp [Visible], by simp, by simp⟩

/-- Docker Hub's challenge, read with the crate's scans and a user's credentials. -/
theorem parseAuth_bearer_hub :
    parseAuth .byScan (.ofAscii (challenge "Bearer".toList hubParams)) (some "dXNlcjpwYXNz".toList) =
      .ok (some (.bearer ⟨"https://auth.docker.io/token".toList, "registry.docker.io".toList,
        "repository:library/busybox:pull".toList, some "Basic dXNlcjpwYXNz".toList⟩)) :=
  parseAuth_bearer .byScan HeaderText.byScan_documented hubParams_plain (by simp [hubParams])
    (by simp [hubParams]) (by simp [hubParams]) _ (by simp [Visible])

/-- `parse_auth` reads a `Basic` challenge of plain parameters as its realm. -/
theorem parseAuth_basic (http : HeaderText) (documented : http.Documented)
    {params : List (Nat × List Char × List Char)} (plain : PlainParams params)
    {realm : List Char} (hasRealm : ("realm".toList, realm) ∈ params.map (·.2))
    (auth : Option (List Char)) :
    parseAuth http (.ofAscii (challenge "Basic".toList params)) auth =
      .ok (some (.basic ⟨realm⟩)) := by
  have visible : ∀ c ∈ challenge "Basic".toList params, Visible c :=
    challenge_visible plain (by simp [Visible])
  simp only [parseAuth, documented.toStr_ofAscii visible]
  unfold parseChallenge
  rw [challenge, Text.splitOnce_append_cons (by decide)]
  simp only [parsePairs_challenge plain]
  rw [if_pos (by decide), lookup_challenge plain hasRealm]
  rfl

/-- A registry asking for basic authentication in its realm. -/
theorem parseAuth_basic_realm :
    parseAuth .byScan (.ofAscii (challenge "Basic".toList [(0, "realm".toList, "Registry Realm".toList)]))
      none = .ok (some (.basic ⟨"Registry Realm".toList⟩)) :=
  parseAuth_basic .byScan HeaderText.byScan_documented
    ⟨by simp, by simp,
      fun _ mem => by rw [List.mem_singleton.mp mem]; exact ⟨by simp, by simp [Visible]⟩,
      fun _ mem => by rw [List.mem_singleton.mp mem]; exact ⟨by simp [Visible], by simp, by simp⟩⟩
    (by simp) none

/-- Outside plain parameters the parse goes wrong, whatever the crate does beyond its
documentation. A realm with a query string is cut at its `=`; a realm ending with a space
loses it, being followed by another parameter; a realm that starts with a comma is cut off at
`",` and leaves a parameter with no `=`, so that the whole challenge reads as `None`; and a
realm with a byte past ASCII (here the UTF-8 of `é`) makes `to_str` fail, and its `unwrap`
panics. -/
theorem parseAuth_mangles (http : HeaderText) (documented : http.Documented) :
    parseAuth http
        (.ofAscii "Bearer realm=\"https://auth.io/token?x=y\",service=\"s\",scope=\"c\"".toList) none =
      .ok (some (.bearer ⟨"https://auth.io/token?x".toList, "s".toList, "c".toList, none⟩)) ∧
    parseAuth http (.ofAscii "Bearer realm=\"r \",service=\"s\",scope=\"c\"".toList) none =
      .ok (some (.bearer ⟨"r".toList, "s".toList, "c".toList, none⟩)) ∧
    parseAuth http (.ofAscii "Bearer realm=\",r\",service=\"s\",scope=\"c\"".toList) none =
      .ok none ∧
    parseAuth http ⟨(HeaderValue.ofAscii "Basic realm=\"".toList).bytes ++ [0xc3, 0xa9, 0x22]⟩
        none = .error .toStrUnwrap := by
  -- Without credentials no header is made, and `to_str` gives visible text back.
  have ascii : ∀ text, (text.all fun c => decide (Visible c)) = true →
      parseAuth http (.ofAscii text) none = parseChallenge (.ok none) text := by
    intro text checked
    have visible : ∀ c ∈ text, Visible c := fun c mem =>
      of_decide_eq_true (List.all_eq_true.mp checked c mem)
    simp only [parseAuth, documented.toStr_ofAscii visible]
    rfl
  have pastAscii : ∃ b ∈ (⟨(HeaderValue.ofAscii "Basic realm=\"".toList).bytes ++ [0xc3, 0xa9, 0x22]⟩ :
      HeaderValue).bytes, 127 ≤ b.toNat := ⟨0xc3, by simp, by decide⟩
  refine ⟨?query, ?space, ?comma, ?nonAscii⟩
  case nonAscii => simp only [parseAuth, documented.toStr_nonAscii _ pastAscii]
  -- The other three are ASCII: the text is parsed as it stands.
  all_goals
    rw [ascii]
    · decide +kernel
    · decide +kernel

/-- The crate's own scans make `parse_auth` panic on the header past ASCII. -/
theorem parseAuth_mangles_byScan : HeaderText.byScan.Documented ∧
    parseAuth .byScan ⟨(HeaderValue.ofAscii "Basic realm=\"".toList).bytes ++ [0xc3, 0xa9, 0x22]⟩
        none = .error .toStrUnwrap :=
  ⟨HeaderText.byScan_documented, (parseAuth_mangles _ HeaderText.byScan_documented).2.2.2⟩

end Nydus
