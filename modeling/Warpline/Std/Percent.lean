import Warpline.Std.Decimal

/-!
# Percent-encoding

Bytes in a URL: those of a set stand for themselves, the others are `%` and two hex digits.
`decode` is the URL standard's decoding, and `formPairs` its reading of a query
(`application/x-www-form-urlencoded`). A query of encoded values is read back.
-/

set_option autoImplicit false

namespace Percent

/-! ## Encoding -/

/-- `{:X}` of a number below 16. -/
def hexDigit (n : Nat) : Char := if n < 10 then Char.ofNat (0x30 + n) else Char.ofNat (0x37 + n)

def encodeByte (keep : UInt8 → Bool) (b : UInt8) : Str :=
  if keep b then [Char.ofNat b.toNat] else ['%', hexDigit (b.toNat / 16), hexDigit (b.toNat % 16)]

def encode (keep : UInt8 → Bool) (bytes : List UInt8) : Str := bytes.flatMap (encodeByte keep)

/-! ## Decoding -/

def hexValue (c : Char) : Option Nat :=
  if '0' ≤ c ∧ c ≤ '9' then some (c.toNat - 0x30)
  else if 'A' ≤ c ∧ c ≤ 'F' then some (c.toNat - 0x37)
  else if 'a' ≤ c ∧ c ≤ 'f' then some (c.toNat - 0x57)
  else none

/-- A `%` that two hex digits do not follow stands for itself. -/
def decode : Str → List UInt8
  | '%' :: h :: l :: s =>
    match hexValue h, hexValue l with
    | some m, some n => UInt8.ofNat (16 * m + n) :: decode s
    | _, _ => 0x25 :: decode (h :: l :: s)
  | c :: s => String.utf8EncodeChar c ++ decode s
  | [] => []

/-- A name or a value of a query: `+` is a blank. -/
def formDecode (s : Str) : List UInt8 := decode (s.map fun c => if c = '+' then ' ' else c)

def formPair (piece : Str) : List UInt8 × List UInt8 :=
  match Str.splitOnce '=' piece with
  | some (name, value) => (formDecode name, formDecode value)
  | none => (formDecode piece, [])

def formPairs (query : Str) : List (List UInt8 × List UInt8) :=
  ((query.splitOn '&').filter (· ≠ [])).map formPair

/-- A URL up to its query, and the query; the fragment is dropped. -/
def splitQuery (url : Str) : Str × Str :=
  let url := url.takeWhile (· ≠ '#')
  (Str.splitOnce '?' url).getD (url, [])

/-! ## Round trip -/

theorem hexValue_hexDigit : ∀ n < 16, hexValue (hexDigit n) = some n := by decide

theorem hexDigit_isAlphanum : ∀ n < 16, (hexDigit n).isAlphanum = true := by decide

theorem decode_hex {m n : Nat} (hm : m < 16) (hn : n < 16) (s : Str) :
    decode ('%' :: hexDigit m :: hexDigit n :: s) = UInt8.ofNat (16 * m + n) :: decode s := by
  rw [decode, hexValue_hexDigit m hm, hexValue_hexDigit n hn]

theorem decode_cons {c : Char} (hc : c ≠ '%') (s : Str) :
    decode (c :: s) = String.utf8EncodeChar c ++ decode s := by
  rw [decode]
  intro h l s' heq
  exact absurd heq hc

/-- The bytes that are kept are letters, digits and other ASCII characters, `%` and `+` apart. -/
def Plain (keep : UInt8 → Bool) : Prop :=
  ∀ b, keep b = true → b < 0x80 ∧ b ≠ 0x25 ∧ b ≠ 0x2b

variable {keep : UInt8 → Bool}

theorem toNat_ofNat_toNat (b : UInt8) : (Char.ofNat b.toNat).toNat = b.toNat := by
  rw [Char.toNat_ofNat, if_pos]
  exact .inl (Nat.lt_trans b.toNat_lt (by decide))

/-- An ASCII byte is the encoding of its character. -/
theorem utf8_ascii {b : UInt8} (h : b < 0x80) : String.utf8EncodeChar (Char.ofNat b.toNat) = [b] := by
  have hb : b.toNat < 128 := UInt8.lt_iff_toNat_lt.1 h
  have hval : (Char.ofNat b.toNat).val.toNat = b.toNat := toNat_ofNat_toNat b
  rw [String.utf8EncodeChar, if_pos (by omega), hval]
  simp

theorem ofNat_ne {b b' : UInt8} (h : b ≠ b') : Char.ofNat b.toNat ≠ Char.ofNat b'.toNat := by
  intro heq
  have := congrArg Char.toNat heq
  rw [toNat_ofNat_toNat, toNat_ofNat_toNat] at this
  exact h (UInt8.toNat.inj this)

theorem decode_encodeByte (hk : Plain keep) (b : UInt8) (s : Str) :
    decode (encodeByte keep b ++ s) = b :: decode s := by
  unfold encodeByte
  split
  · rename_i hb
    obtain ⟨hlt, hpct, -⟩ := hk b hb
    rw [List.singleton_append, decode_cons (ofNat_ne hpct), utf8_ascii hlt]
    rfl
  · have hb := b.toNat_lt
    rw [List.cons_append, List.cons_append, List.cons_append, List.nil_append,
      decode_hex (by omega) (by omega), Nat.div_add_mod, UInt8.ofNat_toNat]

/-- **What is encoded is decoded again.** -/
theorem decode_encode (hk : Plain keep) (bytes : List UInt8) : decode (encode keep bytes) = bytes := by
  induction bytes with
  | nil => rfl
  | cons b bytes ih =>
    rw [encode, List.flatMap_cons, decode_encodeByte hk]
    exact congrArg _ ih

/-- What an encoded text is made of. -/
theorem mem_encode {c : Char} {bytes : List UInt8} (h : c ∈ encode keep bytes) :
    (∃ b, keep b = true ∧ c = Char.ofNat b.toNat) ∨ c = '%' ∨ c.isAlphanum = true := by
  obtain ⟨b, -, hc⟩ := List.mem_flatMap.1 h
  have hb := b.toNat_lt
  unfold encodeByte at hc
  split at hc
  · rename_i hb
    exact .inl ⟨b, hb, List.mem_singleton.1 hc⟩
  · simp only [List.mem_cons, List.not_mem_nil, or_false] at hc
    obtain rfl | rfl | rfl := hc
    · exact .inr (.inl rfl)
    · exact .inr (.inr (hexDigit_isAlphanum _ (by omega)))
    · exact .inr (.inr (hexDigit_isAlphanum _ (by omega)))

/-- A character that is not kept, and is neither `%` nor a letter or digit, does not occur. -/
theorem notMem_encode {b : UInt8} (hb : keep b = false) (hpct : b ≠ 0x25)
    (halnum : (Char.ofNat b.toNat).isAlphanum = false) (bytes : List UInt8) :
    Char.ofNat b.toNat ∉ encode keep bytes := by
  intro h
  obtain ⟨b', hk, heq⟩ | h | h := mem_encode h
  · have : b = b' := by_contra fun hne => ofNat_ne hne heq
    rw [← this, hb] at hk
    cases hk
  · exact ofNat_ne hpct h
  · rw [halnum] at h
    cases h

theorem formDecode_encode (hk : Plain keep) (bytes : List UInt8) :
    formDecode (encode keep bytes) = bytes := by
  have hplus : '+' ∉ encode keep bytes := by
    refine notMem_encode (b := 0x2b) ?_ (by decide) (by decide) bytes
    exact Bool.eq_false_iff.2 fun h => (hk _ h).2.2 rfl
  have hmap : (encode keep bytes).map (fun c => if c = '+' then ' ' else c) = encode keep bytes := by
    refine (List.map_congr_left fun c hc => if_neg ?_).trans (List.map_id _)
    rintro rfl
    exact hplus hc
  rw [formDecode, hmap, decode_encode hk]

/-- `name=value`. -/
def encodePair (keep : UInt8 → Bool) (pair : List UInt8 × List UInt8) : Str :=
  encode keep pair.1 ++ '=' :: encode keep pair.2

theorem formPair_encodePair (hk : Plain keep) (heq : keep 0x3d = false)
    (pair : List UInt8 × List UInt8) : formPair (encodePair keep pair) = pair := by
  have hsplit : Str.splitOnce '=' (encodePair keep pair) =
      some (encode keep pair.1, encode keep pair.2) :=
    Str.splitOnce_eq_some.2 ⟨rfl, notMem_encode heq (by decide) (by decide) _⟩
  rw [formPair, hsplit]
  exact Prod.ext (formDecode_encode hk _) (formDecode_encode hk _)

/-- **A query of encoded names and values is read back.** -/
theorem formPairs_encode (hk : Plain keep) (heq : keep 0x3d = false) (hamp : keep 0x26 = false)
    {pairs : List (List UInt8 × List UInt8)} (hne : pairs ≠ []) :
    formPairs (['&'].intercalate (pairs.map (encodePair keep))) = pairs := by
  have hnotMem : ∀ piece ∈ pairs.map (encodePair keep), '&' ∉ piece := by
    intro piece hp
    obtain ⟨pair, -, rfl⟩ := List.mem_map.1 hp
    have h : ∀ bytes, '&' ∉ encode keep bytes :=
      notMem_encode (b := 0x26) hamp (by decide) (by decide)
    rw [encodePair, List.mem_append, List.mem_cons, not_or, not_or]
    exact ⟨h _, by decide, h _⟩
  have hfilter : (pairs.map (encodePair keep)).filter (· ≠ []) = pairs.map (encodePair keep) := by
    refine List.filter_eq_self.2 fun piece hp => ?_
    obtain ⟨pair, -, rfl⟩ := List.mem_map.1 hp
    simp [encodePair]
  rw [formPairs, List.splitOn_intercalate _ hnotMem (by simpa using hne), hfilter, List.map_map]
  exact (List.map_congr_left fun pair _ => formPair_encodePair hk heq pair).trans (List.map_id _)

theorem splitQuery_eq {path query : Str} (hpath : '?' ∉ path ∧ '#' ∉ path) (hquery : '#' ∉ query) :
    splitQuery (path ++ '?' :: query) = (path, query) := by
  have htake : (path ++ '?' :: query).takeWhile (· ≠ '#') = path ++ '?' :: query := by
    refine List.takeWhile_eq_self_iff.2 fun c hc => ?_
    have : c ≠ '#' := by
      rintro rfl
      simp only [List.mem_append, List.mem_cons] at hc
      obtain h | h | h := hc
      · exact hpath.2 h
      · cases h
      · exact hquery h
    simpa using this
  rw [splitQuery, htake, Str.splitOnce_eq_some.2 ⟨rfl, hpath.1⟩]
  rfl

end Percent
