import Warpline.Std.Str

/-!
# Requests with a bearer token (`types.rs`: `parse_bearer`)

What the handlers of both servers share: headers, the token in them, replies. A header value is
read as the token it carries (`parseBearer_iff`).
-/

set_option autoImplicit false

namespace Str

/-- `eq_ignore_ascii_case`. -/
def eqIgnoreAsciiCase (a b : Str) : Bool := a.map Char.toLower == b.map Char.toLower

/-- `split_once(char::is_whitespace)`. -/
def splitOnceWhitespace (s : Str) : Option (Str × Str) :=
  match s.dropWhile (!isWhitespace ·) with
  | [] => none
  | _ :: rest => some (s.takeWhile (!isWhitespace ·), rest)

/-! ## Trimming -/

/-- White space only. -/
def Blank (s : Str) : Prop := ∀ c ∈ s, isWhitespace c = true

/-- Without white space at its ends. -/
def Trimmed (s : Str) : Prop :=
  (∀ c ∈ s.head?, isWhitespace c = false) ∧ ∀ c ∈ s.getLast?, isWhitespace c = false

variable {s l r : Str}

theorem dropWhile_blank_append (hl : Blank l) : (l ++ s).dropWhile isWhitespace =
    s.dropWhile isWhitespace := by
  induction l with
  | nil => rfl
  | cons c l ih =>
    rw [List.cons_append, List.dropWhile_cons, hl c (.head _)]
    exact ih fun c hc => hl c (.tail _ hc)

theorem dropWhile_trimmed (hs : ∀ c ∈ s.head?, isWhitespace c = false) :
    s.dropWhile isWhitespace = s := by
  cases s with
  | nil => rfl
  | cons c s => rw [List.dropWhile_cons, hs c rfl]; rfl

theorem rdropWhile_append_blank (hr : Blank r) : (s ++ r).rdropWhile isWhitespace =
    s.rdropWhile isWhitespace := by
  have hrev : Blank r.reverse := fun c hc => hr c (List.mem_reverse.1 hc)
  rw [List.rdropWhile, List.reverse_append, dropWhile_blank_append hrev, List.rdropWhile]

theorem rdropWhile_trimmed (hs : ∀ c ∈ s.getLast?, isWhitespace c = false) :
    s.rdropWhile isWhitespace = s := by
  rw [List.rdropWhile, dropWhile_trimmed (by rwa [List.head?_reverse]), List.reverse_reverse]

theorem trimmed_trim : Trimmed (trim s) := by
  have hlast : ∀ c ∈ (trim s).getLast?, isWhitespace c = false := by
    intro c hc
    obtain ⟨hne, rfl⟩ := List.mem_getLast?_eq_getLast hc
    exact Bool.eq_false_iff.2 (List.rdropWhile_last_not isWhitespace (s.dropWhile isWhitespace) hne)
  refine ⟨fun c hc => ?_, hlast⟩
  have hpre : trim s <+: s.dropWhile isWhitespace := List.rdropWhile_prefix _ _
  obtain ⟨rest, hrest⟩ := hpre
  have hhead : (s.dropWhile isWhitespace).head? = some c := by
    rw [← hrest, List.head?_append, hc]
    rfl
  simpa using List.head?_dropWhile_not isWhitespace s |> fun h => by rwa [hhead] at h

/-- What is trimmed is white space at the ends. -/
theorem trim_iff {token : Str} : trim s = token ↔
    ∃ l r, s = l ++ token ++ r ∧ Blank l ∧ Blank r ∧ Trimmed token := by
  constructor
  · rintro rfl
    refine ⟨s.takeWhile isWhitespace, (s.dropWhile isWhitespace).rtakeWhile isWhitespace, ?_, ?_, ?_,
      trimmed_trim⟩
    · rw [List.append_assoc, trim, List.rdropWhile_append_rtakeWhile, List.takeWhile_append_dropWhile]
    · exact fun c hc => List.mem_takeWhile_imp hc
    · exact fun c hc => List.mem_rtakeWhile_imp hc
  · rintro ⟨l, r, rfl, hl, hr, ht⟩
    rw [trim, List.append_assoc, dropWhile_blank_append hl]
    cases token with
    | nil =>
      have hr' := dropWhile_blank_append (s := []) hr
      rw [List.append_nil] at hr'
      rw [List.nil_append, hr']
      rfl
    | cons c token =>
      rw [dropWhile_trimmed (s := c :: token ++ r) ht.1, rdropWhile_append_blank hr,
        rdropWhile_trimmed ht.2]

/-- The first white space splits. -/
theorem splitOnceWhitespace_iff {head tail : Str} : splitOnceWhitespace s = some (head, tail) ↔
    ∃ c, s = head ++ c :: tail ∧ isWhitespace c = true ∧ ∀ x ∈ head, isWhitespace x = false := by
  unfold splitOnceWhitespace
  constructor
  · intro h
    split at h
    · cases h
    · rename_i c rest hdrop
      cases h
      have hc := List.head?_dropWhile_not (!isWhitespace ·) s
      rw [hdrop] at hc
      refine ⟨c, ?_, by simpa using hc, fun x hx => by simpa using List.mem_takeWhile_imp hx⟩
      rw [← hdrop, List.takeWhile_append_dropWhile]
  · rintro ⟨c, rfl, hc, hhead⟩
    have hp : ∀ x ∈ head, (!isWhitespace x) = true := fun x hx => by rw [hhead x hx]; rfl
    rw [List.dropWhile_append_of_pos hp, List.takeWhile_append_of_pos hp, List.dropWhile_cons,
      List.takeWhile_cons, hc]
    simp

end Str

namespace Warpline

/-- The token after the scheme `Bearer`, in any case. -/
def parseBearer (headerValue : Str) : Option Str :=
  match Str.splitOnceWhitespace (Str.trim headerValue) with
  | none => none
  | some (scheme, rest) =>
    if !Str.eqIgnoreAsciiCase scheme "bearer".toList then none
    else
      let token := Str.trim rest
      if token = [] then none else some token

/-! ## Headers and replies -/

/-- A header map: names in lower case. -/
abbrev Headers := List (Str × List UInt8)

/-- `HeaderValue::to_str`: visible ASCII. -/
def headerToStr (value : List UInt8) : Option Str :=
  if value.all fun b => (32 ≤ b && b < 127) || b == 9 then
    some (value.map fun b => Char.ofNat b.toNat)
  else none

def bearerFrom (headers : Headers) : Option Str :=
  ((headers.lookup "authorization".toList).bind headerToStr).bind parseBearer

inductive HttpBody
  | empty
  | text (s : Str)
  | bytes (b : List UInt8)
  | json (fields : List (Str × Str))
  deriving DecidableEq, Repr

structure HttpReply where
  status : UInt16
  body : HttpBody
  deriving DecidableEq, Repr

/-! ## The grammar -/

/-- `scheme` is `Bearer`, in any case. -/
def IsBearer (scheme : Str) : Prop := Str.eqIgnoreAsciiCase scheme "bearer".toList = true

theorem toLower_of_whitespace {c : Char} (h : Str.isWhitespace c = true) : c.toLower = c := by
  unfold Char.toLower
  split
  · rename_i hupper
    exfalso
    have h1 : 65 ≤ c.toNat := UInt32.le_iff_toNat_le.1 hupper.1
    have h2 : c.toNat ≤ 90 := UInt32.le_iff_toNat_le.1 hupper.2
    simp only [Str.isWhitespace, Bool.or_eq_true, Bool.and_eq_true, decide_eq_true_eq, beq_iff_eq] at h
    omega
  · rfl

theorem noWhitespace_of_letter {c : Char} (h : 97 ≤ c.toNat ∧ c.toNat ≤ 122) :
    Str.isWhitespace c = false := by
  rw [Bool.eq_false_iff]
  intro hws
  simp only [Str.isWhitespace, Bool.or_eq_true, Bool.and_eq_true, decide_eq_true_eq, beq_iff_eq] at hws
  omega

/-- The scheme is a word of six letters. -/
theorem IsBearer.noWhitespace {scheme : Str} (h : IsBearer scheme) :
    (∀ c ∈ scheme, Str.isWhitespace c = false) ∧ scheme ≠ [] := by
  have hmap : scheme.map Char.toLower = ['b', 'e', 'a', 'r', 'e', 'r'] := beq_iff_eq.1 h
  refine ⟨fun c hc => ?_, ?_⟩
  · have hall : ∀ c ∈ ['b', 'e', 'a', 'r', 'e', 'r'], 97 ≤ c.toNat ∧ c.toNat ≤ 122 := by simp
    by_contra hws
    have hws' : Str.isWhitespace c = true := by simpa using hws
    have hlower := noWhitespace_of_letter (hall c.toLower (hmap ▸ List.mem_map_of_mem hc))
    rw [toLower_of_whitespace hws'] at hlower
    exact hws hlower
  · rintro rfl
    cases hmap

/-- A header value and the token in it: `Bearer` and the token, with white space between them and
perhaps around them. -/
def Carries (headerValue token : Str) : Prop :=
  ∃ l scheme m r, headerValue = l ++ (scheme ++ m ++ token) ++ r ∧ IsBearer scheme ∧
    Str.Blank l ∧ Str.Blank m ∧ m ≠ [] ∧ Str.Blank r ∧ token ≠ [] ∧ Str.Trimmed token

theorem carries_of_parse {headerValue token : Str} (h : parseBearer headerValue = some token) :
    Carries headerValue token := by
  unfold parseBearer at h
  split at h
  · cases h
  rename_i scheme rest hsplit
  split at h
  · cases h
  rename_i hscheme
  simp only at h
  split at h
  · cases h
  rename_i hne
  obtain ⟨l, r, hl⟩ := Str.trim_iff.1 (rfl : Str.trim headerValue = _)
  obtain ⟨c, hc, hws, -⟩ := Str.splitOnceWhitespace_iff.1 hsplit
  obtain ⟨m, r', hrest, hm, hr', ht⟩ := Str.trim_iff.1 (Option.some.inj h)
  rw [hc, hrest] at hl
  refine ⟨l, scheme, c :: m, r' ++ r, ?_, by simpa [IsBearer] using hscheme, hl.2.1, ?_,
    List.cons_ne_nil _ _, ?_, Option.some.inj h ▸ hne, ht⟩
  · rw [hl.1]
    simp
  · exact List.forall_mem_cons.2 ⟨hws, hm⟩
  · exact List.forall_mem_append.2 ⟨hr', hl.2.2.1⟩

theorem parse_of_carries {headerValue token : Str} (h : Carries headerValue token) :
    parseBearer headerValue = some token := by
  obtain ⟨l, scheme, m, r, rfl, hscheme, hl, hm, hm0, hr, hne, ht⟩ := h
  obtain ⟨hword, hs0⟩ := hscheme.noWhitespace
  obtain ⟨c, m, rfl⟩ := List.exists_cons_of_ne_nil hm0
  obtain ⟨hc, hm⟩ := List.forall_mem_cons.1 hm
  have htrim : Str.trim (l ++ (scheme ++ c :: m ++ token) ++ r) = scheme ++ c :: m ++ token := by
    refine Str.trim_iff.2 ⟨l, r, rfl, hl, hr, fun x hx => ?_, fun x hx => ?_⟩
    · obtain ⟨y, scheme, rfl⟩ := List.exists_cons_of_ne_nil hs0
      cases hx
      exact hword _ (.head _)
    · rw [List.getLast?_append_of_ne_nil _ hne] at hx
      exact ht.2 x hx
  have hsplit : Str.splitOnceWhitespace (scheme ++ c :: m ++ token) = some (scheme, m ++ token) :=
    Str.splitOnceWhitespace_iff.2 ⟨c, by simp, hc, hword⟩
  have htoken : Str.trim (m ++ token) = token :=
    Str.trim_iff.2 ⟨m, [], by simp, hm, by simp [Str.Blank], ht⟩
  unfold parseBearer
  rw [htrim, hsplit]
  have hs : (!Str.eqIgnoreAsciiCase scheme "bearer".toList) = false := by rw [hscheme]; rfl
  simp only [htoken, hne, hs, if_false, Bool.false_eq_true]

/-- **A header value is read as the token it carries**, and as none if it carries none. -/
theorem parseBearer_iff {headerValue token : Str} :
    parseBearer headerValue = some token ↔ Carries headerValue token :=
  ⟨carries_of_parse, parse_of_carries⟩

end Warpline
