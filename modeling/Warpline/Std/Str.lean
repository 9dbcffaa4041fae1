import Mathlib

/-!
# Strings

A string is its list of characters. The functions are those of Rust's `str` the code uses, under
their names.
-/

set_option autoImplicit false

abbrev Str := List Char

namespace Str

/-- `char::is_whitespace`: the Unicode property `White_Space`. -/
def isWhitespace (c : Char) : Bool :=
  (0x09 ≤ c.toNat && c.toNat ≤ 0x0d) || c.toNat == 0x20 || c.toNat == 0x85 || c.toNat == 0xa0 ||
    c.toNat == 0x1680 || (0x2000 ≤ c.toNat && c.toNat ≤ 0x200a) || c.toNat == 0x2028 ||
    c.toNat == 0x2029 || c.toNat == 0x202f || c.toNat == 0x205f || c.toNat == 0x3000

def trim (s : Str) : Str := (s.dropWhile isWhitespace).rdropWhile isWhitespace

def stripSuffix (s suffix : Str) : Option Str :=
  if suffix <:+ s then some (s.take (s.length - suffix.length)) else none

/-- `split_once`: the parts before and after the first `c`. -/
def splitOnce (c : Char) : Str → Option (Str × Str)
  | [] => none
  | x :: s => if x = c then some ([], s) else (splitOnce c s).map fun q => (x :: q.1, q.2)

/-- `len`: the length of the UTF-8 encoding. -/
def utf8Len (s : Str) : Nat := (s.map Char.utf8Size).sum

/-- `is_char_boundary`: byte `i` starts a character, or is the end. -/
def isCharBoundary : Str → Nat → Bool
  | _, 0 => true
  | [], _ + 1 => false
  | c :: s, i => c.utf8Size ≤ i && isCharBoundary s (i - c.utf8Size)

/-- `&s[..i]`, for a boundary `i`. -/
def sliceTo : Str → Nat → Str
  | _, 0 => []
  | [], _ + 1 => []
  | c :: s, i => c :: sliceTo s (i - c.utf8Size)

@[simp] theorem utf8Len_nil : utf8Len [] = 0 := rfl
@[simp] theorem utf8Len_cons (c : Char) (s : Str) : utf8Len (c :: s) = c.utf8Size + utf8Len s := by
  simp [utf8Len]

theorem utf8Len_replicate (n : Nat) (c : Char) : utf8Len (List.replicate n c) = n * c.utf8Size := by
  simp [utf8Len]

theorem sliceTo_isPrefix : ∀ (s : Str) (i : Nat), sliceTo s i <+: s
  | s, 0 => by
    rw [sliceTo]
    exact List.nil_prefix
  | [], _ + 1 => List.prefix_refl []
  | c :: s, i + 1 => by
    rw [sliceTo]
    · exact (List.prefix_cons_inj c).2 (sliceTo_isPrefix s _)
    · intro h
      cases h

theorem utf8Len_sliceTo : ∀ {s : Str} {i : Nat}, isCharBoundary s i = true →
    utf8Len (sliceTo s i) = i
  | s, 0, _ => by
    rw [sliceTo]
    rfl
  | [], _ + 1, h => by cases h
  | c :: s, i + 1, h => by
    rw [isCharBoundary, Bool.and_eq_true, decide_eq_true_eq] at h
    · rw [sliceTo, utf8Len_cons, utf8Len_sliceTo h.2]
      · omega
      · intro h0
        cases h0
    · intro h0
      cases h0

theorem trim_of_noWhitespace {s : Str} (h : ∀ c ∈ s, isWhitespace c = false) : trim s = s := by
  have h1 : s.dropWhile isWhitespace = s := by
    cases s with
    | nil => rfl
    | cons c s => rw [List.dropWhile_cons, h c (.head _)]; rfl
  rw [trim, h1, List.rdropWhile_eq_self_iff]
  intro hs
  simpa using h _ (List.getLast_mem hs)

theorem stripSuffix_eq_some {s suffix p : Str} : stripSuffix s suffix = some p ↔ s = p ++ suffix := by
  unfold stripSuffix
  constructor
  · intro h
    split at h
    · rename_i hs
      obtain ⟨q, rfl⟩ := hs
      simpa [eq_comm] using h
    · cases h
  · rintro rfl
    rw [if_pos (List.suffix_append _ _)]
    simp

theorem splitOnce_eq_some {c : Char} {s a b : Str} :
    splitOnce c s = some (a, b) ↔ s = a ++ c :: b ∧ c ∉ a := by
  induction s generalizing a with
  | nil => simp [splitOnce]
  | cons x s ih =>
    unfold splitOnce
    split
    · rename_i hx
      subst hx
      cases a with
      | nil => simp
      | cons y a =>
        simp only [Option.some.injEq, Prod.mk.injEq, reduceCtorEq, false_and, List.cons_append,
          List.cons.injEq, List.mem_cons, not_or, false_iff, not_and, not_not]
        rintro ⟨rfl, -⟩ h
        exact absurd rfl h
    · rename_i hx
      simp only [Option.map_eq_some_iff, Prod.exists, Prod.mk.injEq]
      constructor
      · rintro ⟨a', b', h, rfl, rfl⟩
        obtain ⟨rfl, hn⟩ := ih.1 h
        exact ⟨rfl, by simp [Ne.symm hx, hn]⟩
      · rintro ⟨h, hn⟩
        cases a with
        | nil => simp only [List.nil_append, List.cons.injEq] at h; exact absurd h.1 hx
        | cons y a =>
          simp only [List.cons_append, List.cons.injEq] at h
          simp only [List.mem_cons, not_or] at hn
          exact ⟨a, b, ih.2 ⟨h.2, hn.2⟩, by rw [h.1], rfl⟩

end Str
