import Warpline.Std.Str
import Warpline.Std.Usize

/-!
# Text and bytes of numbers and strings

`u64::to_string` and `str::parse::<u64>`, `as_bytes` and `String::from_utf8`. Each reads back what
the other one writes.
-/

set_option autoImplicit false

namespace Str

/-- `as_bytes`. -/
def utf8 (s : Str) : List UInt8 := s.flatMap String.utf8EncodeChar

/-- `String::from_utf8`. -/
def fromUtf8 (b : List UInt8) : Option Str := (ByteArray.mk b.toArray).utf8Decode?.map Array.toList

@[simp] theorem fromUtf8_utf8 (s : Str) : fromUtf8 (utf8 s) = some s := by
  have hbytes : ByteArray.mk (utf8 s).toArray = s.utf8Encode :=
    ByteArray.ext List.data_toByteArray.symm
  rw [fromUtf8, hbytes, List.utf8Decode?_utf8Encode, Option.map_some]

theorem utf8_injective : Function.Injective utf8 := by
  intro s s' h
  have hs := fromUtf8_utf8 s
  rw [h, fromUtf8_utf8] at hs
  exact (Option.some.inj hs).symm

end Str

namespace Usize

/-- `to_string`. -/
def display (n : Usize) : Str := Nat.toDigits 10 n.toNat

/-- The digits of a number after those that have come to `acc`. -/
def parseDigits (acc : Usize) : Str → Option Usize
  | [] => some acc
  | c :: s =>
    if c.isDigit then
      (checkedMul acc 10).bind fun acc =>
        (checkedAdd acc (UInt64.ofNat (c.toNat - '0'.toNat))).bind fun acc => parseDigits acc s
    else none

/-- `parse::<u64>`: a sign `+` is allowed, a number that does not fit is not. -/
def parse : Str → Option Usize
  | [] => none
  | c :: s => if c = '+' then (if s = [] then none else parseDigits 0 s) else parseDigits 0 (c :: s)

theorem le_ofDigitChars (s : Str) (init : Nat) : init ≤ Nat.ofDigitChars 10 s init := by
  induction s generalizing init with
  | nil => simp
  | cons c s ih =>
    rw [Nat.ofDigitChars_cons]
    exact Nat.le_trans (by omega) (ih _)

theorem digit_lt {c : Char} (h : c.isDigit = true) : c.toNat - '0'.toNat < 10 := by
  simp only [Char.isDigit, Bool.and_eq_true, decide_eq_true_eq] at h
  have h2 : c.toNat ≤ '9'.toNat := UInt32.le_iff_toNat_le.1 h.2
  have h9 : '9'.toNat = 57 := rfl
  have h0 : '0'.toNat = 48 := rfl
  omega

/-- Digits are read as the number they say, if it fits. -/
theorem parseDigits_eq {s : Str} (acc : Usize) (hs : ∀ c ∈ s, c.isDigit = true)
    (hfit : Nat.ofDigitChars 10 s acc.toNat < 2 ^ 64) :
    parseDigits acc s = some (UInt64.ofNat (Nat.ofDigitChars 10 s acc.toNat)) := by
  induction s generalizing acc with
  | nil => simp [parseDigits]
  | cons c s ih =>
    rw [Nat.ofDigitChars_cons] at hfit ⊢
    have hc := hs c (.head _)
    have hle := le_ofDigitChars s (10 * acc.toNat + (c.toNat - '0'.toNat))
    have hd := digit_lt hc
    have hdigit : (UInt64.ofNat (c.toNat - '0'.toNat)).toNat = c.toNat - '0'.toNat :=
      Nat.mod_eq_of_lt (by omega)
    have hten : (10 : Usize).toNat = 10 := rfl
    have hmul : checkedMul acc 10 = some (acc * 10) := by
      unfold checkedMul
      rw [hten, if_pos (by omega)]
    have hmulNat := checkedMul_eq_some.1 hmul
    rw [hten] at hmulNat
    have hadd : checkedAdd (acc * 10) (UInt64.ofNat (c.toNat - '0'.toNat)) =
        some (acc * 10 + UInt64.ofNat (c.toNat - '0'.toNat)) := by
      unfold checkedAdd
      rw [hmulNat, hdigit, if_pos (by omega)]
    have haddNat : (acc * 10 + UInt64.ofNat (c.toNat - '0'.toNat)).toNat =
        10 * acc.toNat + (c.toNat - '0'.toNat) := by
      rw [checkedAdd_eq_some.1 hadd, hmulNat, hdigit, Nat.mul_comm]
    rw [parseDigits, if_pos hc, hmul, Option.bind_some, hadd, Option.bind_some,
      ih _ (fun c hc => hs c (.tail _ hc)) (by rw [haddNat]; exact hfit), haddNat]

/-- **What `to_string` writes, `parse` reads back.** -/
@[simp] theorem parse_display (n : Usize) : parse (display n) = some n := by
  have hdigits : ∀ c ∈ display n, c.isDigit = true := fun c hc =>
    Nat.isDigit_of_mem_toDigits (by decide) (by decide) hc
  have hread : Nat.ofDigitChars 10 (display n) (0 : Usize).toNat = n.toNat :=
    Nat.ofDigitChars_ten_toDigits
  have hn := n.toNat_lt
  have hp := parseDigits_eq (s := display n) 0 hdigits (by omega)
  rw [hread, UInt64.ofNat_toNat] at hp
  cases hd : display n with
  | nil => exact absurd hd Nat.toDigits_ne_nil
  | cons c s =>
    have hplus : c ≠ '+' := by
      rintro rfl
      have := hdigits '+' (by rw [hd]; exact .head _)
      simp at this
    rw [parse, if_neg hplus, ← hd, hp]

/-- A `u64` has at most 20 digits. -/
theorem length_display (n : Usize) : (display n).length ≤ 20 := by
  unfold display
  rw [Nat.length_toDigits_le_iff (by decide) (by decide)]
  have := n.toNat_lt
  omega

end Usize
