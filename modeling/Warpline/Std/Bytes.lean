import Warpline.Std.Str

/-!
# Byte strings

A byte string read as UTF-8: its characters, and the chunks that decode to none. File names and
file contents are byte strings; what Rust reads out of one is a string only if every chunk is a
character (`String::from_utf8`), or with every other chunk replaced (`to_string_lossy`).
-/

set_option autoImplicit false

inductive Chunk
  | char (c : Char)
  | raw (b : List UInt8)
  deriving DecidableEq, Repr

abbrev Bytes := List Chunk

namespace Bytes

def ofStr (s : Str) : Bytes := s.map .char

def toStr : Bytes → Option Str
  | [] => some []
  | .char c :: b => (toStr b).map (c :: ·)
  | .raw _ :: _ => none

def toStringLossy (b : Bytes) : Str :=
  b.map fun
    | .char c => c
    | .raw _ => '\uFFFD'

/-- The number of bytes. -/
def byteLen (b : Bytes) : Nat :=
  (b.map fun
    | .char c => c.utf8Size
    | .raw r => r.length).sum

@[simp] theorem toStr_ofStr (s : Str) : toStr (ofStr s) = some s := by
  induction s with
  | nil => rfl
  | cons c s ih => simpa [ofStr, toStr] using ih

@[simp] theorem toStringLossy_ofStr (s : Str) : toStringLossy (ofStr s) = s := by
  simp [toStringLossy, ofStr, Function.comp_def]

theorem ofStr_injective : Function.Injective ofStr :=
  List.map_injective_iff.2 fun _ _ h => by simpa using h

@[simp] theorem ofStr_inj {s s' : Str} : ofStr s = ofStr s' ↔ s = s' := ofStr_injective.eq_iff

theorem toStr_eq_some {b : Bytes} {s : Str} : toStr b = some s ↔ b = ofStr s := by
  constructor
  · intro h
    induction b generalizing s with
    | nil => simp only [toStr, Option.some.injEq] at h; exact h ▸ rfl
    | cons x b ih =>
      cases x with
      | char c =>
        simp only [toStr, Option.map_eq_some_iff] at h
        obtain ⟨t, ht, rfl⟩ := h
        rw [ih ht]
        rfl
      | raw r => cases h
  · rintro rfl
    exact toStr_ofStr s

end Bytes
