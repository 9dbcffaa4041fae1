import Warpline.Std.Bytes

/-!
# What the runtime uses of wasmtime and SHA-256

`Wasm` collects the functions of code outside the repository: hashing, compiling, (de)serializing
and pre-instantiating a component. An operation that may fail returns an `Option`.

`Wasm.plain` is a small model of it, in which a component is its bytes.
-/

set_option autoImplicit false

namespace Warpline

def isHex (c : Char) : Bool := ('0' ≤ c && c ≤ '9') || ('a' ≤ c && c ≤ 'f')

/-- Exactly 64 lowercase hex characters. -/
def isValidDigest (s : Str) : Bool := Str.utf8Len s == 64 && s.all isHex

structure Wasm where
  Engine : Type
  Component : Type
  HandlerPre : Type
  /-- Hex SHA-256. -/
  digest : Bytes → Str
  /-- Hex SHA-256 of `precompile_compatibility_hash()`. -/
  compatHash : Engine → Str
  componentNew : Engine → Bytes → Option Component
  serialize : Component → Option Bytes
  deserialize : Engine → Bytes → Option Component
  /-- `linker.instantiate_pre` with the linker of the engine, then `HandlerPre::new`. -/
  instantiatePre : Engine → Component → Option HandlerPre
  digest_valid : ∀ b, isValidDigest (digest b) = true
  compatHash_valid : ∀ e, isValidDigest (compatHash e) = true

theorem isHex_range {c : Char} (h : isHex c = true) :
    (0x30 ≤ c.toNat ∧ c.toNat ≤ 0x39) ∨ (0x61 ≤ c.toNat ∧ c.toNat ≤ 0x66) := by
  simp only [isHex, Bool.or_eq_true, Bool.and_eq_true, decide_eq_true_eq, Char.le_def,
    UInt32.le_iff_toNat_le] at h
  exact h

theorem utf8Size_of_isHex {c : Char} (h : isHex c = true) : c.utf8Size = 1 := by
  rw [Char.utf8Size_eq_one_iff, UInt32.le_iff_toNat_le]
  have := isHex_range h
  change c.toNat ≤ _
  simp
  omega

theorem utf8Len_of_isHex {s : Str} (h : ∀ c ∈ s, isHex c = true) : Str.utf8Len s = s.length := by
  rw [Str.utf8Len, List.map_congr_left fun c hc => utf8Size_of_isHex (h c hc)]
  simp

/-- A digest is an ordinary path component. -/
theorem isValidDigest_spec {s : Str} (h : isValidDigest s = true) :
    s.length = 64 ∧ ∀ c ∈ s, c ≠ '/' ∧ c ≠ '.' ∧ c ≠ '-' ∧ Str.isWhitespace c = false := by
  simp only [isValidDigest, Bool.and_eq_true, beq_iff_eq, List.all_eq_true] at h
  refine ⟨utf8Len_of_isHex h.2 ▸ h.1, fun c hm => ?_⟩
  have := isHex_range (h.2 c hm)
  refine ⟨?_, ?_, ?_, ?_⟩
  · rintro rfl; revert this; decide
  · rintro rfl; revert this; decide
  · rintro rfl; revert this; decide
  · unfold Str.isWhitespace
    simp only [Bool.or_eq_false_iff, Bool.and_eq_false_iff, decide_eq_false_iff_not,
      beq_eq_false_iff_ne]
    omega

/-- A digest is not trimmed. -/
theorem trim_digest {digest : Str} (h : isValidDigest digest = true) : Str.trim digest = digest :=
  Str.trim_of_noWhitespace fun c hm => ((isValidDigest_spec h).2 c hm).2.2.2

/-! ## A small model -/

def hexDigit (n : Nat) : Char := "0123456789abcdef".toList.getD (n % 16) '0'

theorem hexDigit_isHex (n : Nat) : isHex (hexDigit n) = true := by
  have h : ∀ k < 16, isHex ("0123456789abcdef".toList.getD k '0') = true := by decide
  exact h _ (Nat.mod_lt _ (by decide))

/-- One hex digit for each of the first 64 chunks. -/
def plainDigest (b : Bytes) : Str :=
  (b.map fun
      | .char c => hexDigit c.toNat
      | .raw r => hexDigit r.length).takeD 64 '0'

theorem isHex_takeD {s : Str} (n : Nat) (h : ∀ c ∈ s, isHex c = true) :
    ∀ c ∈ s.takeD n '0', isHex c = true := by
  induction n generalizing s with
  | zero => simp
  | succ n ih =>
    cases s with
    | nil =>
      intro c hc
      rw [List.takeD_nil] at hc
      rw [List.eq_of_mem_replicate hc]
      decide
    | cons a s =>
      intro c hc
      rw [List.takeD_succ] at hc
      rcases List.mem_cons.1 hc with rfl | hc
      · exact h _ (.head _)
      · exact ih (fun c hc => h c (.tail _ hc)) c hc

theorem isValidDigest_takeD {s : Str} (h : ∀ c ∈ s, isHex c = true) :
    isValidDigest (s.takeD 64 '0') = true := by
  have hx := isHex_takeD 64 h
  simp only [isValidDigest, Bool.and_eq_true, beq_iff_eq, List.all_eq_true]
  exact ⟨by rw [utf8Len_of_isHex hx, List.takeD_length], hx⟩

/-- Engines are numbered, a component is its bytes, and serializing marks them. -/
def Wasm.plain : Wasm where
  Engine := Nat
  Component := Bytes
  HandlerPre := Bytes
  digest := plainDigest
  compatHash e := [hexDigit e].takeD 64 '0'
  componentNew _ b := some b
  serialize b := some (.raw [0] :: b)
  deserialize _ b := match b with
    | .raw [0] :: b => some b
    | _ => none
  instantiatePre _ b := some b
  digest_valid b := isValidDigest_takeD fun c hc => by
    obtain ⟨x, -, rfl⟩ := List.mem_map.1 hc
    split <;> exact hexDigit_isHex _
  compatHash_valid e := isValidDigest_takeD fun c hc => by
    rw [List.mem_singleton.1 hc]
    exact hexDigit_isHex e

end Warpline
