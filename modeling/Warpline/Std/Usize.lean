import Mathlib

/-!
# Machine integers

`usize` on a 64-bit target. Addition wraps (a release build checks no overflow), subtraction is
only used in its saturating form. The lemmas read both through `toNat`.
-/

set_option autoImplicit false

abbrev Usize := UInt64

namespace Usize

def saturatingSub (a b : Usize) : Usize := if b ≤ a then a - b else 0

@[simp] theorem toNat_saturatingSub (a b : Usize) :
    (saturatingSub a b).toNat = a.toNat - b.toNat := by
  unfold saturatingSub
  split
  · rename_i h
    exact UInt64.toNat_sub_of_le _ _ h
  · rename_i h
    rw [UInt64.not_le, UInt64.lt_iff_toNat_lt] at h
    simp only [UInt64.toNat_zero]
    omega

def saturatingAdd (a b : Usize) : Usize :=
  if a.toNat + b.toNat < 2 ^ 64 then a + b else UInt64.ofNat (2 ^ 64 - 1)

def checkedAdd (a b : Usize) : Option Usize :=
  if a.toNat + b.toNat < 2 ^ 64 then some (a + b) else none

def checkedMul (a b : Usize) : Option Usize :=
  if a.toNat * b.toNat < 2 ^ 64 then some (a * b) else none

theorem toNat_add_of_lt {a b : Usize} (h : a.toNat + b.toNat < 2 ^ 64) :
    (a + b).toNat = a.toNat + b.toNat := by
  rw [UInt64.toNat_add, Nat.mod_eq_of_lt h]

theorem toNat_saturatingAdd_of_lt {a b : Usize} (h : a.toNat + b.toNat < 2 ^ 64) :
    (saturatingAdd a b).toNat = a.toNat + b.toNat := by
  rw [saturatingAdd, if_pos h, toNat_add_of_lt h]

theorem checkedAdd_eq_some {a b c : Usize} :
    checkedAdd a b = some c ↔ c.toNat = a.toNat + b.toNat := by
  unfold checkedAdd
  split
  · rename_i h
    rw [Option.some.injEq, ← UInt64.toNat_inj, toNat_add_of_lt h, eq_comm]
  · rename_i h
    have := c.toNat_lt
    simp only [reduceCtorEq, false_iff]
    omega

theorem checkedMul_eq_some {a b c : Usize} :
    checkedMul a b = some c ↔ c.toNat = a.toNat * b.toNat := by
  unfold checkedMul
  split
  · rename_i h
    rw [Option.some.injEq, ← UInt64.toNat_inj, UInt64.toNat_mul, Nat.mod_eq_of_lt h, eq_comm]
  · rename_i h
    have := c.toNat_lt
    simp only [reduceCtorEq, false_iff]
    omega

/-- A sum that does not fit loses exactly `2 ^ 64`. -/
theorem toNat_add_of_ge {a b : Usize} (h : 2 ^ 64 ≤ a.toNat + b.toNat) :
    (a + b).toNat + 2 ^ 64 = a.toNat + b.toNat := by
  have ha := a.toNat_lt
  have hb := b.toNat_lt
  rw [UInt64.toNat_add, Nat.mod_eq_sub_mod h, Nat.mod_eq_of_lt (by omega)]
  omega

theorem max_eq_left {a b : Usize} (h : b ≤ a) : max a b = a := by
  show (if a ≤ b then b else a) = a
  split
  · rename_i hab
    exact UInt64.le_antisymm h hab
  · rfl

theorem toNat_max (a b : Usize) : (max a b).toNat = max a.toNat b.toNat := by
  show (if a ≤ b then b else a).toNat = max a.toNat b.toNat
  split
  · rename_i h
    rw [UInt64.le_iff_toNat_le] at h
    omega
  · rename_i h
    rw [UInt64.le_iff_toNat_le] at h
    omega

theorem toNat_min (a b : Usize) : (min a b).toNat = min a.toNat b.toNat := by
  show (if a ≤ b then a else b).toNat = min a.toNat b.toNat
  split
  · rename_i h
    rw [UInt64.le_iff_toNat_le] at h
    omega
  · rename_i h
    rw [UInt64.le_iff_toNat_le] at h
    omega

/-- The sum of a list of sizes, as a number. -/
def sum (l : List Usize) : Nat := (l.map UInt64.toNat).sum

@[simp] theorem sum_nil : sum [] = 0 := rfl
@[simp] theorem sum_cons (a : Usize) (l : List Usize) : sum (a :: l) = a.toNat + sum l := by
  simp [sum]

theorem sum_replicate_zero (n : Nat) : sum (List.replicate n 0) = 0 := by
  simp [sum]

/-- Replacing one entry changes the sum by the difference. -/
theorem sum_set {l : List Usize} {i : Nat} {a : Usize} (h : l[i]? = some a) (b : Usize) :
    sum (l.set i b) + a.toNat = sum l + b.toNat := by
  induction l generalizing i with
  | nil => simp at h
  | cons x l ih =>
    cases i with
    | zero =>
      simp only [List.getElem?_cons_zero, Option.some.injEq] at h
      subst h
      simp only [List.set_cons_zero, sum_cons]
      omega
    | succ i =>
      simp only [List.getElem?_cons_succ] at h
      have := ih h
      simp only [List.set_cons_succ, sum_cons]
      omega

theorem le_sum {l : List Usize} {i : Nat} {a : Usize} (h : l[i]? = some a) :
    a.toNat ≤ sum l := by
  have := sum_set h 0
  simp only [UInt64.toNat_zero] at this
  omega

end Usize
