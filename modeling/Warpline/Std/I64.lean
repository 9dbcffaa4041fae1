import Mathlib

/-!
# `i64`

A value is an integer from `MIN` to `MAX`; `+`, `-` and `as` wrap (a release build checks no
overflow). Where the exact result fits, it is the result.
-/

set_option autoImplicit false

namespace I64

def MIN : Int := -2 ^ 63
def MAX : Int := 2 ^ 63 - 1

def Fits (x : Int) : Prop := MIN ≤ x ∧ x ≤ MAX

instance (x : Int) : Decidable (Fits x) := inferInstanceAs (Decidable (_ ∧ _))

/-- The value with the same low 64 bits. -/
def wrap (x : Int) : Int := (x + 2 ^ 63) % 2 ^ 64 - 2 ^ 63

def add (x y : Int) : Int := wrap (x + y)
def sub (x y : Int) : Int := wrap (x - y)

def saturatingAdd (x y : Int) : Int := max MIN (min MAX (x + y))

/-- `n as i64`. -/
def ofUsize (n : Nat) : Int := wrap n

/-- `x as usize`. -/
def toUsize (x : Int) : Nat := (x % 2 ^ 64).toNat

theorem wrap_of_fits {x : Int} (h : Fits x) : wrap x = x := by
  unfold wrap
  unfold Fits MIN MAX at h
  omega

theorem add_of_fits {x y : Int} (h : Fits (x + y)) : add x y = x + y := wrap_of_fits h

theorem sub_of_fits {x y : Int} (h : Fits (x - y)) : sub x y = x - y := wrap_of_fits h

theorem saturatingAdd_of_fits {x y : Int} (h : Fits (x + y)) : saturatingAdd x y = x + y := by
  unfold saturatingAdd
  unfold Fits at h
  omega

theorem ofUsize_of_lt {n : Nat} (h : n < 2 ^ 63) : ofUsize n = n :=
  wrap_of_fits ⟨by unfold MIN; omega, by unfold MAX; omega⟩

@[simp] theorem toUsize_natCast {n : Nat} (h : n < 2 ^ 63) : toUsize n = n := by
  unfold toUsize
  omega

theorem fits_natCast {n : Nat} (h : n < 2 ^ 63) : Fits n := by
  unfold Fits MIN MAX
  omega

end I64
