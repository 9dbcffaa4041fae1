import Warpline.Core.Proof.CacheRun

/-!
# The caps of the cache

`Capped` is the invariant: the number of entries within the capacity, and the counter no less than
the resident weights, no more than all that was inserted, and within the budget unless nothing is
resident. `Capped.step` is one critical section, `Capped.run` any sequence of them, and
`cache_within_caps` the main result. `InsertRuns` says what goes on inside an insertion.
-/

set_option autoImplicit false

namespace Warpline

open ComponentCacheInner

variable {π : Type} {L : LruCrate Str (CacheEntry π)}

def CacheOp.weight : CacheOp π → Nat
  | .hit _ => 0
  | .insert _ _ weight => weight.toNat

/-- The sum of the inserted weights. -/
def insertedWeight (ops : List (CacheOp π)) : Nat := (ops.map CacheOp.weight).sum

def applyAll (byteBudget : Usize) (ops : List (CacheOp π)) (inner : ComponentCacheInner L) :
    ComponentCacheInner L :=
  ops.foldl (fun inner op => op.apply byteBudget inner) inner

/-- Inside an insertion: no subtraction is clipped, neither of a replaced entry nor in any round of
the loop, and the loop ends with what `insert` leaves. -/
structure InsertRuns (byteBudget : Usize) (digest : Str) (pre : π) (weight : Usize)
    (inner : ComponentCacheInner L) : Prop where
  replaced : ∀ old, (L.put digest ⟨pre, weight⟩ inner.lru).1 = some old →
    old.weight ≤ inner.totalBytes
  popped : ∀ rounds evicted,
    (L.popLru (evict byteBudget rounds (inserted digest pre weight inner)).lru).1 = some evicted →
      evicted.2.weight ≤ (evict byteBudget rounds (inserted digest pre weight inner)).totalBytes
  ends : ∃ bound, ∀ rounds ≥ bound,
    evict byteBudget rounds (inserted digest pre weight inner) =
        inner.insert byteBudget digest pre weight ∧
      (¬byteBudget < (inner.insert byteBudget digest pre weight).totalBytes ∨
        (inner.insert byteBudget digest pre weight).entries = [])

/-- `sum` bounds what was inserted. -/
structure Capped (cap : Nat) (byteBudget : Usize) (sum : Nat) (inner : ComponentCacheInner L) :
    Prop where
  sized : L.cap inner.lru = cap
  count : inner.entries.length ≤ cap
  drift : ∃ d, Drift d inner
  total : inner.totalBytes.toNat ≤ sum
  within : ¬byteBudget < inner.totalBytes ∨ inner.entries = []

section
variable {cap : Nat} {byteBudget : Usize} {sum : Nat} {digest : Str} {pre : π} {weight : Usize}
  {inner : ComponentCacheInner L}

theorem Capped.new (byteBudget : Usize) (L : LruCrate Str (CacheEntry π)) (hcap : 1 ≤ cap) :
    Capped cap byteBudget 0 (ComponentCacheInner.new L cap) where
  sized := by rw [ComponentCacheInner.new, L.cap_new]; omega
  count := by simp [ComponentCacheInner.new, entries]
  drift := ⟨0, by simp [Drift, ComponentCacheInner.new, weights, entries]⟩
  total := Nat.le_refl 0
  within := .inr (L.entries_new _)

/-- The entries and the bytes of a capped cache. -/
theorem Capped.weights_le (h : Capped cap byteBudget sum inner) :
    inner.weights ≤ byteBudget.toNat := by
  obtain ⟨d, hd⟩ := h.drift
  unfold Drift at hd
  rcases h.within with hb | hnil
  · rw [UInt64.lt_iff_toNat_lt] at hb
    omega
  · simp [weights, hnil]

/-! ## One insertion -/

theorem length_promote (digest : Str) (l : List (Str × CacheEntry π)) :
    (Lru.promote digest l).length ≤ l.length := by
  unfold Lru.promote
  split
  · rename_i e he
    exact Lru.length_erase_lt he
  · exact Nat.le_refl _

theorem length_inserted (digest : Str) (pre : π) (weight : Usize) (hcap : 1 ≤ L.cap inner.lru)
    (hcount : inner.entries.length ≤ L.cap inner.lru) :
    (inserted digest pre weight inner).entries.length ≤ L.cap inner.lru := by
  rw [inserted_entries]
  unfold Lru.put
  split
  · rename_i old hold
    exact Nat.le_trans (Lru.length_erase_lt hold) hcount
  · simp only [List.length_cons]
    split
    · assumption
    · rw [List.length_dropLast]
      omega

/-- The state the loop starts from: the drift, and a counter that has not wrapped. -/
theorem inserted_spec (digest : Str) (pre : π) {d : Nat} (hcap : 1 ≤ L.cap inner.lru) (hd : Drift d inner)
    (hsum : inner.totalBytes.toNat + weight.toNat < 2 ^ 64) :
    Drift (d + dropped digest inner) (inserted digest pre weight inner) ∧
      (inserted digest pre weight inner).totalBytes.toNat ≤
        inner.totalBytes.toNat + weight.toNat := by
  obtain ⟨t, ht, htn⟩ := inserted_total digest pre weight hd
  have hput := weight_put digest pre weight inner hcap
  have hothers := weights_eq digest inner
  have hle : t.toNat ≤ inner.totalBytes.toNat := by
    unfold Drift at hd
    omega
  have htotal : (inserted digest pre weight inner).totalBytes.toNat = t.toNat + weight.toNat := by
    rw [ht, Usize.toNat_add_of_lt (by omega)]
  refine ⟨?_, by omega⟩
  unfold Drift weights
  rw [htotal, inserted_entries]
  omega

theorem evict_total_le (rounds : Nat) :
    (evict byteBudget rounds inner).totalBytes.toNat ≤ inner.totalBytes.toNat := by
  refine evict_keep (P := fun i => i.totalBytes.toNat ≤ inner.totalBytes.toNat)
    (fun i i' e h _ _ _ _ ht => ?_) rounds (Nat.le_refl _)
  rw [ht, Usize.toNat_saturatingSub]
  omega

theorem evict_length_le (rounds : Nat) :
    (evict byteBudget rounds inner).entries.length ≤ inner.entries.length := by
  refine evict_keep (P := fun i => i.entries.length ≤ inner.entries.length)
    (fun i i' e h _ _ hen _ _ => ?_) rounds (Nat.le_refl _)
  rw [hen, List.length_dropLast]
  omega

/-- A resident entry weighs no more than the counter. -/
theorem Drift.le_total {d : Nat} {e : Str × CacheEntry π} (hd : Drift d inner)
    (he : inner.entries.getLast? = some e) : e.2.weight ≤ inner.totalBytes := by
  have hlast := Lru.weight_dropLast (fun e : CacheEntry π => e.weight.toNat) he
  unfold Drift weights at hd
  rw [UInt64.le_iff_toNat_le]
  omega

theorem Capped.insertRuns (h : Capped cap byteBudget sum inner) (hcap : 1 ≤ cap)
    (hsum : sum + weight.toNat < 2 ^ 64) : InsertRuns byteBudget digest pre weight inner := by
  obtain ⟨d, hd⟩ := h.drift
  have htotal := h.total
  have hcap' : 1 ≤ L.cap inner.lru := by
    rw [h.sized]
    exact hcap
  obtain ⟨hdrift, -⟩ := inserted_spec digest pre hcap' hd
    (show inner.totalBytes.toNat + weight.toNat < 2 ^ 64 by omega)
  constructor
  · intro old hold
    rw [L.put_fst, Lru.put_fst] at hold
    have hothers := weights_eq digest inner
    have hold' : Lru.find digest inner.entries = some old := hold
    rw [hold'] at hothers
    simp only [Option.map_some, Option.getD_some] at hothers
    unfold Drift at hd
    rw [UInt64.le_iff_toNat_le]
    omega
  · intro rounds evicted hpop
    rw [L.popLru_fst] at hpop
    exact Drift.le_total (evict_drift rounds hdrift) hpop
  · refine ⟨_, fun rounds hrounds => ⟨evict_stable hrounds, ?_⟩⟩
    exact evict_done (inserted digest pre weight inner)

/-! ## Runs -/

theorem Capped.step (h : Capped cap byteBudget sum inner) (hcap : 1 ≤ cap) (op : CacheOp π)
    (hsum : sum + op.weight < 2 ^ 64) :
    Capped cap byteBudget (sum + op.weight) (op.apply byteBudget inner) := by
  obtain ⟨d, hd⟩ := h.drift
  cases op with
  | hit digest =>
    refine ⟨?_, ?_, ⟨d, ?_⟩, h.total, ?_⟩
    · rw [apply_cap]
      exact h.sized
    · refine Nat.le_trans ?_ h.count
      rw [CacheOp.apply, hit, entries, L.entries_get]
      exact length_promote digest _
    · exact hd.trans (by rw [CacheOp.apply, weights_hit])
    · rcases h.within with hb | hnil
      · exact .inl hb
      · right
        have hlen := length_promote digest inner.entries
        rw [hnil] at hlen
        rw [CacheOp.apply, hit, entries, L.entries_get]
        exact List.length_eq_zero_iff.1 (Nat.le_zero.1 (by rw [← entries, hnil]; exact hlen))
  | insert digest pre weight =>
    have htotal := h.total
    simp only [CacheOp.weight] at hsum
    have hcap' : 1 ≤ L.cap inner.lru := by
      rw [h.sized]
      exact hcap
    have hcount : inner.entries.length ≤ L.cap inner.lru := by
      rw [h.sized]
      exact h.count
    obtain ⟨hdrift, hle⟩ := inserted_spec digest pre hcap' hd
      (show inner.totalBytes.toNat + weight.toNat < 2 ^ 64 by omega)
    refine ⟨?_, ?_, ⟨_, evict_drift _ hdrift⟩, ?_, evict_done (inserted digest pre weight inner)⟩
    · rw [apply_cap]
      exact h.sized
    · have hlen := length_inserted digest pre weight hcap' hcount
      rw [h.sized] at hlen
      exact Nat.le_trans (evict_length_le _) hlen
    · have hevict : (inner.insert byteBudget digest pre weight).totalBytes.toNat ≤
          (inserted digest pre weight inner).totalBytes.toNat := evict_total_le _
      rw [CacheOp.weight, CacheOp.apply]
      omega

theorem Capped.run (h : Capped cap byteBudget sum inner) (hcap : 1 ≤ cap) (ops : List (CacheOp π))
    (hsum : sum + insertedWeight ops < 2 ^ 64) :
    Capped cap byteBudget (sum + insertedWeight ops) (applyAll byteBudget ops inner) := by
  induction ops generalizing sum inner with
  | nil => exact h
  | cons op ops ih =>
    have hsplit : insertedWeight (op :: ops) = op.weight + insertedWeight ops := by
      simp [insertedWeight]
    rw [hsplit] at hsum ⊢
    have hstep := h.step hcap op (by omega)
    rw [← Nat.add_assoc]
    exact ih hstep (by omega)

end

/-- After every sequence of critical sections both caps hold, and another insertion clips nothing
and ends. -/
theorem cache_within_caps (L : LruCrate Str (CacheEntry π)) {cap : Nat} (hcap : 1 ≤ cap)
    (byteBudget : Usize) (ops : List (CacheOp π)) (hsum : insertedWeight ops < 2 ^ 64) :
    (applyAll byteBudget ops (ComponentCacheInner.new L cap)).entries.length ≤ cap ∧
      (applyAll byteBudget ops (ComponentCacheInner.new L cap)).weights ≤ byteBudget.toNat ∧
      ∀ digest pre (weight : Usize), insertedWeight ops + weight.toNat < 2 ^ 64 →
        InsertRuns byteBudget digest pre weight
          (applyAll byteBudget ops (ComponentCacheInner.new L cap)) := by
  have hrun := (Capped.new byteBudget L hcap).run hcap ops (by omega)
  rw [Nat.zero_add] at hrun
  exact ⟨hrun.count, hrun.weights_le, fun _ _ _ h => hrun.insertRuns hcap h⟩

theorem cache_within_caps_two :
    (applyAll 100 [.insert ['a'] () 60, .insert ['b'] () 60, .hit ['a']]
      (ComponentCacheInner.new (LruCrate.list Str (CacheEntry Unit)) 2)).weights ≤ 100 :=
  (cache_within_caps (LruCrate.list Str (CacheEntry Unit)) (by decide : 1 ≤ 2) 100
    [.insert ['a'] () 60, .insert ['b'] () 60, .hit ['a']] (by decide)).2.1

end Warpline
