import Warpline.Conc.Machine
import Warpline.Core.Types

/-!
# The store caps over whole runs of growth requests

A `StoreState` is a limiter with the actual sizes of the store's memories and tables; a
`Growth` is one request, with what the host allocator then does. The limiter keeps only totals, so
the cap on the actual sizes is an invariant (`Charged`): the total is at least the combined size
and at most the cap. An approved growth the allocator fails leaves the total ahead of the sizes.

The invariant is kept by every request whose sum `total + (desired - current)` fits a `usize`
(`Growth.Fits`). Past that, the wrapped sum is below the old total, so the request is approved
(`wrapped_total_lt`): carried out it exceeds the cap at once, failed by the allocator it lowers
the total, so that later requests may exceed the cap (`store_caps_broken_by_wrap`).
-/

set_option autoImplicit false

namespace Warpline

/-- What a request grows. -/
inductive Pool
  | memory
  | table
  deriving DecidableEq, Repr

structure StoreState where
  limiter : TenantLimiter
  memories : List Usize
  tables : List Usize
  deriving DecidableEq, Repr

structure Growth where
  pool : Pool
  obj : Nat
  desired : Usize
  max : Option Usize
  /-- The host allocator carries an approved growth out. -/
  carried : Bool
  deriving DecidableEq, Repr

namespace StoreState

/-- A fresh store with `n` memories and `m` tables; an object is created by growing from zero. -/
def new (memCapBytes : Usize) (n m : Nat) : StoreState where
  limiter := TenantLimiter.new memCapBytes
  memories := List.replicate n 0
  tables := List.replicate m 0

def sizes (s : StoreState) : Pool → List Usize
  | .memory => s.memories
  | .table => s.tables

def total (s : StoreState) : Pool → Usize
  | .memory => s.limiter.totalBytes
  | .table => s.limiter.totalTableElems

def cap (s : StoreState) : Pool → Usize
  | .memory => s.limiter.memCapBytes
  | .table => s.limiter.tableCapElems

/-- One request: wasmtime passes the object's actual size and never asks to shrink. -/
def grow (s : StoreState) (g : Growth) : Option StoreState :=
  match (s.sizes g.pool)[g.obj]? with
  | none => none
  | some current =>
    if g.desired < current then none
    else match g.pool with
      | .memory =>
        let q := s.limiter.memoryGrowing current g.desired g.max
        some { s with
          limiter := q.2
          memories := if q.1 && g.carried then s.memories.set g.obj g.desired else s.memories }
      | .table =>
        let q := s.limiter.tableGrowing current g.desired g.max
        some { s with
          limiter := q.2
          tables := if q.1 && g.carried then s.tables.set g.obj g.desired else s.tables }

end StoreState

/-- The combined actual sizes are within `cap` bytes and 10,000 table elements. -/
def StoreCaps (cap : Usize) (s : StoreState) : Prop :=
  Usize.sum s.memories ≤ cap.toNat ∧ Usize.sum s.tables ≤ 10000

instance (cap : Usize) (s : StoreState) : Decidable (StoreCaps cap s) :=
  inferInstanceAs (Decidable (_ ∧ _))

/-- The object's own maximum rejects the request, or the new total fits a `usize`. -/
def Growth.Fits (g : Growth) (s : StoreState) : Prop :=
  TenantLimiter.exceedsMax g.max g.desired = true ∨
    ∀ current, (s.sizes g.pool)[g.obj]? = some current →
      (s.total g.pool).toNat + (g.desired.toNat - current.toNat) < 2 ^ 64

instance (g : Growth) (s : StoreState) : Decidable (g.Fits s) :=
  decidable_of_iff (TenantLimiter.exceedsMax g.max g.desired = true ∨
    (s.sizes g.pool)[g.obj]?.all (fun current =>
      (s.total g.pool).toNat + (g.desired.toNat - current.toNat) < 2 ^ 64) = true)
    (by simp [Growth.Fits, Option.all_eq_true])

/-- What one request can do. -/
theorem grow_cases {s s' : StoreState} {g : Growth} (h : s.grow g = some s') :
    ∃ current, (s.sizes g.pool)[g.obj]? = some current ∧ current.toNat ≤ g.desired.toNat ∧
      s'.cap = s.cap ∧ (∀ p, p ≠ g.pool → s'.sizes p = s.sizes p ∧ s'.total p = s.total p) ∧
      let newTotal := s.total g.pool + Usize.saturatingSub g.desired current
      ((TenantLimiter.exceedsMax g.max g.desired = true ∨ s.cap g.pool < newTotal) ∧
          s'.sizes g.pool = s.sizes g.pool ∧ s'.total g.pool = s.total g.pool ∨
        TenantLimiter.exceedsMax g.max g.desired = false ∧ newTotal ≤ s.cap g.pool ∧
          s'.total g.pool = newTotal ∧
          s'.sizes g.pool = if g.carried then (s.sizes g.pool).set g.obj g.desired
            else s.sizes g.pool) := by
  unfold StoreState.grow at h
  split at h
  · cases h
  rename_i current hcur
  split at h
  · cases h
  rename_i hle
  rw [UInt64.not_lt, UInt64.le_iff_toNat_le] at hle
  refine ⟨current, hcur, hle, ?_⟩
  cases hp : g.pool with
  | memory =>
    simp only [hp, Option.some.injEq] at h
    subst h
    have hother : ∀ p, p ≠ Pool.memory → p = .table := fun p hne => by cases p <;> simp_all
    obtain ⟨hno, hit, heq⟩ | ⟨hm, hc, heq⟩ :=
      s.limiter.memoryGrowing_spec current g.desired g.max
    · rw [heq]
      refine ⟨by funext p; cases p <;> rfl, fun p hne => ?_, .inl ⟨hno, rfl, rfl⟩⟩
      rw [hother p hne]
      exact ⟨rfl, rfl⟩
    · rw [heq]
      refine ⟨by funext p; cases p <;> rfl, fun p hne => ?_, .inr ⟨hm, hc, rfl, rfl⟩⟩
      rw [hother p hne]
      exact ⟨rfl, rfl⟩
  | table =>
    simp only [hp, Option.some.injEq] at h
    subst h
    have hother : ∀ p, p ≠ Pool.table → p = .memory := fun p hne => by cases p <;> simp_all
    obtain ⟨hno, heq⟩ | ⟨hm, hc, heq⟩ := s.limiter.tableGrowing_spec current g.desired g.max
    · rw [heq]
      refine ⟨by funext p; cases p <;> rfl, fun p hne => ?_, .inl ⟨hno, rfl, rfl⟩⟩
      rw [hother p hne]
      exact ⟨rfl, rfl⟩
    · rw [heq]
      refine ⟨by funext p; cases p <;> rfl, fun p hne => ?_, .inr ⟨hm, hc, rfl, rfl⟩⟩
      rw [hother p hne]
      exact ⟨rfl, rfl⟩

/-! ## The invariant -/

/-- The total of each pool covers the actual sizes and is within the cap. -/
structure Charged (cap : Usize) (s : StoreState) : Prop where
  memCap : s.cap .memory = cap
  tableCap : s.cap .table = 10000
  covers : ∀ p, Usize.sum (s.sizes p) ≤ (s.total p).toNat
  within : ∀ p, (s.total p).toNat ≤ (s.cap p).toNat

theorem Charged.new (cap : Usize) (n m : Nat) : Charged cap (StoreState.new cap n m) where
  memCap := rfl
  tableCap := rfl
  covers := fun p => by
    cases p <;> simp [StoreState.new, StoreState.sizes, Usize.sum_replicate_zero]
  within := fun p => by
    cases p <;> simp [StoreState.new, StoreState.total, TenantLimiter.new]

theorem Charged.caps {cap : Usize} {s : StoreState} (h : Charged cap s) : StoreCaps cap s := by
  have hm := Nat.le_trans (h.covers .memory) (h.within .memory)
  have ht := Nat.le_trans (h.covers .table) (h.within .table)
  rw [h.memCap] at hm
  rw [h.tableCap] at ht
  exact ⟨hm, ht⟩

theorem Charged.cap_le {cap : Usize} {s : StoreState} (h : Charged cap s)
    (hcap : cap.toNat ≤ 2 ^ 29) (p : Pool) : (s.cap p).toNat ≤ 2 ^ 29 := by
  cases p with
  | memory => rw [h.memCap]; exact hcap
  | table => rw [h.tableCap]; decide

theorem Charged.step {cap : Usize} {s s' : StoreState} {g : Growth} (h : Charged cap s)
    (hf : g.Fits s) (hs : s.grow g = some s') : Charged cap s' := by
  obtain ⟨current, hcur, hle, hc, hother, hcase⟩ := grow_cases hs
  have hpool : Usize.sum (s'.sizes g.pool) ≤ (s'.total g.pool).toNat ∧
      (s'.total g.pool).toNat ≤ (s.cap g.pool).toNat := by
    obtain ⟨-, hsz, ht⟩ | ⟨hm, hn, ht, hsz⟩ := hcase
    · rw [hsz, ht]
      exact ⟨h.covers _, h.within _⟩
    · have hfit := hf.resolve_left (by simp [hm]) current hcur
      have hnew : (s'.total g.pool).toNat =
          (s.total g.pool).toNat + (g.desired.toNat - current.toNat) := by
        rw [ht, Usize.toNat_add_of_lt (by simpa using hfit), Usize.toNat_saturatingSub]
      rw [UInt64.le_iff_toNat_le, ← ht] at hn
      refine ⟨?_, hn⟩
      have hcov := h.covers g.pool
      have hset := Usize.sum_set hcur g.desired
      rw [hsz, hnew]
      split <;> omega
  refine ⟨by rw [hc]; exact h.memCap, by rw [hc]; exact h.tableCap, fun p => ?_, fun p => ?_⟩
  · by_cases hp : p = g.pool
    · exact hp ▸ hpool.1
    · rw [(hother p hp).1, (hother p hp).2]
      exact h.covers p
  · rw [hc]
    by_cases hp : p = g.pool
    · exact hp ▸ hpool.2
    · rw [(hother p hp).2]
      exact h.within p

/-- The states a store reaches by requests that all meet `A`. -/
def StoreRun (A : Growth → StoreState → Prop) : StoreState → StoreState → Prop :=
  Relation.ReflTransGen fun s s' => ∃ g, A g s ∧ s.grow g = some s'

theorem Charged.run {cap : Usize} {s s' : StoreState} (h : Charged cap s)
    (hr : StoreRun Growth.Fits s s') : Charged cap s' := by
  induction hr with
  | refl => exact h
  | tail _ hs ih =>
    obtain ⟨g, hf, hg⟩ := hs
    exact ih.step hf hg

/-! ## Past the fit -/

/-- A new total that does not fit wraps to less than the old one, so it is approved. -/
theorem wrapped_total_lt (total delta : Usize) (h : 2 ^ 64 ≤ total.toNat + delta.toNat) :
    (total + delta).toNat < total.toNat := by
  have := Usize.toNat_add_of_ge h
  have := delta.toNat_lt
  omega

theorem Charged.overflow {cap : Usize} {s s' : StoreState} {g : Growth} (h : Charged cap s)
    (hcap : cap.toNat ≤ 2 ^ 29) (hf : ¬ g.Fits s) (hcar : g.carried = true)
    (hs : s.grow g = some s') : ¬ StoreCaps cap s' := by
  obtain ⟨current, hcur, hle, hc, -, hcase⟩ := grow_cases hs
  have hw := h.within g.pool
  have hb := h.cap_le hcap g.pool
  simp only [Growth.Fits, not_or, not_forall, Nat.not_lt] at hf
  obtain ⟨hm, c', hc', hbig⟩ := hf
  rw [hcur, Option.some.injEq] at hc'
  subst hc'
  have hlt := wrapped_total_lt (s.total g.pool)
    (Usize.saturatingSub g.desired current) (by simpa using hbig)
  obtain ⟨hno | hno, -⟩ | ⟨-, -, -, hsz⟩ := hcase
  · exact absurd hno hm
  · rw [UInt64.lt_iff_toNat_lt] at hno
    omega
  · -- the object itself is now larger than either cap
    rw [hcar, if_pos rfl] at hsz
    have hi : g.obj < (s.sizes g.pool).length := (List.getElem?_eq_some_iff.1 hcur).1
    have hself : (s'.sizes g.pool)[g.obj]? = some g.desired := by
      rw [hsz]
      simp [List.getElem?_set_self hi]
    have hsum := Usize.le_sum hself
    intro hcaps
    obtain ⟨h1, h2⟩ := hcaps
    cases hp : g.pool <;> simp only [hp, StoreState.sizes] at hsum <;> omega

/-! ## The caps -/

/-- Along every run whose requests fit, both caps hold of the actual sizes; a request that does
not fit, carried out in such a run, exceeds them. -/
theorem store_caps_of_fits {cap : Usize} (n m : Nat)
    (hcap : validateMemCapBytes (i64OfUsize cap) = .ok ()) :
    (∀ s, StoreRun Growth.Fits (StoreState.new cap n m) s → StoreCaps cap s) ∧
      ∀ s g s', StoreRun Growth.Fits (StoreState.new cap n m) s → ¬ g.Fits s →
        g.carried = true → s.grow g = some s' → ¬ StoreCaps cap s' := by
  have hinv : ∀ s, StoreRun Growth.Fits (StoreState.new cap n m) s → Charged cap s :=
    fun s hr => (Charged.new cap n m).run hr
  exact ⟨fun s hr => (hinv s hr).caps,
    fun s g s' hr hf hcar hs => (hinv s hr).overflow (memCap_of_valid hcap).2 hf hcar hs⟩

/-- Two memories and a table: a growth is carried out, one is approved and failed by the allocator, so
that the next one is rejected although the sizes have room for it, and the table takes its maximum. -/
def fittingRun : List Growth :=
  [⟨.memory, 0, 15 * 65536, none, true⟩, ⟨.memory, 1, 65536, some 65536, false⟩,
   ⟨.memory, 1, 65536, none, true⟩, ⟨.table, 0, 64, some 63, true⟩, ⟨.table, 0, 10000, none, true⟩]

theorem store_caps_of_fits_mib : ∃ s, StoreCaps 1048576 s ∧ s.memories = [15 * 65536, 0] ∧
    s.limiter.totalBytes = 16 * 65536 ∧ s.tables = [10000] := by
  have hend : (fittingRun.foldlM
      (fun (s : StoreState) (g : Growth) => if g.Fits s then s.grow g else none)
      (StoreState.new 1048576 2 1)).any (fun s => decide (s.memories = [15 * 65536, 0] ∧
        s.limiter.totalBytes = 16 * 65536 ∧ s.tables = [10000])) = true := by
    decide +kernel
  rw [Option.any_eq_true] at hend
  obtain ⟨s, hs, hend⟩ := hend
  have hrun : StoreRun Growth.Fits (StoreState.new 1048576 2 1) s := Conc.Run.of_checked hs
  exact ⟨s, (store_caps_of_fits 2 1 (by decide)).1 s hrun, of_decide_eq_true hend⟩

/-- Two memories under a cap of 16 pages: the second asks for the largest page-aligned size, the
sum wraps, and after the allocator fails it the total is two pages short, which the first memory
then grows by. -/
def wrapRun : List Growth :=
  [⟨.memory, 0, 15 * 65536, none, true⟩, ⟨.memory, 1, 65536, none, true⟩,
   ⟨.memory, 1, 18446744073709486080, none, false⟩, ⟨.memory, 0, 17 * 65536, none, true⟩]

theorem store_caps_broken_by_wrap :
    ¬ ∀ (cap : Usize) (n m : Nat), validateMemCapBytes (i64OfUsize cap) = .ok () →
      ∀ s, StoreRun (fun _ _ => True) (StoreState.new cap n m) s → StoreCaps cap s := by
  intro h
  obtain ⟨s, hs, hcaps⟩ : ∃ s, wrapRun.foldlM StoreState.grow (StoreState.new 1048576 2 0) = some s ∧
      ¬ StoreCaps 1048576 s := ⟨_, rfl, by decide⟩
  exact hcaps (h 1048576 2 0 (by decide) s
    (Conc.Run.of_foldlM (A := fun _ _ => True) hs fun _ _ _ => trivial))

end Warpline
