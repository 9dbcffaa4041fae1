import Warpline.Core.Types

/-!
# What the memory limiter charges, against what the memories are

`MemoryLedger` is the memory part of `TenantLimiter` in unbounded integers (`memoryGrowing_ledger`:
the limiter computes the same, as long as the sums fit). `Memories` is a store with the actual
sizes of its memories, and a `MemoryGrow` one request under wasmtime's protocol. A growth that is
approved and then fails stays charged, since the limiter does not override `memory_grow_failed`.

`grow_exact_iff` is one request, and `memory_ledger_iff` the main result: the ledger tells the truth
in every state of a run when no growth that fits is failed by the allocator.
-/

set_option autoImplicit false

namespace Warpline

structure MemoryLedger where
  memCapBytes : Nat
  totalBytes : Nat
  peakBytes : Nat
  capHit : Bool
  deriving DecidableEq, Repr

namespace MemoryLedger

def new (memCapBytes : Nat) : MemoryLedger := ⟨memCapBytes, 0, 0, false⟩

def exceedsMax (max : Option Nat) (desired : Nat) : Bool := max.any (· < desired)

def memoryGrowing (l : MemoryLedger) (current desired : Nat) (max : Option Nat) :
    Bool × MemoryLedger :=
  if exceedsMax max desired then (false, l)
  else
    let newTotal := l.totalBytes + (desired - current)
    if newTotal ≤ l.memCapBytes then
      (true, { l with totalBytes := newTotal, peakBytes := Max.max l.peakBytes newTotal })
    else (false, { l with capHit := true })

/-- The trait's own `memory_grow_failed`. -/
def memoryGrowFailed (l : MemoryLedger) : MemoryLedger := l

end MemoryLedger

def TenantLimiter.ledger (l : TenantLimiter) : MemoryLedger :=
  ⟨l.memCapBytes.toNat, l.totalBytes.toNat, l.peakBytes.toNat, l.capHit⟩

theorem exceedsMax_ledger (max : Option Usize) (desired : Usize) :
    MemoryLedger.exceedsMax (max.map UInt64.toNat) desired.toNat =
      TenantLimiter.exceedsMax max desired := by
  cases max with
  | none => rfl
  | some m =>
    simp only [MemoryLedger.exceedsMax, TenantLimiter.exceedsMax, Option.map_some,
      Option.any_some, UInt64.lt_iff_toNat_lt]

/-- The limiter computes with its ledger, as long as the new total fits a `usize`. -/
theorem memoryGrowing_ledger (l : TenantLimiter) {current desired : Usize} (max : Option Usize)
    (hfits : l.totalBytes.toNat + (desired.toNat - current.toNat) < 2 ^ 64) :
    ((l.memoryGrowing current desired max).1, (l.memoryGrowing current desired max).2.ledger) =
      l.ledger.memoryGrowing current.toNat desired.toNat (max.map UInt64.toNat) := by
  have hnew : (l.totalBytes + Usize.saturatingSub desired current).toNat =
      l.totalBytes.toNat + (desired.toNat - current.toNat) := by
    rw [Usize.toNat_add_of_lt (by rw [Usize.toNat_saturatingSub]; exact hfits),
      Usize.toNat_saturatingSub]
  have hcap : l.totalBytes + Usize.saturatingSub desired current ≤ l.memCapBytes ↔
      l.ledger.totalBytes + (desired.toNat - current.toNat) ≤ l.ledger.memCapBytes := by
    rw [UInt64.le_iff_toNat_le, hnew]
    rfl
  have hmax := exceedsMax_ledger max desired
  cases hexceeds : TenantLimiter.exceedsMax max desired with
  | true => simp [MemoryLedger.memoryGrowing, TenantLimiter.memoryGrowing, hmax, hexceeds]
  | false =>
    by_cases hle : l.totalBytes + Usize.saturatingSub desired current ≤ l.memCapBytes
    · have hpeak := Usize.toNat_max l.peakBytes (l.totalBytes + Usize.saturatingSub desired current)
      rw [hnew] at hpeak
      simp only [MemoryLedger.memoryGrowing, TenantLimiter.memoryGrowing, hmax, hexceeds,
        Bool.false_eq_true, if_false, if_pos hle, if_pos (hcap.1 hle)]
      simp only [TenantLimiter.ledger, hnew, hpeak]
    · simp only [MemoryLedger.memoryGrowing, TenantLimiter.memoryGrowing, hmax, hexceeds,
        Bool.false_eq_true, if_false, if_neg hle, if_neg (fun h => hle (hcap.2 h))]
      rfl

/-! ## A store under wasmtime's protocol -/

/-- `largest`: the largest combined size so far. -/
structure Memories (ι : Type) where
  limiter : MemoryLedger
  size : ι → Nat
  largest : Nat

/-- A memory, the bytes to add to it, its declared maximum, and whether the allocator has them. -/
structure MemoryGrow (ι : Type) where
  memory : ι
  delta : Nat
  max : Option Nat
  allocated : Bool

namespace Memories

section
variable {ι : Type} [Fintype ι]

def new (memCapBytes : Nat) : Memories ι := ⟨.new memCapBytes, fun _ => 0, 0⟩

def combined (s : Memories ι) : Nat := ∑ i, s.size i

variable [DecidableEq ι]

def desired (s : Memories ι) (g : MemoryGrow ι) : Nat := s.size g.memory + g.delta

/-- One request: the limiter is asked first, then the declared maximum and the allocator. -/
def grow (s : Memories ι) (g : MemoryGrow ι) : Memories ι :=
  let q := s.limiter.memoryGrowing (s.size g.memory) (s.desired g) g.max
  if q.1 then
    if !MemoryLedger.exceedsMax g.max (s.desired g) && g.allocated then
      let size := Function.update s.size g.memory (s.desired g)
      { limiter := q.2, size, largest := Max.max s.largest (∑ i, size i) }
    else { s with limiter := q.2.memoryGrowFailed }
  else { s with limiter := q.2 }

/-- The store after the requests `gs`. -/
def run (memCapBytes : Nat) (gs : List (MemoryGrow ι)) : Memories ι :=
  gs.foldl grow (new memCapBytes)

/-- The limiter refuses the request, and not for the declared maximum. -/
def RefusedForCap (s : Memories ι) (g : MemoryGrow ι) : Prop :=
  MemoryLedger.exceedsMax g.max (s.desired g) = false ∧
    (s.limiter.memoryGrowing (s.size g.memory) (s.desired g) g.max).1 = false

/-- The ledger tells the truth, so a refusal for the cap is right. -/
structure Accounted (s : Memories ι) : Prop where
  total : s.limiter.totalBytes = s.combined
  peak : s.limiter.peakBytes = s.largest
  refusal : ∀ g, s.RefusedForCap g → s.limiter.memCapBytes < s.combined + g.delta

/-- The request is not a growth that fits and that the allocator fails. -/
def Harmless (s : Memories ι) (g : MemoryGrow ι) : Prop :=
  g.allocated = true ∨ g.delta = 0 ∨ MemoryLedger.exceedsMax g.max (s.desired g) = true ∨
    s.limiter.memCapBytes < s.combined + g.delta

/-! ## One request -/

theorem sum_update (size : ι → Nat) (i : ι) (delta : Nat) :
    ∑ j, Function.update size i (size i + delta) j = (∑ j, size j) + delta := by
  rw [Finset.sum_update_of_mem (Finset.mem_univ i), ← Finset.add_sum_erase _ _ (Finset.mem_univ i),
    Finset.sdiff_singleton_eq_erase]
  omega

variable {s : Memories ι} {g : MemoryGrow ι}

/-- A request is refused, carried out, or approved and failed. -/
theorem grow_cases (s : Memories ι) (g : MemoryGrow ι) :
    ((MemoryLedger.exceedsMax g.max (s.desired g) = true ∨
        s.limiter.memCapBytes < s.limiter.totalBytes + g.delta) ∧
      ∃ hit, s.grow g = { s with limiter := { s.limiter with capHit := hit } }) ∨
    (MemoryLedger.exceedsMax g.max (s.desired g) = false ∧
      s.limiter.totalBytes + g.delta ≤ s.limiter.memCapBytes ∧
        (s.grow g).limiter.totalBytes = s.limiter.totalBytes + g.delta ∧
        (s.grow g).limiter.peakBytes =
          max s.limiter.peakBytes (s.limiter.totalBytes + g.delta) ∧
        ((g.allocated = true ∧ (s.grow g).combined = s.combined + g.delta ∧
            (s.grow g).largest = max s.largest (s.combined + g.delta)) ∨
          g.allocated = false ∧ (s.grow g).combined = s.combined ∧
            (s.grow g).largest = s.largest)) := by
  have hdelta : s.desired g - s.size g.memory = g.delta := Nat.add_sub_cancel_left ..
  cases hmax : MemoryLedger.exceedsMax g.max (s.desired g) with
  | true =>
    refine .inl ⟨.inl rfl, s.limiter.capHit, ?_⟩
    simp [grow, MemoryLedger.memoryGrowing, hmax]
  | false =>
    by_cases hcap : s.limiter.totalBytes + g.delta ≤ s.limiter.memCapBytes
    · refine .inr ⟨rfl, hcap, ?_⟩
      have hsum : ∑ i, Function.update s.size g.memory (s.desired g) i =
          (∑ i, s.size i) + g.delta := sum_update s.size g.memory g.delta
      cases halloc : g.allocated with
      | true =>
        simp [grow, MemoryLedger.memoryGrowing, hmax, hdelta, hcap, halloc, combined, hsum]
      | false =>
        simp [grow, MemoryLedger.memoryGrowing, hmax, hdelta, hcap, halloc, combined,
          MemoryLedger.memoryGrowFailed]
    · refine .inl ⟨.inr (by omega), true, ?_⟩
      simp [grow, MemoryLedger.memoryGrowing, hmax, hdelta, hcap]

theorem combined_le_largest_grow (h : s.combined ≤ s.largest) :
    (s.grow g).combined ≤ (s.grow g).largest := by
  rcases grow_cases s g with ⟨-, hit, hgrow⟩ | ⟨-, -, -, -, ⟨-, hc, hl⟩ | ⟨-, hc, hl⟩⟩
  · rw [hgrow]
    exact h
  · omega
  · omega

omit [DecidableEq ι] in
/-- The refusals follow from the total. -/
theorem Accounted.of_total (htotal : s.limiter.totalBytes = s.combined)
    (hpeak : s.limiter.peakBytes = s.largest) : Accounted s := by
  refine ⟨htotal, hpeak, ?_⟩
  intro g ⟨hmax, hrefused⟩
  have hdelta : s.desired g - s.size g.memory = g.delta := Nat.add_sub_cancel_left ..
  by_contra hnot
  have hfits : s.limiter.totalBytes + g.delta ≤ s.limiter.memCapBytes := by omega
  simp [MemoryLedger.memoryGrowing, hmax, hdelta, hfits] at hrefused

/-- A truthful ledger stays so exactly with a harmless request. -/
theorem grow_exact_iff (h : s.Accounted) (hlargest : s.combined ≤ s.largest) :
    (s.grow g).Accounted ↔ s.Harmless g := by
  have htotal := h.total
  have hpeak := h.peak
  rcases grow_cases s g with
    ⟨hrefused, hit, hgrow⟩ | ⟨hmax, hcap, ht, hp, ⟨halloc, hc, hl⟩ | ⟨halloc, hc, hl⟩⟩
  · rw [htotal] at hrefused
    refine ⟨fun _ => ?_, fun _ => ?_⟩
    · exact .inr (.inr hrefused)
    · rw [hgrow]
      exact .of_total htotal hpeak
  · exact ⟨fun _ => .inl halloc, fun _ => .of_total (by omega) (by omega)⟩
  · constructor
    · intro h'
      have htotal' := h'.total
      exact .inr (.inl (by omega))
    · intro hharmless
      rcases hharmless with h1 | h1 | h1 | h1
      · rw [halloc] at h1
        cases h1
      · exact .of_total (by omega) (by omega)
      · rw [hmax] at h1
        cases h1
      · omega

/-! ## Runs -/

theorem run_append (memCapBytes : Nat) (gs : List (MemoryGrow ι)) (g : MemoryGrow ι) :
    run memCapBytes (gs ++ [g]) = (run memCapBytes gs).grow g := by
  rw [run, List.foldl_append]
  rfl

theorem run_combined_le (memCapBytes : Nat) (gs : List (MemoryGrow ι)) :
    (run memCapBytes gs).combined ≤ (run memCapBytes gs).largest := by
  induction gs using List.reverseRecOn with
  | nil => simp [run, new, combined]
  | append_singleton gs g ih =>
    rw [run_append]
    exact combined_le_largest_grow ih

omit [DecidableEq ι] in
theorem new_accounted (memCapBytes : Nat) : (new memCapBytes : Memories ι).Accounted :=
  .of_total (by simp [new, MemoryLedger.new, combined]) rfl

end

end Memories

/-- The ledger tells the truth in every state of a run if and only if no request of it is a growth
that fits under its declared maximum and the cap, and that the allocator then fails. -/
theorem memory_ledger_iff {ι : Type} [Fintype ι] [DecidableEq ι] (memCapBytes : Nat)
    (gs : List (MemoryGrow ι)) :
    (∀ pre, pre <+: gs → (Memories.run memCapBytes pre).Accounted) ↔
      ∀ pre g, pre ++ [g] <+: gs → (Memories.run memCapBytes pre).Harmless g := by
  constructor
  · intro h pre g hpre
    have hbefore := h pre ((List.prefix_append pre [g]).trans hpre)
    have hafter := h (pre ++ [g]) hpre
    rw [Memories.run_append] at hafter
    exact (Memories.grow_exact_iff hbefore (Memories.run_combined_le memCapBytes pre)).1 hafter
  · intro h pre
    induction pre using List.reverseRecOn with
    | nil => exact fun _ => Memories.new_accounted memCapBytes
    | append_singleton pre g ih =>
      intro hpre
      have hbefore := ih ((List.prefix_append pre [g]).trans hpre)
      rw [Memories.run_append]
      exact (Memories.grow_exact_iff hbefore (Memories.run_combined_le memCapBytes pre)).2
        (h pre g hpre)

/-- A megabyte of cap, all of it approved and failed: the next growth, of one page, is refused. -/
theorem memory_ledger_phantom :
    ¬(∀ pre, pre <+: [MemoryGrow.mk () 1048576 none false] →
      (Memories.run 1048576 pre).Accounted) := by
  intro h
  have hrefused : (Memories.run 1048576 [MemoryGrow.mk () 1048576 none false]).RefusedForCap
      ⟨(), 65536, none, true⟩ := ⟨by decide, by decide⟩
  have hover := (h _ (List.prefix_refl _)).refusal _ hrefused
  revert hover
  decide

end Warpline
