import Warpline.Core.Kv

/-!
# The running totals of the key-value store

`storedBytes`: what a tenant's entries cost, summed over the entries. The totals `put` keeps are
these sums and within the cap (`MemKv.Exact`), so the subtraction in `put` never goes below zero
and a `put` is refused exactly when the sum after it would exceed the cap.
-/

set_option autoImplicit false

namespace Warpline

open Conc

namespace MemKv

/-- What one entry adds to the tenant's total. -/
def charge (tenant : Str) (e : (_ : Str × Str) × List UInt8) : Nat :=
  if e.1.1 = tenant then cost e.1.2 e.2 else 0

def storedBytes (entries : AList fun _ : Str × Str => List UInt8) (tenant : Str) : Nat :=
  (entries.entries.map (charge tenant)).sum

/-- The totals are the sums over the entries, within the cap. -/
structure Exact (cap : Nat) (kv : MemKv) : Prop where
  tenantCap : kv.tenantCapBytes = cap
  used : ∀ tenant, kv.used tenant = storedBytes kv.entries tenant
  within : ∀ tenant, storedBytes kv.entries tenant ≤ cap

/-! ## Sums over the entries -/

/-- A sum over entries splits into one key's entry and the rest. -/
theorem sum_kerase {α : Type} [DecidableEq α] {β : α → Type} (w : Sigma β → Nat)
    (l : AList β) (a : α) :
    (l.entries.map w).sum =
      ((l.lookup a).map fun b => w ⟨a, b⟩).getD 0 + ((l.entries.kerase a).map w).sum := by
  by_cases ha : a ∈ l
  · obtain ⟨b, l₁, l₂, -, hl, hk⟩ := List.exists_of_kerase (AList.mem_keys.1 ha)
    have hb : l.lookup a = some b :=
      (List.mem_dlookup_iff l.nodupKeys).2 (by rw [hl]; simp)
    rw [hb, hk, hl]
    simp only [List.map_append, List.map_cons, List.sum_append, List.sum_cons, Option.map_some,
      Option.getD_some]
    omega
  · rw [AList.lookup_eq_none.2 ha, List.kerase_of_notMem_keys ha]
    simp

theorem sum_insert {α : Type} [DecidableEq α] {β : α → Type} (w : Sigma β → Nat)
    (l : AList β) (a : α) (b : β a) :
    ((l.insert a b).entries.map w).sum + ((l.lookup a).map fun b => w ⟨a, b⟩).getD 0 =
      (l.entries.map w).sum + w ⟨a, b⟩ := by
  have h := sum_kerase w l a
  rw [AList.entries_insert, List.map_cons, List.sum_cons]
  omega

variable {kv : MemKv} {tenant key : Str} {value : List UInt8}

theorem storedBytes_insert (entries : AList fun _ : Str × Str => List UInt8) (tenant key : Str)
    (value : List UInt8) :
    storedBytes (entries.insert (tenant, key) value) tenant +
        ((entries.lookup (tenant, key)).map (cost key)).getD 0 =
      storedBytes entries tenant + cost key value := by
  have h := sum_insert (charge tenant) entries (tenant, key) value
  simp only [charge, if_true] at h
  exact h

theorem storedBytes_insert_ne (entries : AList fun _ : Str × Str => List UInt8)
    {tenant other : Str} (key : Str) (value : List UInt8) (h : other ≠ tenant) :
    storedBytes (entries.insert (other, key) value) tenant = storedBytes entries tenant := by
  have hs := sum_insert (charge tenant) entries (other, key) value
  have h0 : ((entries.lookup (other, key)).map fun b => charge tenant ⟨(other, key), b⟩).getD 0 = 0 := by
    cases entries.lookup (other, key) <;> simp [charge, h]
  have hw : charge tenant ⟨(other, key), value⟩ = 0 := if_neg h
  rw [h0, hw] at hs
  exact hs

/-- An entry's cost is part of its tenant's sum. -/
theorem oldCost_le_storedBytes (kv : MemKv) (tenant key : Str) :
    kv.oldCost tenant key ≤ storedBytes kv.entries tenant := by
  have h := sum_kerase (charge tenant) kv.entries (tenant, key)
  have : ((kv.entries.lookup (tenant, key)).map fun b => charge tenant ⟨(tenant, key), b⟩) =
      (kv.entries.lookup (tenant, key)).map (cost key) := by simp [charge]
  rw [this] at h
  unfold oldCost storedBytes
  omega

/-! ## The totals over a run -/

theorem Exact.new (cap : Nat) : Exact cap (withCapacityBytes cap) where
  tenantCap := rfl
  used := fun _ => rfl
  within := fun _ => Nat.zero_le _

/-- The new total `put` computes is the sum after it. -/
theorem Exact.newUsed {cap : Nat} (h : Exact cap kv) (tenant key : Str) (value : List UInt8) :
    kv.used tenant - kv.oldCost tenant key + cost key value =
      storedBytes (kv.entries.insert (tenant, key) value) tenant := by
  have hi := storedBytes_insert kv.entries tenant key value
  have hle := oldCost_le_storedBytes kv tenant key
  rw [h.used]
  unfold oldCost at *
  omega

theorem used_insert (kv : MemKv) (entries : AList fun _ : Str × Str => List UInt8)
    (tenant other : Str) (n : Nat) :
    ({ kv with tenantBytes := kv.tenantBytes.insert other n, entries := entries } : MemKv).used
      tenant = if tenant = other then n else kv.used tenant := by
  unfold used
  split
  · rename_i h
    subst h
    simp
  · rename_i h
    simp [AList.lookup_insert_ne h]

theorem Exact.step {cap : Nat} {c : KvCall} {kv' : MemKv} (h : Exact cap kv)
    (hs : kv.step c = some kv') : Exact cap kv' := by
  cases c with
  | get tenant key =>
    cases hs
    exact h
  | put tenant key value =>
    cases hs
    obtain ⟨-, heq⟩ | ⟨hle, heq⟩ := kv.put_spec tenant key value
    · rw [heq]
      exact h
    · rw [heq]
      rw [h.newUsed, h.tenantCap] at hle
      refine ⟨h.tenantCap, fun t => ?_, fun t => ?_⟩
      · rw [used_insert, h.newUsed]
        split
        · rename_i ht
          rw [ht]
        · rename_i ht
          rw [h.used, storedBytes_insert_ne _ _ _ (Ne.symm ht)]
      · by_cases ht : t = tenant
        · rw [ht]
          exact hle
        · rw [storedBytes_insert_ne _ _ _ (Ne.symm ht)]
          exact h.within t

theorem Exact.run {cap : Nat} {kv' : MemKv} (h : Exact cap kv)
    (hr : Run MemKv.step (fun _ _ => True) kv kv') : Exact cap kv' :=
  hr.keeps (fun _ _ _ _ hs he => hs.step he) h

end MemKv

open MemKv in
/-- In every state calls reach, each total is the sum of what the tenant's entries cost, within
the cap, and at least the cost of any one entry; a `put` succeeds exactly when the sum after it is
within the cap, and then changes what `get` returns for its own pair only; one that is refused
changes nothing. -/
theorem memKv_exact (cap : Nat) (kv : MemKv)
    (hr : Run MemKv.step (fun _ _ => True) (withCapacityBytes cap) kv) :
    (∀ tenant, kv.used tenant = storedBytes kv.entries tenant ∧
        storedBytes kv.entries tenant ≤ cap) ∧
      ∀ tenant key value,
        kv.oldCost tenant key ≤ kv.used tenant ∧
        ((kv.put tenant key value).1 = .ok () ↔
          storedBytes (kv.entries.insert (tenant, key) value) tenant ≤ cap) ∧
        (∀ old, kv.get tenant key = .ok (some old) → value.length ≤ old.length →
          (kv.put tenant key value).1 = .ok ()) ∧
        ((kv.put tenant key value).1 = .ok () → ∀ t k,
          (kv.put tenant key value).2.get t k =
            if (t, k) = (tenant, key) then .ok (some value) else kv.get t k) ∧
        ((kv.put tenant key value).1 ≠ .ok () →
          (kv.put tenant key value).1 =
              .error (.quotaExceeded (storedBytes kv.entries tenant) (cost key value) cap) ∧
            (kv.put tenant key value).2 = kv) := by
  have h := (Exact.new cap).run hr
  refine ⟨fun t => ⟨h.used t, h.within t⟩, fun tenant key value => ?_⟩
  have hle : kv.oldCost tenant key ≤ kv.used tenant := by
    rw [h.used]
    exact oldCost_le_storedBytes kv tenant key
  have hiff : (kv.put tenant key value).1 = .ok () ↔
      storedBytes (kv.entries.insert (tenant, key) value) tenant ≤ cap := by
    rw [← h.newUsed, ← h.tenantCap]
    obtain ⟨hlt, heq⟩ | ⟨hle, heq⟩ := kv.put_spec tenant key value
    · simpa [heq] using hlt
    · simpa [heq] using hle
  refine ⟨hle, hiff, fun old hold hlen => ?_, fun hok t k => ?_, fun hno => ?_⟩
  · rw [hiff, ← h.newUsed]
    have hold' : kv.oldCost tenant key = cost key old := by
      simp only [MemKv.get, Except.ok.injEq] at hold
      simp [oldCost, hold]
    have hw := h.within tenant
    rw [← h.used] at hw
    simp only [cost] at hold' ⊢
    omega
  · obtain ⟨-, heq⟩ | ⟨-, heq⟩ := kv.put_spec tenant key value
    · simp [heq] at hok
    · rw [heq]
      unfold MemKv.get
      split
      · rename_i ht
        cases ht
        simp
      · rename_i ht
        simp [AList.lookup_insert_ne ht]
  · obtain ⟨-, heq⟩ | ⟨-, heq⟩ := kv.put_spec tenant key value
    · rw [heq, h.used, h.tenantCap]
      exact ⟨rfl, rfl⟩
    · simp [heq] at hno

/-- Two tenants, an overwrite that shrinks an entry, and a `put` past the cap. -/
def kvCalls : List KvCall :=
  [.put ['a'] ['k'] [1, 2, 3], .put ['b'] ['k'] [1], .put ['a'] ['k'] [1], .put ['a'] ['l'] [1, 2]]

open MemKv in
theorem memKv_exact_two : ∃ kv : MemKv, kv.used ['a'] = 66 ∧ kv.used ['b'] = 66 ∧
    kv.used ['a'] = storedBytes kv.entries ['a'] := by
  obtain ⟨kv, hkv, ha, hb⟩ : ∃ kv : MemKv, kvCalls.foldlM MemKv.step (withCapacityBytes 100) = some kv ∧
      kv.used ['a'] = 66 ∧ kv.used ['b'] = 66 := ⟨_, rfl, by decide, by decide⟩
  have hr := Run.of_foldlM (A := fun _ _ => True) hkv fun _ _ _ => trivial
  exact ⟨kv, ha, hb, ((memKv_exact 100 kv hr).1 ['a']).1⟩

end Warpline
