import Warpline.Conc.Unwinding
import Warpline.Core.Sandbox

/-!
# Tenants cannot tell what others store

`SameFor a`: two states of the store and its invocations agree on what tenant `a`'s guests can
reach: `a`'s entries and total, and the counters of `a`'s invocations. A call of one of these
returns the same in both and keeps the agreement, a call of any other invocation does not touch
it (`unwinding`).
-/

set_option autoImplicit false

namespace Warpline

open Conc

/-- The stores agree on one tenant. -/
structure MemKv.SameFor (a : Str) (kv kv' : MemKv) : Prop where
  entries : ∀ key, kv.entries.lookup (a, key) = kv'.entries.lookup (a, key)
  bytes : kv.tenantBytes.lookup a = kv'.tenantBytes.lookup a
  cap : kv.tenantCapBytes = kv'.tenantCapBytes

namespace MemKv.SameFor

variable {a tenant : Str} {kv kv' : MemKv}

theorem get (h : SameFor a kv kv') (key : Str) : kv.get a key = kv'.get a key := by
  simp [MemKv.get, h.entries]

/-- Both stores refuse, or both accept, and then agree again. -/
theorem put (h : SameFor a kv kv') (key : Str) (value : List UInt8) :
    (kv.put a key value).1 = (kv'.put a key value).1 ∧
      SameFor a (kv.put a key value).2 (kv'.put a key value).2 := by
  have hold : kv.oldCost a key = kv'.oldCost a key := by simp [oldCost, h.entries]
  have hused : kv.used a = kv'.used a := by simp [used, h.bytes]
  obtain ⟨hlt, heq⟩ | ⟨hle, heq⟩ := kv.put_spec a key value
  · obtain ⟨-, heq'⟩ | ⟨hle', -⟩ := kv'.put_spec a key value
    · rw [heq, heq', hused, h.cap]
      exact ⟨rfl, h⟩
    · rw [hold, hused, h.cap] at hlt
      omega
  · obtain ⟨hlt', -⟩ | ⟨-, heq'⟩ := kv'.put_spec a key value
    · rw [hold, hused, h.cap] at hle
      omega
    · rw [heq, heq', hold, hused]
      refine ⟨rfl, fun k => ?_, by simp, h.cap⟩
      by_cases hk : k = key
      · subst hk
        simp
      · have hne : (a, k) ≠ (a, key) := by simp [hk]
        simp [AList.lookup_insert_ne hne, h.entries]

theorem put_other (h : SameFor a kv kv') (ht : tenant ≠ a) (key : Str) (value : List UInt8) :
    SameFor a (kv.put tenant key value).2 kv' := by
  obtain ⟨-, heq⟩ | ⟨-, heq⟩ := kv.put_spec tenant key value
  · rw [heq]
    exact h
  · rw [heq]
    refine ⟨fun k => ?_, ?_, h.cap⟩
    · have hne : (a, k) ≠ (tenant, key) := by simp [Ne.symm ht]
      rw [← h.entries, AList.lookup_insert_ne hne]
    · rw [← h.bytes, AList.lookup_insert_ne (Ne.symm ht)]

end MemKv.SameFor

namespace HostCtx

/-- `HostCtx.put` leaves the store alone or puts there for its own tenant. -/
theorem put_kv (ctx : HostCtx) (kv : MemKv) (key : Str) (value : List UInt8) :
    (ctx.put kv key value).2.1.tenantId = ctx.tenantId ∧
      ((ctx.put kv key value).2.2 = kv ∨
        (ctx.put kv key value).2.2 = (kv.put ctx.tenantId key value).2) := by
  unfold put
  split
  · exact ⟨rfl, .inl rfl⟩
  split
  · exact ⟨rfl, .inl rfl⟩
  simp only []
  split
  · exact ⟨rfl, .inl rfl⟩
  split
  · exact ⟨rfl, .inl rfl⟩
  · exact ⟨rfl, .inr rfl⟩

variable {a : Str} {kv kv' : MemKv} {ctx : HostCtx}

theorem get_same (h : MemKv.SameFor a kv kv') (ht : ctx.tenantId = a) (key : Str) :
    ctx.get kv key = ctx.get kv' key := by
  subst ht
  simp [get, h.get]

theorem put_same (h : MemKv.SameFor a kv kv') (ht : ctx.tenantId = a) (key : Str)
    (value : List UInt8) :
    (ctx.put kv key value).1 = (ctx.put kv' key value).1 ∧
      (ctx.put kv key value).2.1 = (ctx.put kv' key value).2.1 ∧
      MemKv.SameFor a (ctx.put kv key value).2.2 (ctx.put kv' key value).2.2 := by
  subst ht
  unfold put
  split
  · exact ⟨rfl, rfl, h⟩
  split
  · exact ⟨rfl, rfl, h⟩
  simp only []
  split
  · exact ⟨rfl, rfl, h⟩
  split
  · exact ⟨rfl, rfl, h⟩
  · obtain ⟨hr, hs⟩ := h.put key value
    exact ⟨by rw [hr], rfl, hs⟩

end HostCtx

namespace Guests

variable {ι : Type} [DecidableEq ι] {tenantOf : ι → Str} {a : Str} {g g' : Guests ι}

/-- Two states agree on tenant `a`; each invocation runs for its own tenant. -/
structure SameFor (tenantOf : ι → Str) (a : Str) (g g' : Guests ι) : Prop where
  kv : MemKv.SameFor a g.kv g'.kv
  ctx : ∀ i, tenantOf i = a → g.ctx i = g'.ctx i
  tenant : ∀ i, (g.ctx i).tenantId = tenantOf i

theorem SameFor.own (h : SameFor tenantOf a g g') {i : ι} (hi : tenantOf i = a) (c : GuestCall) :
    (g.call (i, c)).1 = (g'.call (i, c)).1 ∧
      SameFor tenantOf a (g.call (i, c)).2 (g'.call (i, c)).2 := by
  have hctx := h.ctx i hi
  have ht : (g.ctx i).tenantId = a := (h.tenant i).trans hi
  cases c with
  | get key =>
    refine ⟨?_, h⟩
    show GuestReply.got ((g.ctx i).get g.kv key) = .got ((g'.ctx i).get g'.kv key)
    rw [HostCtx.get_same h.kv ht, hctx]
  | put key value =>
    obtain ⟨hr, hc, hs⟩ := HostCtx.put_same h.kv ht key value
    simp only [call, ← hctx]
    refine ⟨by rw [hr], hs, fun j hj => ?_, fun j => ?_⟩
    · by_cases hji : j = i
      · subst hji
        simpa using hc
      · simpa [Function.update_of_ne hji] using h.ctx j hj
    · by_cases hji : j = i
      · subst hji
        simpa using ((g.ctx j).put_kv g.kv key value).1.trans (h.tenant j)
      · simpa [Function.update_of_ne hji] using h.tenant j

theorem SameFor.other (h : SameFor tenantOf a g g') {i : ι} (hi : tenantOf i ≠ a) (c : GuestCall) :
    SameFor tenantOf a (g.call (i, c)).2 g' := by
  cases c with
  | get key => exact h
  | put key value =>
    obtain ⟨ht, hkv⟩ := (g.ctx i).put_kv g.kv key value
    refine ⟨?_, fun j hj => ?_, fun j => ?_⟩
    · obtain hkv | hkv := hkv
      · simpa only [call, hkv] using h.kv
      · simpa only [call, hkv] using h.kv.put_other (by rwa [h.tenant]) key value
    · have hji : j ≠ i := fun hji => hi (hji ▸ hj)
      simpa [call, Function.update_of_ne hji] using h.ctx j hj
    · by_cases hji : j = i
      · subst hji
        simpa [call] using ht.trans (h.tenant j)
      · simpa [call, Function.update_of_ne hji] using h.tenant j

theorem unwinding (tenantOf : ι → Str) (a : Str) :
    Unwinding (call (ι := ι)) (fun e => tenantOf e.1 = a) (SameFor tenantOf a) where
  own := fun {_ _ e} he h => h.own he e.2
  other := fun {_ _ e} he h => h.other he e.2

end Guests

open Guests in
/-- What a tenant's guests are answered in any interleaving of calls is what they are answered
when every other tenant's calls are left out. -/
theorem tenants_isolated {ι : Type} [DecidableEq ι] (cap : Nat) (tenantOf : ι → Str) (a : Str)
    (calls : List (ι × GuestCall)) :
    (outputs call (Guests.new cap tenantOf) calls).filter (fun q => tenantOf q.1.1 = a) =
      outputs call (Guests.new cap tenantOf) (calls.filter fun e => tenantOf e.1 = a) :=
  (unwinding tenantOf a).purge
    ⟨⟨fun _ => rfl, rfl, rfl⟩, fun _ _ => rfl, fun _ => rfl⟩ calls

end Warpline
