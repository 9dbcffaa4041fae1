import Warpline.Std.Lru
import Warpline.Std.Str
import Warpline.Std.Usize

/-!
# The state of the component cache (`registry.rs`: `ComponentCacheInner`)

What `ComponentCache` keeps under its mutex: an LRU map from digest to pre-instantiated component
and a running total of the weights. Every operation is one critical section: `lookup`,
`load_existing` and `recompile` read the map with `hit` and add to it with `insert`.
-/

set_option autoImplicit false

namespace Warpline

/-- A pre-instantiated component and the serialized length it is weighted by. -/
structure CacheEntry (π : Type) where
  pre : π
  weight : Usize
  deriving DecidableEq, Repr

inductive Lookup (π : Type)
  | notFound
  | hit (pre : π)
  | miss (digest : Str)

inductive Loaded (π : Type)
  | ready (pre : π)
  | needsCompile

structure ComponentCacheInner {π : Type} (L : LruCrate Str (CacheEntry π)) where
  lru : L.Cache
  totalBytes : Usize

namespace ComponentCacheInner

variable {π : Type} {L : LruCrate Str (CacheEntry π)}

def new (L : LruCrate Str (CacheEntry π)) (cap : Nat) : ComponentCacheInner L where
  lru := L.new (max cap 1)
  totalBytes := 0

/-- `lru.get(digest).map(|e| e.pre.clone())`. -/
def hit (digest : Str) (inner : ComponentCacheInner L) : Option π × ComponentCacheInner L :=
  let q := L.get digest inner.lru
  (q.1.map CacheEntry.pre, { inner with lru := q.2 })

/-- The loop of `insert`: pop entries until the total is within the budget or none is left. As
many rounds as there are entries are enough (`evict_done`). -/
def evict (byteBudget : Usize) : Nat → ComponentCacheInner L → ComponentCacheInner L
  | 0, inner => inner
  | rounds + 1, inner =>
    if byteBudget < inner.totalBytes then
      match L.popLru inner.lru with
      | (some evicted, lru) =>
        evict byteBudget rounds
          { lru, totalBytes := Usize.saturatingSub inner.totalBytes evicted.2.weight }
      | (none, _) => inner
    else inner

def insert (byteBudget : Usize) (digest : Str) (pre : π) (weight : Usize)
    (inner : ComponentCacheInner L) : ComponentCacheInner L :=
  let q := L.put digest ⟨pre, weight⟩ inner.lru
  let totalBytes := match q.1 with
    | some evicted => Usize.saturatingSub inner.totalBytes evicted.weight
    | none => inner.totalBytes
  evict byteBudget (L.entries q.2).length { lru := q.2, totalBytes := totalBytes + weight }

def entries (inner : ComponentCacheInner L) : List (Str × CacheEntry π) := L.entries inner.lru

theorem nodup_entries (inner : ComponentCacheInner L) : (inner.entries.map Prod.fst).Nodup :=
  L.nodup inner.lru

/-- The combined weight of the resident entries. -/
def weights (inner : ComponentCacheInner L) : Nat :=
  Lru.weight (fun e : CacheEntry π => e.weight.toNat) inner.entries

def Resident (digest : Str) (inner : ComponentCacheInner L) : Prop :=
  ∃ e, (digest, e) ∈ inner.entries

/-! ## The loop -/

section
variable {byteBudget : Usize}

/-- One round that pops: the entries without the last one, the total without its weight. -/
theorem evict_succ {inner : ComponentCacheInner L} {e : Str × CacheEntry π}
    (hb : byteBudget < inner.totalBytes) (he : inner.entries.getLast? = some e) :
    ∃ inner', (∀ rounds, evict byteBudget (rounds + 1) inner = evict byteBudget rounds inner') ∧
      inner'.entries = inner.entries.dropLast ∧ L.cap inner'.lru = L.cap inner.lru ∧
      inner'.totalBytes = Usize.saturatingSub inner.totalBytes e.2.weight := by
  have h1 : (L.popLru inner.lru).1 = some e := by rw [L.popLru_fst]; exact he
  refine ⟨⟨(L.popLru inner.lru).2, Usize.saturatingSub inner.totalBytes e.2.weight⟩,
    fun rounds => ?_, L.entries_popLru _, L.cap_popLru _, rfl⟩
  conv_lhs => unfold evict
  rw [if_pos hb]
  split
  · rename_i e' lru hq
    rw [hq] at h1 ⊢
    simp only [Option.some.injEq] at h1
    rw [h1]
  · rename_i hq
    rw [hq] at h1
    cases h1

/-- A round that does not pop ends the loop. -/
theorem evict_stop {rounds : Nat} {inner : ComponentCacheInner L}
    (h : ¬ byteBudget < inner.totalBytes ∨ inner.entries = []) :
    evict byteBudget rounds inner = inner := by
  cases rounds with
  | zero => rfl
  | succ rounds =>
    unfold evict
    obtain h | h := h
    · rw [if_neg h]
    · split
      · split
        · rename_i hq
          have := L.popLru_fst inner.lru
          rw [hq, show L.entries inner.lru = [] from h] at this
          cases this
        · rfl
      · rfl

/-- What the loop keeps, from any state and after any number of rounds, a pop keeps. -/
theorem evict_keep {P : ComponentCacheInner L → Prop}
    (hpop : ∀ inner inner' e, P inner → byteBudget < inner.totalBytes →
      inner.entries.getLast? = some e → inner'.entries = inner.entries.dropLast →
      L.cap inner'.lru = L.cap inner.lru →
      inner'.totalBytes = Usize.saturatingSub inner.totalBytes e.2.weight → P inner')
    (rounds : Nat) {inner : ComponentCacheInner L} (hP : P inner) :
    P (evict byteBudget rounds inner) := by
  induction rounds generalizing inner with
  | zero => exact hP
  | succ rounds ih =>
    by_cases hb : byteBudget < inner.totalBytes
    · cases he : inner.entries.getLast? with
      | none =>
        rw [evict_stop (.inr (List.getLast?_eq_none_iff.1 he))]
        exact hP
      | some e =>
        obtain ⟨inner', heq, hen, hcap, ht⟩ := evict_succ hb he
        rw [heq]
        exact ih (hpop _ _ _ hP hb he hen hcap ht)
    · rw [evict_stop (.inl hb)]
      exact hP

/-- As many rounds as there are entries end the loop. -/
theorem evict_ends {rounds : Nat} {inner : ComponentCacheInner L}
    (hr : inner.entries.length ≤ rounds) :
    ¬ byteBudget < (evict byteBudget rounds inner).totalBytes ∨
      (evict byteBudget rounds inner).entries = [] := by
  induction rounds generalizing inner with
  | zero => exact .inr (List.length_eq_zero_iff.1 (Nat.le_zero.1 hr))
  | succ rounds ih =>
    by_cases hb : byteBudget < inner.totalBytes
    · cases he : inner.entries.getLast? with
      | none =>
        have hnil := List.getLast?_eq_none_iff.1 he
        rw [evict_stop (.inr hnil)]
        exact .inr hnil
      | some e =>
        obtain ⟨inner', heq, hen, -⟩ := evict_succ hb he
        rw [heq]
        apply ih
        rw [hen, List.length_dropLast]
        omega
    · rw [evict_stop (.inl hb)]
      exact .inl hb

theorem evict_add (m n : Nat) (inner : ComponentCacheInner L) :
    evict byteBudget (m + n) inner = evict byteBudget n (evict byteBudget m inner) := by
  induction m generalizing inner with
  | zero => rw [Nat.zero_add, evict]
  | succ m ih =>
    by_cases hb : byteBudget < inner.totalBytes
    · cases he : inner.entries.getLast? with
      | none =>
        have hstop := List.getLast?_eq_none_iff.1 he
        rw [evict_stop (.inr hstop), evict_stop (.inr hstop), evict_stop (.inr hstop)]
      | some e =>
        obtain ⟨inner', heq, -⟩ := evict_succ hb he
        rw [Nat.add_right_comm, heq, heq, ih]
    · rw [evict_stop (.inl hb), evict_stop (.inl hb), evict_stop (.inl hb)]

/-- The loop has ended: another round would change nothing. -/
theorem evict_done (inner : ComponentCacheInner L) :
    ¬ byteBudget < (evict byteBudget inner.entries.length inner).totalBytes ∨
      (evict byteBudget inner.entries.length inner).entries = [] :=
  evict_ends (Nat.le_refl _)

/-- More rounds than there are entries change nothing. -/
theorem evict_stable {inner : ComponentCacheInner L} {rounds : Nat}
    (h : inner.entries.length ≤ rounds) :
    evict byteBudget rounds inner = evict byteBudget inner.entries.length inner := by
  obtain ⟨more, rfl⟩ := Nat.exists_eq_add_of_le h
  rw [evict_add, evict_stop (evict_done inner)]

/-- The loop only takes entries away. -/
theorem evict_subset (rounds : Nat) (inner : ComponentCacheInner L) :
    (evict byteBudget rounds inner).entries ⊆ inner.entries := by
  refine evict_keep (P := fun i => i.entries ⊆ inner.entries)
    (fun i i' e hsub _ _ hen _ _ => ?_) rounds (List.Subset.refl _)
  rw [hen]
  exact fun e' he' => hsub (List.mem_of_mem_dropLast he')

/-- What is in the map after `insert` is the new entry, or was there. -/
theorem mem_insert {digest : Str} {pre : π} {weight : Usize} {inner : ComponentCacheInner L}
    {e : Str × CacheEntry π} (h : e ∈ (insert byteBudget digest pre weight inner).entries) :
    e = (digest, ⟨pre, weight⟩) ∨ e ∈ inner.entries := by
  have hput := evict_subset _ _ h
  rw [entries, L.entries_put] at hput
  exact (Lru.mem_put hput).imp_right And.left

theorem mem_hit {digest : Str} {inner : ComponentCacheInner L} {e : Str × CacheEntry π}
    (h : e ∈ (hit digest inner).2.entries) : e ∈ inner.entries := by
  rw [hit, entries, L.entries_get] at h
  exact Lru.mem_promote h

/-- A hit returns the component of a resident entry. -/
theorem hit_fst {digest : Str} {inner : ComponentCacheInner L} {pre : π}
    (h : (hit digest inner).1 = some pre) : ∃ e, (digest, e) ∈ inner.entries ∧ e.pre = pre := by
  rw [hit, L.get_fst] at h
  obtain ⟨e, he, hpre⟩ := Option.map_eq_some_iff.1 h
  exact ⟨e, Lru.find_mem he, hpre⟩

end

end ComponentCacheInner

end Warpline
