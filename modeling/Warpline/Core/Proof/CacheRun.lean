import Warpline.Conc.Machine
import Warpline.Core.ComponentCache

/-!
# The cache's accounting over whole runs

`CacheOp` is one critical section of the component cache; a run is any sequence of them, from any
number of threads. The counter and the resident weights are compared through the *drift*, the
part of `total_bytes` no resident entry accounts for (`Drift`):

* same-key replacement and the byte-budget loop keep the drift (`evict_drift`);
* `insert` takes only the value `put` returns off the counter, and `put` returns nothing when it
  drops the least recently used entry of another key, so that entry's weight is added to the
  drift (`insert_drift`).

So the accounting is exact along every run whose insertions drop no weighty entry and whose sum
fits a `usize` (`CacheOp.Accounted`), and each other insertion breaks it.
-/

set_option autoImplicit false

namespace Warpline

open ComponentCacheInner

variable {π : Type} {L : LruCrate Str (CacheEntry π)}

/-- One critical section: reading the map, or adding to it. -/
inductive CacheOp (π : Type)
  | hit (digest : Str)
  | insert (digest : Str) (pre : π) (weight : Usize)

/-- The cache after one operation. -/
def CacheOp.apply (byteBudget : Usize) : CacheOp π → ComponentCacheInner L → ComponentCacheInner L
  | .hit digest, inner => (inner.hit digest).2
  | .insert digest pre weight, inner => inner.insert byteBudget digest pre weight

/-- `total_bytes` is the resident weight plus `d`. -/
def Drift (d : Nat) (inner : ComponentCacheInner L) : Prop :=
  inner.totalBytes.toNat = inner.weights + d

/-- The accounting is exact. -/
def CacheExact (inner : ComponentCacheInner L) : Prop :=
  inner.totalBytes.toNat = inner.weights

/-- The weight `put` drops silently: the least recently used entry's, when the map is full and
the key is new. -/
def dropped (digest : Str) (inner : ComponentCacheInner L) : Nat :=
  if (Lru.find digest inner.entries).isSome ∨ inner.entries.length < L.cap inner.lru then 0
  else (inner.entries.getLast?.map fun e => e.2.weight.toNat).getD 0

/-- The weight of the entries of other keys. -/
def othersWeight (digest : Str) (inner : ComponentCacheInner L) : Nat :=
  Lru.weight (fun e : CacheEntry π => e.weight.toNat) (Lru.erase digest inner.entries)

/-- An insertion finds its digest resident, room for an entry or a weightless entry to drop, and
the new sum fits a `usize`. -/
def CacheOp.Accounted (op : CacheOp π) (inner : ComponentCacheInner L) : Prop :=
  match op with
  | .hit _ => True
  | .insert digest _ weight =>
    ((Lru.find digest inner.entries).isSome ∨ inner.entries.length < L.cap inner.lru ∨
      ∀ e, inner.entries.getLast? = some e → e.2.weight = 0) ∧
    othersWeight digest inner + weight.toNat < 2 ^ 64

/-! ## One operation -/

theorem weights_hit (digest : Str) (inner : ComponentCacheInner L) :
    (inner.hit digest).2.weights = inner.weights := by
  unfold ComponentCacheInner.hit weights entries
  rw [L.entries_get]
  exact Lru.weight_promote _ (L.nodup _)

/-- What `put` leaves of the resident weight. -/
theorem weight_put (digest : Str) (pre : π) (weight : Usize) (inner : ComponentCacheInner L)
    (hcap : 0 < L.cap inner.lru) :
    Lru.weight (fun e : CacheEntry π => e.weight.toNat)
        (Lru.put (L.cap inner.lru) digest ⟨pre, weight⟩ inner.entries).2 + dropped digest inner =
      weight.toNat + othersWeight digest inner := by
  unfold Lru.put othersWeight dropped
  cases hl : Lru.find digest inner.entries with
  | some old => simp
  | none =>
    rw [Lru.erase_of_notMem (Lru.find_none hl)]
    by_cases hroom : inner.entries.length < L.cap inner.lru
    · simp [hroom]
    · have hne : inner.entries ≠ [] := by
        intro hnil
        rw [hnil] at hroom
        exact hroom hcap
      have hlast := List.getLast?_eq_some_getLast hne
      rw [Lru.weight_dropLast _ hlast]
      simp [hroom, hlast]
      omega

theorem weights_eq (digest : Str) (inner : ComponentCacheInner L) :
    inner.weights = othersWeight digest inner +
      ((Lru.find digest inner.entries).map fun e => e.weight.toNat).getD 0 := by
  unfold weights othersWeight
  cases hl : Lru.find digest inner.entries with
  | some old =>
    rw [Lru.weight_erase _ inner.nodup_entries hl, Nat.add_comm]
    rfl
  | none =>
    rw [Lru.erase_of_notMem (Lru.find_none hl)]
    rfl

/-- The state `insert` enters its loop with. -/
def inserted (digest : Str) (pre : π) (weight : Usize) (inner : ComponentCacheInner L) :
    ComponentCacheInner L where
  lru := (L.put digest ⟨pre, weight⟩ inner.lru).2
  totalBytes := (match (L.put digest ⟨pre, weight⟩ inner.lru).1 with
    | some evicted => Usize.saturatingSub inner.totalBytes evicted.weight
    | none => inner.totalBytes) + weight

theorem insert_eq (byteBudget : Usize) (digest : Str) (pre : π) (weight : Usize)
    (inner : ComponentCacheInner L) :
    inner.insert byteBudget digest pre weight =
      evict byteBudget (inserted digest pre weight inner).entries.length
        (inserted digest pre weight inner) := rfl

theorem inserted_entries (digest : Str) (pre : π) (weight : Usize)
    (inner : ComponentCacheInner L) :
    (inserted digest pre weight inner).entries =
      (Lru.put (L.cap inner.lru) digest ⟨pre, weight⟩ inner.entries).2 :=
  L.entries_put _ _ _

theorem inserted_head (digest : Str) (pre : π) (weight : Usize) (inner : ComponentCacheInner L) :
    ∃ rest, (inserted digest pre weight inner).entries = (digest, ⟨pre, weight⟩) :: rest := by
  rw [inserted_entries]
  unfold Lru.put
  split <;> exact ⟨_, rfl⟩

/-- Before the new weight is added, the counter is the other keys' weight plus the drift. -/
theorem inserted_total (digest : Str) (pre : π) (weight : Usize) {inner : ComponentCacheInner L}
    {d : Nat} (h : Drift d inner) :
    ∃ t : Usize, (inserted digest pre weight inner).totalBytes = t + weight ∧
      t.toNat = othersWeight digest inner + d := by
  refine ⟨_, rfl, ?_⟩
  have hw := weights_eq digest inner
  rw [L.put_fst, Lru.put_fst]
  unfold Drift at h
  change (match Lru.find digest inner.entries with
    | some evicted => Usize.saturatingSub inner.totalBytes evicted.weight
    | none => inner.totalBytes).toNat = _
  cases hl : Lru.find digest inner.entries with
  | some old =>
    rw [hl] at hw
    simp only [Option.map_some, Option.getD_some] at hw
    simp only [Usize.toNat_saturatingSub]
    omega
  | none =>
    rw [hl] at hw
    simp only [Option.map_none, Option.getD_none] at hw
    simp only
    omega

/-- The byte-budget loop keeps the drift. -/
theorem evict_drift {byteBudget : Usize} {d : Nat} {inner : ComponentCacheInner L}
    (rounds : Nat) (h : Drift d inner) : Drift d (evict byteBudget rounds inner) := by
  refine evict_keep (fun inner inner' e h _ he hen _ ht => ?_) rounds h
  have hw := Lru.weight_dropLast (fun e : CacheEntry π => e.weight.toNat) he
  unfold Drift weights at h ⊢
  rw [hen, ht, Usize.toNat_saturatingSub]
  omega

/-- **`insert` on the drift**: the silently dropped weight is added to it. -/
theorem insert_drift (byteBudget : Usize) {digest : Str} (pre : π) {weight : Usize}
    {inner : ComponentCacheInner L} {d : Nat} (hcap : 0 < L.cap inner.lru) (h : Drift d inner)
    (hfit : othersWeight digest inner + d + weight.toNat < 2 ^ 64) :
    Drift (d + dropped digest inner) (inner.insert byteBudget digest pre weight) := by
  rw [insert_eq]
  apply evict_drift
  obtain ⟨t, ht, htn⟩ := inserted_total digest pre weight h
  have hput := weight_put digest pre weight inner hcap
  unfold Drift weights
  rw [ht, inserted_entries, Usize.toNat_add_of_lt (by omega)]
  omega

/-- The head of the list outlives the loop when its own weight is within the budget and the
accounting is exact. -/
theorem evict_head (byteBudget : Usize) {e : Str × CacheEntry π} {inner : ComponentCacheInner L}
    (hx : Drift 0 inner) (hhead : inner.entries.head? = some e)
    (hw : e.2.weight ≤ byteBudget) :
    (evict byteBudget inner.entries.length inner).entries.head? = some e := by
  refine (evict_keep (P := fun inner => Drift 0 inner ∧ inner.entries.head? = some e)
    (fun inner inner' e' h hb he hen _ ht => ?_) _ ⟨hx, hhead⟩).2
  obtain ⟨hx, hhead⟩ := h
  have hsum := Lru.weight_dropLast (fun e : CacheEntry π => e.weight.toNat) he
  refine ⟨?_, ?_⟩
  · unfold Drift weights at hx ⊢
    rw [hen, ht, Usize.toNat_saturatingSub]
    omega
  · rw [hen]
    cases hl : inner.entries with
    | nil => simp [hl] at hhead
    | cons a rest =>
      rw [hl] at hhead he
      simp only [List.head?_cons, Option.some.injEq] at hhead
      subst hhead
      cases rest with
      | nil =>
        -- a single entry within the budget stops the loop
        exfalso
        unfold Drift weights at hx
        rw [hl] at hx
        rw [UInt64.lt_iff_toNat_lt] at hb
        rw [UInt64.le_iff_toNat_le] at hw
        simp at hx
        omega
      | cons b rest => rfl

theorem evict_cap {byteBudget : Usize} {inner : ComponentCacheInner L} :
    L.cap (evict byteBudget inner.entries.length inner).lru = L.cap inner.lru :=
  evict_keep (P := fun i => L.cap i.lru = L.cap inner.lru)
    (fun _ _ _ h _ _ _ hc _ => hc.trans h) _ rfl

theorem apply_cap (byteBudget : Usize) (op : CacheOp π) (inner : ComponentCacheInner L) :
    L.cap (op.apply byteBudget inner).lru = L.cap inner.lru := by
  cases op with
  | hit digest => exact L.cap_get _ _
  | insert digest pre weight =>
    rw [CacheOp.apply, insert_eq, evict_cap]
    exact L.cap_put _ _ _

/-! ## Runs -/

/-- The states reached by critical sections that all meet `A`. -/
def CacheRun (A : CacheOp π → ComponentCacheInner L → Prop) (byteBudget : Usize) :
    ComponentCacheInner L → ComponentCacheInner L → Prop :=
  Relation.ReflTransGen fun s s' => ∃ op, A op s ∧ s' = op.apply byteBudget s

/-- The invariant of an accounted run. -/
structure Accounting (byteBudget : Usize) (inner : ComponentCacheInner L) : Prop where
  cap : 0 < L.cap inner.lru
  exact : Drift 0 inner
  within : inner.totalBytes ≤ byteBudget

theorem Accounting.new (byteBudget : Usize) (L : LruCrate Str (CacheEntry π)) (cap : Nat) :
    Accounting byteBudget (ComponentCacheInner.new L cap) where
  cap := by rw [ComponentCacheInner.new, L.cap_new]; omega
  exact := by simp [Drift, ComponentCacheInner.new, weights, entries]
  within := UInt64.le_iff_toNat_le.2 (Nat.zero_le _)

theorem Accounted.dropped_eq {digest : Str} {pre : π} {weight : Usize}
    {inner : ComponentCacheInner L} (h : (CacheOp.insert digest pre weight).Accounted inner) :
    dropped digest inner = 0 := by
  unfold dropped
  split
  · rfl
  · rename_i hn
    rw [not_or] at hn
    obtain h1 | h2 | h3 := h.1
    · exact absurd h1 hn.1
    · exact absurd h2 hn.2
    · cases hl : inner.entries.getLast? with
      | none => rfl
      | some e => simp [h3 e hl]

theorem Accounting.step {byteBudget : Usize} {op : CacheOp π} {inner : ComponentCacheInner L}
    (h : Accounting byteBudget inner) (ha : op.Accounted inner) :
    Accounting byteBudget (op.apply byteBudget inner) := by
  refine ⟨by rw [apply_cap]; exact h.cap, ?_, ?_⟩
  · cases op with
    | hit digest => exact h.exact.trans (by rw [CacheOp.apply, weights_hit])
    | insert digest pre weight =>
      have := insert_drift byteBudget pre h.cap h.exact
        (by simpa using ha.2)
      rwa [Accounted.dropped_eq ha] at this
  · cases op with
    | hit digest => exact h.within
    | insert digest pre weight =>
      rw [CacheOp.apply, insert_eq]
      obtain hb | hnil := evict_done (inserted digest pre weight inner)
      · exact UInt64.not_lt.1 hb
      · have hx := insert_drift byteBudget pre h.cap h.exact
          (by simpa using ha.2)
        rw [Accounted.dropped_eq ha, insert_eq] at hx
        unfold Drift weights at hx
        rw [hnil] at hx
        rw [UInt64.le_iff_toNat_le, hx]
        simp

theorem Accounting.run {byteBudget : Usize} {s s' : ComponentCacheInner L}
    (h : Accounting byteBudget s) (hr : CacheRun CacheOp.Accounted byteBudget s s') :
    Accounting byteBudget s' := by
  induction hr with
  | refl => exact h
  | tail _ hs ih =>
    obtain ⟨op, ha, rfl⟩ := hs
    exact ih.step ha

theorem Accounting.resident {byteBudget : Usize} {digest : Str} {pre : π} {weight : Usize}
    {inner : ComponentCacheInner L} (h : Accounting byteBudget inner)
    (ha : (CacheOp.insert digest pre weight).Accounted inner) (hw : weight ≤ byteBudget) :
    Resident digest (inner.insert byteBudget digest pre weight) := by
  obtain ⟨rest, hhead⟩ := inserted_head digest pre weight inner
  obtain ⟨t, ht, htn⟩ := inserted_total digest pre weight h.exact
  have hput := weight_put digest pre weight inner h.cap
  have hx : Drift 0 (inserted digest pre weight inner) := by
    have hfit := ha.2
    have hd := Accounted.dropped_eq ha
    unfold Drift weights
    rw [ht, inserted_entries, Usize.toNat_add_of_lt (by omega)]
    omega
  have hkeep := evict_head byteBudget (e := (digest, ⟨pre, weight⟩)) hx
    (by rw [hhead]; rfl) hw
  exact ⟨⟨pre, weight⟩, List.mem_of_head? (by rw [insert_eq]; exact hkeep)⟩

/-- An insertion that is not accounted for leaves the counter off. -/
theorem Accounting.inexact {byteBudget : Usize} {op : CacheOp π} {inner : ComponentCacheInner L}
    (h : Accounting byteBudget inner) (ha : ¬ op.Accounted inner) :
    ¬ CacheExact (op.apply byteBudget inner) := by
  cases op with
  | hit digest => exact absurd trivial ha
  | insert digest pre weight =>
    by_cases hfit : othersWeight digest inner + weight.toNat < 2 ^ 64
    · -- a weighty entry was dropped
      have hx := insert_drift byteBudget pre h.cap h.exact
        (by simpa using hfit)
      have hdrop : 0 < dropped digest inner := by
        have hn : ¬ _ := fun h1 => ha ⟨h1, hfit⟩
        simp only [not_or, not_forall] at hn
        obtain ⟨h1, h2, e, he, hne⟩ := hn
        unfold dropped
        rw [if_neg (not_or.2 ⟨h1, h2⟩), he]
        simp only [Option.map_some, Option.getD_some]
        exact Nat.pos_of_ne_zero fun h0 => hne (UInt64.toNat_inj.1 (by simpa using h0))
      intro hex
      unfold CacheExact at hex
      unfold Drift at hx
      rw [CacheOp.apply] at hex
      omega
    · -- the sum wrapped below the budget, so the loop pops nothing
      obtain ⟨t, ht, htn⟩ := inserted_total digest pre weight
        h.exact
      have hwrap := Usize.toNat_add_of_ge (a := t) (b := weight) (by omega)
      have hlt := weight.toNat_lt
      have hput := weight_put digest pre weight inner h.cap
      have hdrop : dropped digest inner < 2 ^ 64 := by
        unfold dropped
        split
        · decide
        · cases inner.entries.getLast? with
          | none => simp
          | some e => simpa using e.2.weight.toNat_lt
      have hwt : t.toNat ≤ byteBudget.toNat := by
        have hx := h.exact
        have hw := UInt64.le_iff_toNat_le.1 h.within
        have := weights_eq digest inner
        unfold Drift at hx
        omega
      have hstop : ¬ byteBudget < (inserted digest pre weight inner).totalBytes := by
        rw [ht, UInt64.lt_iff_toNat_lt]
        omega
      intro hex
      unfold CacheExact at hex
      rw [CacheOp.apply, insert_eq, evict_stop (.inl hstop), ht] at hex
      unfold weights at hex
      rw [inserted_entries] at hex
      omega

/-! ## The accounting -/

/-- Along every accounted run the counter is exact and an accounted insertion within the budget
leaves its digest resident; any other insertion leaves the counter off. -/
theorem cache_exact_of_accounted (L : LruCrate Str (CacheEntry π)) {cap : Nat} (hcap : 1 ≤ cap)
    (byteBudget : Usize) :
    (∀ s, CacheRun CacheOp.Accounted byteBudget (ComponentCacheInner.new L cap) s →
      L.cap s.lru = cap ∧ CacheExact s ∧ ∀ digest pre weight, weight ≤ byteBudget →
        (CacheOp.insert digest pre weight).Accounted s →
        Resident digest (s.insert byteBudget digest pre weight)) ∧
      ∀ s (op : CacheOp π), CacheRun CacheOp.Accounted byteBudget (ComponentCacheInner.new L cap) s →
        ¬ op.Accounted s → ¬ CacheExact (op.apply byteBudget s) := by
  have hinv : ∀ s, CacheRun CacheOp.Accounted byteBudget (ComponentCacheInner.new L cap) s →
      Accounting byteBudget s := fun s hr => (Accounting.new byteBudget L cap).run hr
  have hkeep : ∀ s, CacheRun CacheOp.Accounted byteBudget (ComponentCacheInner.new L cap) s →
      L.cap s.lru = cap := by
    intro s hr
    induction hr with
    | refl => simp [ComponentCacheInner.new, hcap]
    | tail _ hs ih =>
      obtain ⟨op, -, rfl⟩ := hs
      rw [apply_cap, ih]
  refine ⟨fun s hr => ⟨hkeep s hr, (hinv s hr).exact, fun digest pre weight hw ha => ?_⟩,
    fun s op hr ha => (hinv s hr).inexact ha⟩
  exact (hinv s hr).resident ha hw

instance (op : CacheOp π) (inner : ComponentCacheInner L) : Decidable (op.Accounted inner) :=
  match op with
  | .hit _ => isTrue trivial
  | .insert digest _ weight => inferInstanceAs (Decidable (((Lru.find digest inner.entries).isSome ∨
      inner.entries.length < L.cap inner.lru ∨ ∀ e ∈ inner.entries.getLast?, e.2.weight = 0) ∧
    othersWeight digest inner + weight.toNat < 2 ^ 64))

/-- An entry is replaced by a lighter one and then read; the last insertion is over the byte budget, so
the least recently used entry, `b`, goes. -/
def evictingOps : List (CacheOp Unit) :=
  [.insert ['a'] () 60, .insert ['a'] () 30, .insert ['b'] () 50, .hit ['a'], .insert ['c'] () 40]

theorem cache_exact_of_accounted_two : ∃ s : ComponentCacheInner (LruCrate.list Str (CacheEntry Unit)),
    CacheExact s ∧ s.totalBytes = 70 ∧ s.entries.map Prod.fst = [['c'], ['a']] := by
  have hend : (evictingOps.foldlM
      (fun s (op : CacheOp Unit) => if op.Accounted s then some (op.apply 100 s) else none)
      (ComponentCacheInner.new (LruCrate.list Str (CacheEntry Unit)) 3)).any (fun s =>
        decide (s.totalBytes = 70 ∧ s.entries.map Prod.fst = [['c'], ['a']])) = true := by
    decide +kernel
  rw [Option.any_eq_true] at hend
  obtain ⟨s, hs, hend⟩ := hend
  have hrun : CacheRun CacheOp.Accounted 100
      (ComponentCacheInner.new (LruCrate.list Str (CacheEntry Unit)) 3) s :=
    Relation.ReflTransGen.mono (fun _ _ ⟨op, ha, hop⟩ => ⟨op, ha, (Option.some.inj hop).symm⟩) _ _
      (Conc.Run.of_checked hs)
  exact ⟨s, ((cache_exact_of_accounted _ (by decide : 1 ≤ 3) 100).1 s hrun).2.1,
    of_decide_eq_true hend⟩

/-- A full cache of one entry: the second digest drops the first one silently, so the counter
passes the budget and the loop pops the new entry too. -/
theorem cache_inexact_by_capacity :
    ¬ ∀ (cap : Nat) (byteBudget : Usize), 1 ≤ cap → ∀ s,
      CacheRun (fun _ _ => True) byteBudget
        (ComponentCacheInner.new (LruCrate.list Str (CacheEntry Unit)) cap) s →
      CacheExact s ∧ ∀ digest weight, weight ≤ byteBudget →
        Resident digest (s.insert byteBudget digest () weight) := by
  intro h
  let s₀ := ComponentCacheInner.new (LruCrate.list Str (CacheEntry Unit)) 1
  let s₁ := (CacheOp.insert ['a'] () 60).apply 100 s₀
  let s₂ := (CacheOp.insert ['b'] () 60).apply 100 s₁
  have h2 := (h 1 100 (by decide) s₂
    (.tail (.single ⟨.insert ['a'] () 60, trivial, rfl⟩)
      ⟨.insert ['b'] () 60, trivial, rfl⟩)).1
  have ht : s₂.totalBytes.toNat = 60 := by decide
  have hw : s₂.weights = 0 := by decide
  unfold CacheExact at h2
  omega

end Warpline
