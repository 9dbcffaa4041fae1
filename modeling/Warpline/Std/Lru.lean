import Mathlib

/-!
# A bounded least-recently-used map

`LruCrate κ ν`: an implementation of an LRU cache with its documented behaviour, stated of the
list of its entries from most to least recently used. `put` returns the old value of an equal
key only; when it drops the least recently used entry of another key, to stay within the
capacity, it returns nothing (`Lru.put`).

`LruCrate.list` is the implementation by that list itself.
-/

set_option autoImplicit false

namespace Lru

variable {κ ν : Type} [DecidableEq κ]

def erase (k : κ) (l : List (κ × ν)) : List (κ × ν) := l.filter fun e => e.1 ≠ k

def find (k : κ) : List (κ × ν) → Option ν
  | [] => none
  | e :: l => if e.1 = k then some e.2 else find k l

/-- `get`: the entry becomes the most recently used. -/
def promote (k : κ) (l : List (κ × ν)) : List (κ × ν) :=
  match find k l with
  | some v => (k, v) :: erase k l
  | none => l

def put (cap : Nat) (k : κ) (v : ν) (l : List (κ × ν)) : Option ν × List (κ × ν) :=
  match find k l with
  | some old => (some old, (k, v) :: erase k l)
  | none => (none, (k, v) :: if l.length < cap then l else l.dropLast)

/-- `put` returns the value of an equal key, and nothing otherwise. -/
theorem put_fst (cap : Nat) (k : κ) (v : ν) (l : List (κ × ν)) : (put cap k v l).1 = find k l := by
  unfold put
  cases find k l <;> rfl

theorem mem_erase {k : κ} {l : List (κ × ν)} {e : κ × ν} : e ∈ erase k l ↔ e ∈ l ∧ e.1 ≠ k := by
  simp [erase]

theorem find_mem {k : κ} {l : List (κ × ν)} {v : ν} (h : find k l = some v) : (k, v) ∈ l := by
  induction l with
  | nil => cases h
  | cons e l ih =>
    rw [find] at h
    split at h
    · rename_i hk
      rw [← hk, ← Option.some.inj h]
      exact .head _
    · exact .tail _ (ih h)

/-- Erasing a present key removes an entry. -/
theorem length_erase_lt {k : κ} {l : List (κ × ν)} {v : ν} (h : find k l = some v) :
    (erase k l).length < l.length := by
  refine List.length_filter_lt_length_iff_exists.2 ⟨(k, v), find_mem h, by simp⟩

theorem find_none {k : κ} {l : List (κ × ν)} (h : find k l = none) :
    k ∉ l.map Prod.fst := by
  induction l with
  | nil => simp
  | cons e l ih =>
    rw [find] at h
    split at h
    · cases h
    · rename_i hk
      simp only [List.map_cons, List.mem_cons, not_or]
      exact ⟨Ne.symm hk, ih h⟩

theorem nodup_cons_erase {k : κ} {v : ν} {l : List (κ × ν)} (h : (l.map Prod.fst).Nodup) :
    (((k, v) :: erase k l).map Prod.fst).Nodup := by
  rw [List.map_cons, List.nodup_cons]
  refine ⟨fun hm => ?_, h.sublist (List.filter_sublist.map _)⟩
  obtain ⟨e, he, hk⟩ := List.mem_map.1 hm
  exact (mem_erase.1 he).2 hk

theorem nodup_promote {k : κ} {l : List (κ × ν)} (h : (l.map Prod.fst).Nodup) :
    ((promote k l).map Prod.fst).Nodup := by
  unfold promote
  split
  · exact nodup_cons_erase h
  · exact h

theorem nodup_put {cap : Nat} {k : κ} {v : ν} {l : List (κ × ν)} (h : (l.map Prod.fst).Nodup) :
    ((put cap k v l).2.map Prod.fst).Nodup := by
  unfold put
  split
  · exact nodup_cons_erase h
  · rename_i hk
    have hn := find_none hk
    simp only [List.map_cons, List.nodup_cons]
    split
    · exact ⟨hn, h⟩
    · exact ⟨fun hm => hn ((List.dropLast_sublist l).map _ |>.subset hm),
        h.sublist ((List.dropLast_sublist l).map _)⟩

theorem mem_promote {k : κ} {l : List (κ × ν)} {e : κ × ν} (h : e ∈ promote k l) : e ∈ l := by
  unfold promote at h
  split at h
  · rename_i v hv
    obtain rfl | h := List.mem_cons.1 h
    · exact find_mem hv
    · exact (mem_erase.1 h).1
  · exact h

/-- After `put` the key has its new entry only; the others are old ones. -/
theorem mem_put {cap : Nat} {k : κ} {v : ν} {l : List (κ × ν)} {e : κ × ν}
    (h : e ∈ (put cap k v l).2) : e = (k, v) ∨ e ∈ l ∧ e.1 ≠ k := by
  unfold put at h
  split at h
  · exact (List.mem_cons.1 h).imp_right mem_erase.1
  · rename_i hk
    refine (List.mem_cons.1 h).imp_right fun h => ?_
    have hm : e ∈ l := by
      split at h
      · exact h
      · exact List.mem_of_mem_dropLast h
    exact ⟨hm, fun he => find_none hk (List.mem_map.2 ⟨e, hm, he⟩)⟩

/-! ## Sums over the entries -/

section
omit [DecidableEq κ]
variable (w : ν → Nat)

/-- The combined weight of the entries. -/
def weight (l : List (κ × ν)) : Nat := (l.map fun e => w e.2).sum

@[simp] theorem weight_nil : weight w ([] : List (κ × ν)) = 0 := rfl

@[simp] theorem weight_cons (e : κ × ν) (l : List (κ × ν)) :
    weight w (e :: l) = w e.2 + weight w l := by simp [weight]

theorem weight_dropLast {l : List (κ × ν)} {e : κ × ν} (h : l.getLast? = some e) :
    weight w l = weight w l.dropLast + w e.2 := by
  conv_lhs => rw [← List.dropLast_append_getLast? e h]
  simp [weight]

end

variable (w : ν → Nat)

theorem erase_of_notMem {k : κ} {l : List (κ × ν)} (h : k ∉ l.map Prod.fst) : erase k l = l := by
  refine List.filter_eq_self.2 fun e he => ?_
  simp only [decide_eq_true_eq]
  exact fun hk => h (List.mem_map.2 ⟨e, he, hk⟩)

/-- With unique keys, the weight splits into one key's entry and the rest. -/
theorem weight_erase {k : κ} {v : ν} {l : List (κ × ν)} (hn : (l.map Prod.fst).Nodup)
    (h : find k l = some v) : weight w l = w v + weight w (erase k l) := by
  induction l with
  | nil => cases h
  | cons e l ih =>
    simp only [List.map_cons, List.nodup_cons] at hn
    rw [find] at h
    split at h
    · rename_i hk
      subst hk
      have : erase e.1 (e :: l) = l := by
        have := erase_of_notMem hn.1
        simpa [erase] using this
      rw [this, weight_cons, ← Option.some.inj h]
    · rename_i hk
      have : erase k (e :: l) = e :: erase k l := by simp [erase, hk]
      rw [this, weight_cons, weight_cons, ih hn.2 h]
      omega

theorem weight_promote {k : κ} {l : List (κ × ν)} (hn : (l.map Prod.fst).Nodup) :
    weight w (promote k l) = weight w l := by
  unfold promote
  split
  · rename_i v hv
    rw [weight_cons, weight_erase w hn hv]
  · rfl

end Lru

/-- An LRU cache with its documented behaviour (module doc). -/
structure LruCrate (κ ν : Type) [DecidableEq κ] where
  Cache : Type
  new : Nat → Cache
  get : κ → Cache → Option ν × Cache
  put : κ → ν → Cache → Option ν × Cache
  popLru : Cache → Option (κ × ν) × Cache
  cap : Cache → Nat
  entries : Cache → List (κ × ν)
  nodup : ∀ c, ((entries c).map Prod.fst).Nodup
  entries_new : ∀ n, entries (new n) = []
  cap_new : ∀ n, cap (new n) = n
  get_fst : ∀ k c, (get k c).1 = Lru.find k (entries c)
  entries_get : ∀ k c, entries (get k c).2 = Lru.promote k (entries c)
  cap_get : ∀ k c, cap (get k c).2 = cap c
  put_fst : ∀ k v c, (put k v c).1 = (Lru.put (cap c) k v (entries c)).1
  entries_put : ∀ k v c, entries (put k v c).2 = (Lru.put (cap c) k v (entries c)).2
  cap_put : ∀ k v c, cap (put k v c).2 = cap c
  popLru_fst : ∀ c, (popLru c).1 = (entries c).getLast?
  entries_popLru : ∀ c, entries (popLru c).2 = (entries c).dropLast
  cap_popLru : ∀ c, cap (popLru c).2 = cap c

attribute [simp] LruCrate.entries_new LruCrate.cap_new LruCrate.get_fst LruCrate.entries_get
  LruCrate.cap_get LruCrate.put_fst LruCrate.entries_put LruCrate.cap_put LruCrate.popLru_fst
  LruCrate.entries_popLru LruCrate.cap_popLru

/-- The cache that is its list of entries. -/
def LruCrate.list (κ ν : Type) [DecidableEq κ] : LruCrate κ ν where
  Cache := Nat × { l : List (κ × ν) // (l.map Prod.fst).Nodup }
  new := fun n => (n, ⟨[], List.nodup_nil⟩)
  get := fun k c => (Lru.find k c.2.1, c.1, ⟨Lru.promote k c.2.1, Lru.nodup_promote c.2.2⟩)
  put := fun k v c =>
    ((Lru.put c.1 k v c.2.1).1, c.1, ⟨(Lru.put c.1 k v c.2.1).2, Lru.nodup_put c.2.2⟩)
  popLru := fun c =>
    (c.2.1.getLast?, c.1, ⟨c.2.1.dropLast, c.2.2.sublist ((List.dropLast_sublist _).map _)⟩)
  cap := fun c => c.1
  entries := fun c => c.2.1
  nodup := fun c => c.2.2
  entries_new := fun _ => rfl
  cap_new := fun _ => rfl
  get_fst := fun _ _ => rfl
  entries_get := fun _ _ => rfl
  cap_get := fun _ _ => rfl
  put_fst := fun _ _ _ => rfl
  entries_put := fun _ _ _ => rfl
  cap_put := fun _ _ _ => rfl
  popLru_fst := fun _ => rfl
  entries_popLru := fun _ => rfl
  cap_popLru := fun _ => rfl
