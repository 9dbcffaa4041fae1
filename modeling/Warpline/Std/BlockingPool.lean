import Mathlib

/-!
# A pool of blocking threads

tokio's `spawn_blocking`: jobs wait first-in first-out for one of `threads` threads, and a job that
has started runs to its end, whether or not somebody waits for it. A job is known by its handle,
under which its result is found when it has ended.
-/

set_option autoImplicit false

structure BlockingPool (κ : Type) (out : κ → Type) where
  next : Nat
  queue : List (Nat × κ)
  running : List (Nat × κ)
  done : Nat → Option ((j : κ) × out j)

namespace BlockingPool

variable {κ : Type} {out : κ → Type}

def new : BlockingPool κ out := ⟨0, [], [], fun _ => none⟩

def spawn (j : κ) (p : BlockingPool κ out) : Nat × BlockingPool κ out :=
  (p.next, { p with next := p.next + 1, queue := p.queue ++ [(p.next, j)] })

/-- The job at the head of the queue gets a thread, if one is free. -/
def start (threads : Nat) (p : BlockingPool κ out) : Option (BlockingPool κ out) :=
  match p.queue with
  | [] => none
  | q :: rest =>
    if p.running.length < threads then some { p with queue := rest, running := q :: p.running }
    else none

/-- The `i`-th running job ends. -/
def finish (i : Nat) (result : (j : κ) → out j) (p : BlockingPool κ out) : Option (κ × BlockingPool κ out) :=
  (p.running[i]?).map fun q => (q.2, { p with
    running := p.running.eraseIdx i
    done := Function.update p.done q.1 (some ⟨q.2, result q.2⟩) })

/-- The jobs that have not ended. -/
def jobs (p : BlockingPool κ out) : List (Nat × κ) := p.queue ++ p.running

/-- The job of a handle has not ended, or its result is there. -/
def Knows (p : BlockingPool κ out) (handle : Nat) (j : κ) : Prop :=
  (handle, j) ∈ p.jobs ∨ ∃ r, p.done handle = some ⟨j, r⟩

structure WellFormed (threads : Nat) (p : BlockingPool κ out) : Prop where
  threads : p.running.length ≤ threads
  nodup : (p.jobs.map Prod.fst).Nodup
  fresh : ∀ q ∈ p.jobs, q.1 < p.next
  pending : ∀ q ∈ p.jobs, p.done q.1 = none
  ended : ∀ handle, p.done handle ≠ none → handle < p.next

@[simp] theorem jobs_new : (new : BlockingPool κ out).jobs = [] := rfl

theorem wellFormed_new (threads : Nat) : WellFormed threads (new : BlockingPool κ out) :=
  ⟨Nat.zero_le _, List.nodup_nil, fun _ h => absurd h List.not_mem_nil,
    fun _ h => absurd h List.not_mem_nil, fun _ h => absurd rfl h⟩

variable {threads : Nat} {p p' : BlockingPool κ out}

/-! ## What a step does -/

theorem jobs_spawn (j : κ) (p : BlockingPool κ out) :
    (p.spawn j).2.jobs.Perm ((p.next, j) :: p.jobs) := by
  show (p.queue ++ [(p.next, j)] ++ p.running).Perm ((p.next, j) :: (p.queue ++ p.running))
  rw [List.append_assoc]
  exact List.perm_middle

theorem start_spec (h : p.start threads = some p') : p'.jobs.Perm p.jobs ∧
    p'.running.length ≤ threads ∧ p'.done = p.done ∧ p'.next = p.next := by
  unfold start at h
  split at h
  · cases h
  rename_i q rest hq
  split at h
  · rename_i hlt
    cases h
    refine ⟨?_, hlt, rfl, rfl⟩
    show (rest ++ q :: p.running).Perm (p.queue ++ p.running)
    rw [hq]
    exact List.perm_middle
  · cases h

theorem finish_spec {i : Nat} {result : (j : κ) → out j} {j : κ}
    (h : p.finish i result = some (j, p')) : ∃ handle, p.jobs.Perm ((handle, j) :: p'.jobs) ∧
      p'.running.length ≤ p.running.length ∧
      p'.done = Function.update p.done handle (some ⟨j, result j⟩) ∧ p'.next = p.next := by
  unfold finish at h
  obtain ⟨q, hq, heq⟩ := Option.map_eq_some_iff.1 h
  obtain ⟨hi, rfl⟩ := List.getElem?_eq_some_iff.1 hq
  cases heq
  refine ⟨_, ?_, ?_, rfl, rfl⟩
  · have hperm := (List.getElem_cons_eraseIdx_perm hi).symm
    exact (hperm.append_left p.queue).trans List.perm_middle
  · show (p.running.eraseIdx i).length ≤ _
    rw [List.length_eraseIdx_of_lt hi]
    omega

/-! ## What every step keeps -/

theorem WellFormed.spawn (h : WellFormed threads p) (j : κ) : WellFormed threads (p.spawn j).2 := by
  have hperm := jobs_spawn j p
  refine ⟨h.threads, ?_, fun q hq => ?_, fun q hq => ?_,
    fun handle hd => Nat.lt_succ_of_lt (h.ended handle hd)⟩
  · rw [(hperm.map Prod.fst).nodup_iff, List.map_cons, List.nodup_cons]
    refine ⟨fun hm => ?_, h.nodup⟩
    obtain ⟨q, hq, heq⟩ := List.mem_map.1 hm
    have hlt := h.fresh q hq
    rw [heq] at hlt
    exact Nat.lt_irrefl _ hlt
  · show q.1 < p.next + 1
    rcases List.mem_cons.1 (hperm.mem_iff.1 hq) with rfl | hq
    · exact Nat.lt_succ_self _
    · exact Nat.lt_succ_of_lt (h.fresh q hq)
  · show p.done q.1 = none
    rcases List.mem_cons.1 (hperm.mem_iff.1 hq) with rfl | hq
    · by_contra hd
      exact Nat.lt_irrefl _ (h.ended _ hd)
    · exact h.pending q hq

theorem WellFormed.start (h : WellFormed threads p) (hs : p.start threads = some p') :
    WellFormed threads p' := by
  obtain ⟨hperm, hlen, hdone, hnext⟩ := start_spec hs
  refine ⟨hlen, ?_, fun q hq => ?_, fun q hq => ?_, ?_⟩
  · rw [(hperm.map Prod.fst).nodup_iff]
    exact h.nodup
  · rw [hnext]
    exact h.fresh q (hperm.mem_iff.1 hq)
  · rw [hdone]
    exact h.pending q (hperm.mem_iff.1 hq)
  · rw [hdone, hnext]
    exact h.ended

theorem WellFormed.finish (h : WellFormed threads p) {i : Nat} {result : (j : κ) → out j} {j : κ}
    (hf : p.finish i result = some (j, p')) : WellFormed threads p' := by
  obtain ⟨handle, hperm, hlen, hdone, hnext⟩ := finish_spec hf
  have hnodup := h.nodup
  rw [(hperm.map Prod.fst).nodup_iff, List.map_cons, List.nodup_cons] at hnodup
  refine ⟨hlen.trans h.threads, hnodup.2, fun q hq => ?_, fun q hq => ?_, fun handle' hd => ?_⟩
  · rw [hnext]
    exact h.fresh q (hperm.mem_iff.2 (.tail _ hq))
  · have hne : q.1 ≠ handle := by
      rintro rfl
      exact hnodup.1 (List.mem_map.2 ⟨q, hq, rfl⟩)
    rw [hdone, Function.update_of_ne hne]
    exact h.pending q (hperm.mem_iff.2 (.tail _ hq))
  · rw [hnext]
    by_cases heq : handle' = handle
    · rw [heq]
      exact h.fresh _ (hperm.mem_iff.2 (.head _))
    · rw [hdone, Function.update_of_ne heq] at hd
      exact h.ended handle' hd

theorem knows_spawn (j : κ) (p : BlockingPool κ out) : (p.spawn j).2.Knows p.next j :=
  .inl ((jobs_spawn j p).mem_iff.2 (.head _))

theorem Knows.spawn {handle : Nat} {j : κ} (h : p.Knows handle j) (j' : κ) :
    (p.spawn j').2.Knows handle j := by
  obtain hm | hd := h
  · exact .inl ((jobs_spawn j' p).mem_iff.2 (.tail _ hm))
  · exact .inr hd

theorem Knows.start {handle : Nat} {j : κ} (h : p.Knows handle j)
    (hs : p.start threads = some p') : p'.Knows handle j := by
  obtain ⟨hperm, -, hdone, -⟩ := start_spec hs
  unfold Knows
  rw [hdone, hperm.mem_iff]
  exact h

/-- A job that ends leaves its own result, under a handle no other job has. -/
theorem Knows.finish {handle : Nat} {j : κ} (h : p.Knows handle j) (hw : WellFormed threads p)
    {i : Nat} {result : (j : κ) → out j} {j' : κ} (hf : p.finish i result = some (j', p')) :
    p'.Knows handle j := by
  obtain ⟨handle', hperm, -, hdone, -⟩ := finish_spec hf
  obtain hm | ⟨r, hr⟩ := h
  · rcases List.mem_cons.1 (hperm.mem_iff.1 hm) with heq | hm
    · cases heq
      exact .inr ⟨result j, by rw [hdone, Function.update_self]⟩
    · exact .inl hm
  · have hne : handle ≠ handle' := by
      rintro rfl
      rw [hw.pending _ (hperm.mem_iff.2 (.head _))] at hr
      cases hr
    exact .inr ⟨r, by rw [hdone, Function.update_of_ne hne, hr]⟩

/-- Where jobs are left, one can start or one can end. -/
theorem busy (h : 0 < threads) (hj : p.jobs ≠ []) (result : (j : κ) → out j) :
    (∃ p', p.start threads = some p') ∨ ∃ i j p', p.finish i result = some (j, p') := by
  cases hr : p.running with
  | nil =>
    left
    cases hq : p.queue with
    | nil =>
      rw [jobs, hr, hq] at hj
      exact absurd rfl hj
    | cons q rest => exact ⟨_, by rw [start, hq, hr]; exact if_pos h⟩
  | cons q rest =>
    right
    exact ⟨0, q.2, _, by rw [finish, hr]; rfl⟩

end BlockingPool
