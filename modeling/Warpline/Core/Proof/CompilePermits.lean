import Warpline.Core.Proof.InvokeSteps

/-!
# Compile permits and the blocking pool

`PermitInv`: every compile permit is free, with a call that is about to spawn its job, or with a
job that has not ended. A call with a permit never waits, and a job never waits for anything but a
thread, so somebody can always go on. `compile_permits` is the result for every run.
-/

set_option autoImplicit false

namespace Warpline

open Conc

section
variable {W : Wasm} {τ : Type} [DecidableEq τ]

/-- The jobs that hold a permit. -/
def jobPermits (jobs : List (Nat × Job)) : Nat := jobs.countP fun q => q.2.permit

/-- The jobs that may compile. -/
def compileJobs (jobs : List (Nat × Job)) : Nat := jobs.countP fun q => q.2.task.compiles

/-- Free permits, those of jobs and those held by calls add up, and a served call has none. -/
structure PermitInv (cfg : RuntimeConfig) (threads : Nat) (s : HostState W τ) : Prop where
  pool : s.state.pool.WellFormed threads
  total : s.state.compileSlots + jobPermits s.state.pool.jobs +
    (holders permitEvent s.trace).length = cfg.compileConcurrency.toNat
  carries : ∀ q ∈ s.state.pool.jobs, q.2.task.compiles = q.2.permit
  known : ∀ t handle j, (callLedger (s.trace.of t)).job = some (handle, j) → s.state.pool.Knows handle j
  served : ∀ t, (callLedger (s.trace.of t)).served = true →
    (callLedger (s.trace.of t)).permit = .unasked

variable {cfg : RuntimeConfig} {meter : Bool} {threads : Nat} {ops : τ → HostOp} {s₀ : Host W τ}
  {C : HostConfig W τ} {t : τ}

/-! ## What calls may do -/

section
variable {op : HostOp} {L : CallLedger}

theorem allows_acquirePermit (h : Allows cfg op L (.acquirePermit : HostCall W)) :
    L.permit = .unasked ∧ L.served = false := by
  cases op with
  | invoke => exact ⟨h.permit, h.served⟩
  | stage =>
    have hL : L = .new := h
    rw [hL]
    exact ⟨rfl, rfl⟩

theorem allows_spawnBlocking {task : Task} {permit : Bool}
    (h : Allows cfg op L (.spawnBlocking task permit : HostCall W)) :
    task.compiles = permit ∧ L.permit = permitBefore permit := by
  cases op with
  | invoke => exact ⟨h.1, h.2.permit⟩
  | stage =>
    obtain ⟨rfl, rfl, hp⟩ := h
    exact ⟨rfl, hp⟩

theorem allows_join {handle : Nat} {task : Task}
    (h : Allows cfg op L (.join handle task : HostCall W)) :
    (∃ permit, L.job = some (handle, ⟨task, permit⟩)) ∧
      (task.compiles = false → L.permit = .unasked) := by
  cases op with
  | invoke =>
    obtain ⟨permit, hL, rfl, hj⟩ := h
    refine ⟨⟨_, hj⟩, fun hc => ?_⟩
    rw [hL.permit, hc]
    rfl
  | stage =>
    obtain ⟨rfl, -, hj⟩ := h
    exact ⟨⟨_, hj⟩, fun hc => by cases hc⟩

/-- A call that has a permit is about to spawn its job. -/
theorem allows_holding {c : HostCall W} (h : Allows cfg op L c) (hp : L.permit = .held) :
    ∃ task permit, c = .spawnBlocking task permit := by
  cases op with
  | invoke tenant func input limits =>
    cases c with
    | acquireSlot =>
      rw [h.2.1] at hp
      cases hp
    | dropSlot => exact absurd hp h.2.2.2.1
    | tryAcquireMany | releaseMany => exact absurd hp h.2.2.2
    | acquirePermit =>
      rw [h.permit] at hp
      cases hp
    | spawnBlocking task permit => exact ⟨task, permit, rfl⟩
    | join =>
      obtain ⟨permit, hL, -⟩ := h
      rw [hL.permit] at hp
      cases permit <;> cases hp
    | run =>
      obtain ⟨-, -, -, permit, served, hne, hL⟩ := h
      rw [hL.permit] at hp
      exact absurd hp hne
    | loadTicks | elapsed => exact absurd hp h.permit
    | record => exact absurd hp h.2.2.1.permit
  | stage wasm =>
    cases c with
    | acquirePermit =>
      have hL : L = .new := h
      rw [hL] at hp
      cases hp
    | spawnBlocking task permit => exact ⟨task, permit, rfl⟩
    | join => exact absurd hp h.2.1
    | _ => exact h.elim

theorem permit_follows (op : HostOp) (h : HostCalls W) (c : HostCall W) (r : HostRes c)
    (ha : Allows cfg op (callLedger h) c) : (standing permitEvent h).Follows (permitEvent c r) := by
  rw [← ledger_permit]
  cases c with
  | acquirePermit =>
    rw [(allows_acquirePermit ha).1]
    cases r <;> rfl
  | spawnBlocking task permit =>
    rw [(allows_spawnBlocking ha).2]
    cases permit with
    | true => rfl
    | false => trivial
  | _ => trivial

/-- A component that is served was found without asking for a permit. -/
theorem served_step {h : HostCalls W} {c : HostCall W} {r : HostRes c}
    (ha : Allows cfg op (callLedger h) c)
    (hold : (callLedger h).served = true → (callLedger h).permit = .unasked)
    (hs : (callLedger (⟨c, r⟩ :: h)).served = true) : (callLedger (⟨c, r⟩ :: h)).permit = .unasked := by
  cases c with
  | acquirePermit =>
    have hs' : (callLedger h).served = true := hs
    rw [(allows_acquirePermit ha).2] at hs'
    cases hs'
  | spawnBlocking task permit =>
    have hs' := hold hs
    rw [(allows_spawnBlocking ha).2] at hs'
    cases permit with
    | true => cases hs'
    | false => exact hold hs
  | join handle task =>
    show (callLedger h).permit = .unasked
    cases hc : task.compiles with
    | false => exact (allows_join ha).2 hc
    | true =>
      refine hold ?_
      have hnot : servedEvent (.join handle task) r = false := by
        cases r with
        | none => rfl
        | some res => cases task <;> first | rfl | cases hc
      have hs' : (servedEvent (.join handle task) r || (callLedger h).served) = true := hs
      rw [hnot] at hs'
      exact hs'
  | _ => exact hold hs

end

/-! ## Every step -/

omit [DecidableEq τ] in
theorem hostExec_pool {ch : HostChoice} {s s' : Host W τ} {c : HostCall W} {r : HostRes c}
    (h : hostExec cfg t ch s c = some (r, s')) (hp : permitEvent c r = none)
    (hj : jobEvent c r = none) : s'.pool = s.pool ∧ s'.compileSlots = s.compileSlots := by
  cases c with
  | acquirePermit => cases r <;> cases hp
  | spawnBlocking => cases hj
  | _ =>
    simp only [hostExec] at h
    repeat' split at h
    all_goals first | cases h; exact ⟨rfl, rfl⟩ | cases h

section
variable {s s' : HostState W τ}

/-- The calls of one thread are known to the pool if they were before, or are new to it. -/
theorem known_step {pool : BlockingPool Job (Job.Out W)} {c : HostCall W} {r : HostRes c}
    (hold : ∀ u handle j, (callLedger (s.trace.of u)).job = some (handle, j) → pool.Knows handle j)
    (hnew : ∀ handle j, jobEvent c r = some (handle, j) → pool.Knows handle j)
    (htr : s'.trace = (t, ⟨c, r⟩) :: s.trace) (u : τ) (handle : Nat) (j : Job)
    (hj : (callLedger (s'.trace.of u)).job = some (handle, j)) : pool.Knows handle j := by
  rw [htr] at hj
  by_cases hu : t = u
  · subst hu
    rw [Trace.of_cons_self] at hj
    have hor : (jobEvent c r).or (callLedger (s.trace.of t)).job = some (handle, j) := hj
    cases he : jobEvent c r with
    | none =>
      rw [he] at hor
      exact hold t handle j hor
    | some q =>
      rw [he] at hor
      cases hor
      exact hnew handle j he
  · rw [Trace.of_cons_ne hu] at hj
    exact hold u handle j hj

theorem served_all {c : HostCall W} {r : HostRes c} (hs : PermitInv cfg threads s)
    (ha : Allows cfg (ops t) (callLedger (s.trace.of t)) c) (htr : s'.trace = (t, ⟨c, r⟩) :: s.trace)
    (u : τ) (hu : (callLedger (s'.trace.of u)).served = true) :
    (callLedger (s'.trace.of u)).permit = .unasked := by
  rw [htr] at hu ⊢
  by_cases htu : t = u
  · subst htu
    rw [Trace.of_cons_self] at hu ⊢
    exact served_step ha (hs.served t) hu
  · rw [Trace.of_cons_ne htu] at hu ⊢
    exact hs.served u hu

theorem jobPermits_perm {l l' : List (Nat × Job)} (h : l.Perm l') : jobPermits l = jobPermits l' :=
  h.countP_eq _

theorem permitInv_step {c : HostCall W} {r : HostRes c} {ch : HostChoice}
    (hs : PermitInv cfg threads s) (ha : Allows cfg (ops t) (callLedger (s.trace.of t)) c)
    (hx : hostExec cfg t ch s.state c = some (r, s'.state)) (htr : s'.trace = (t, ⟨c, r⟩) :: s.trace) :
    PermitInv cfg threads s' := by
  have hserved := served_all hs ha htr
  have htotal := hs.total
  cases c with
  | acquirePermit =>
    have hfree : standing permitEvent (s.trace.of t) ≠ .held := by
      rw [← ledger_permit, (allows_acquirePermit ha).1]
      decide
    simp only [hostExec] at hx
    split at hx
    · -- dropped while it waits
      obtain ⟨rfl, hstate⟩ := Prod.mk.inj (Option.some.inj hx)
      have hcount : holders permitEvent s'.trace = holders permitEvent s.trace :=
        (congrArg _ htr).trans (holders_refused rfl hfree)
      refine ⟨hstate ▸ hs.pool, ?_, hstate ▸ hs.carries, ?_, hserved⟩
      · rw [hcount, ← hstate]
        exact htotal
      · rw [← hstate]
        exact known_step hs.known (fun _ _ h => by cases h) htr
    split at hx
    · rename_i hpos
      obtain ⟨rfl, hstate⟩ := Prod.mk.inj (Option.some.inj hx)
      have hcount : holders permitEvent s'.trace = t :: holders permitEvent s.trace :=
        (congrArg _ htr).trans (holders_held rfl hfree)
      refine ⟨hstate ▸ hs.pool, ?_, hstate ▸ hs.carries, ?_, hserved⟩
      · rw [hcount, List.length_cons, ← hstate]
        show s.state.compileSlots - 1 + jobPermits s.state.pool.jobs + _ = _
        omega
      · rw [← hstate]
        exact known_step hs.known (fun _ _ h => by cases h) htr
    · cases hx
  | spawnBlocking task permit =>
    obtain ⟨hc, hp⟩ := allows_spawnBlocking ha
    obtain ⟨hr, hstate⟩ := Prod.mk.inj (Option.some.inj hx)
    have hperm := BlockingPool.jobs_spawn ⟨task, permit⟩ s.state.pool
    -- the permit moves to the job
    have hcount : (holders permitEvent s.trace).length =
        (holders permitEvent s'.trace).length + if permit then 1 else 0 := by
      rw [htr]
      cases permit with
      | true =>
        rw [ledger_permit] at hp
        exact (holders_returned rfl hp).length_eq
      | false => exact congrArg List.length (holders_none rfl).symm
    have hjobs : jobPermits s'.state.pool.jobs =
        jobPermits s.state.pool.jobs + if permit then 1 else 0 := by
      rw [← hstate]
      exact (jobPermits_perm hperm).trans (List.countP_cons ..)
    refine ⟨?_, ?_, fun q hq => ?_, ?_, hserved⟩
    · rw [← hstate]
      exact hs.pool.spawn _
    · rw [hjobs, ← hstate]
      show s.state.compileSlots + _ + _ = _
      omega
    · rw [← hstate] at hq
      rcases List.mem_cons.1 (hperm.mem_iff.1 hq) with rfl | hq
      · exact hc
      · exact hs.carries q hq
    · rw [← hstate]
      refine known_step (fun u handle j hj => (hs.known u handle j hj).spawn _) (fun handle j hj => ?_)
        htr
      subst hr
      cases hj
      exact BlockingPool.knows_spawn _ _
  | _ =>
    obtain ⟨hpool, hslots⟩ := hostExec_pool hx rfl rfl
    refine ⟨hpool ▸ hs.pool, ?_, hpool ▸ hs.carries,
      hpool ▸ known_step hs.known (fun _ _ h => by cases h) htr, hserved⟩
    rw [hpool, hslots, htr, holders_none rfl]
    exact htotal

theorem permitInv_env {pend : τ → Option (HostCall W)} {e : HostEvent W τ}
    (hs : PermitInv cfg threads s) (hx : hostEnv threads pend s.state e = some s'.state)
    (htr : s'.trace = s.trace) : PermitInv cfg threads s' := by
  have htotal := hs.total
  cases e with
  | start =>
    obtain ⟨pool, hstart, hstate⟩ := Option.map_eq_some_iff.1 hx
    have hperm := (BlockingPool.start_spec hstart).1
    rw [← jobPermits_perm hperm] at htotal
    refine ⟨hstate ▸ hs.pool.start hstart, ?_, fun q hq => ?_, fun u handle j hj => ?_, ?_⟩
    · rw [htr, ← hstate]
      exact htotal
    · rw [← hstate] at hq
      exact hs.carries q (hperm.mem_iff.1 hq)
    · rw [htr] at hj
      rw [← hstate]
      exact (hs.known u handle j hj).start hstart
    · rw [htr]
      exact hs.served
  | finish i result =>
    obtain ⟨⟨j, pool⟩, hfinish, hstate⟩ := Option.map_eq_some_iff.1 hx
    obtain ⟨handle, hperm, -⟩ := BlockingPool.finish_spec hfinish
    have hjobs : jobPermits s.state.pool.jobs = jobPermits pool.jobs + if j.permit then 1 else 0 :=
      (jobPermits_perm hperm).trans (List.countP_cons ..)
    refine ⟨hstate ▸ hs.pool.finish hfinish, ?_, fun q hq => ?_, fun u handle j hj => ?_, ?_⟩
    · rw [htr, ← hstate]
      show (if j.permit then s.state.compileSlots + 1 else s.state.compileSlots) +
        jobPermits pool.jobs + _ = _
      cases hp : j.permit with
      | true =>
        rw [hp, if_pos rfl] at hjobs
        rw [if_pos rfl]
        omega
      | false =>
        rw [hp] at hjobs
        rw [if_neg Bool.false_ne_true] at hjobs ⊢
        omega
    · rw [← hstate] at hq
      exact hs.carries q (hperm.mem_iff.2 (.tail _ hq))
    · rw [htr] at hj
      rw [← hstate]
      exact (hs.known u handle j hj).finish hs.pool hfinish
    · rw [htr]
      exact hs.served
  | tick t =>
    have hsame : s'.state.pool = s.state.pool ∧ s'.state.compileSlots = s.state.compileSlots := by
      simp only [hostEnv] at hx
      split at hx
      · have hstate := Option.some.inj hx
        rw [← hstate]
        exact ⟨rfl, rfl⟩
      · cases hx
    obtain ⟨hpool, hslots⟩ := hsame
    refine ⟨hpool ▸ hs.pool, ?_, hpool ▸ hs.carries, ?_, ?_⟩
    · rw [hpool, hslots, htr]
      exact htotal
    · rw [htr, hpool]
      exact hs.known
    · rw [htr]
      exact hs.served

end

theorem permitInv_reach (hb : build W τ cfg = .ok s₀)
    (hr : Reach (hostSystem W cfg threads).traced (hostStart cfg meter ops s₀) C) :
    PermitInv cfg threads C.shared := by
  obtain ⟨-, -, -, rfl⟩ := build_eq_ok hb
  refine host_keeps hr ⟨BlockingPool.wellFormed_new threads, rfl, fun q hq => ?_, fun t handle j hj => ?_,
      fun t ht => ?_⟩ (fun t c r s s' ch hs ha hx htr => permitInv_step hs ha hx htr)
    fun pend s s' e hs _ hx htr => permitInv_env hs hx htr
  · cases hq
  · cases hj
  · cases ht

/-! ## Every run -/

/-- Somebody can go on: a call, without being dropped, or the pool. -/
inductive CanStep (cfg : RuntimeConfig) (threads : Nat) (C : HostConfig W τ) : Prop
  | call (t : τ) (c : HostCall W) (r : HostRes c) (s' : Host W τ) (ch : HostChoice)
      (hc : C.pending t = some c) (hd : ¬ ch.dropped)
      (hx : hostExec cfg t ch C.shared.state c = some (r, s'))
  | start (s' : Host W τ) (hx : hostEnv threads C.pending C.shared.state .start = some s')
  | finish (i : Nat) (result : (j : Job) → j.Out W) (s' : Host W τ)
      (hx : hostEnv threads C.pending C.shared.state (.finish i result) = some s')

/-- The compile permits over a run: somebody can always go on, and at most `compile_concurrency` jobs
compile at once. -/
structure PermitsExact (cfg : RuntimeConfig) (threads : Nat) (ops : τ → HostOp)
    (C : HostConfig W τ) : Prop where
  progress : (∃ t c, C.pending t = some c) ∨ C.shared.state.pool.jobs ≠ [] → CanStep cfg threads C
  bounded : compileJobs C.shared.state.pool.jobs ≤ cfg.compileConcurrency.toNat
  /-- A call that found its component in memory or on disk neither waits for a permit nor has. -/
  served : ∀ t, ((C.shared.trace.of t).any fun q => servedEvent q.1 q.2) = true →
    C.pending t ≠ some .acquirePermit ∧ ∀ r, ⟨.acquirePermit, r⟩ ∉ C.shared.trace.of t
  idle : (∀ t, ¬ InProgress C t) → C.shared.state.pool.jobs = [] →
    C.shared.state.compileSlots = cfg.compileConcurrency.toNat

omit [DecidableEq τ] in
/-- Only waiting for a permit or for a job can be in vain. -/
theorem hostExec_enabled (cfg : RuntimeConfig) (t : τ) (s : Host W τ) (c : HostCall W)
    (hp : c ≠ .acquirePermit) (hj : ∀ handle task, c ≠ .join handle task) :
    ∃ r s', hostExec cfg t HostChoice.go s c = some (r, s') := by
  cases c with
  | acquirePermit => exact absurd rfl hp
  | join handle task => exact absurd rfl (hj handle task)
  | tryAcquireMany n =>
    simp only [hostExec]
    split
    · exact ⟨_, _, rfl⟩
    · exact ⟨_, _, rfl⟩
  | _ => exact ⟨_, _, rfl⟩

theorem served_eq_any (h : HostCalls W) :
    (callLedger h).served = h.any fun q => servedEvent q.1 q.2 := by
  induction h with
  | nil => rfl
  | cons q h ih => rw [List.any_cons, ← ih]; rfl

/-- Nobody waits in vain: not for a job, which ends, and not for a permit, which comes back. -/
theorem canStep_of_pending (hb : build W τ cfg = .ok s₀)
    (hr : Reach (hostSystem W cfg threads).traced (hostStart cfg meter ops s₀) C)
    (hjobs : C.shared.state.pool.jobs = []) {c : HostCall W} (hc : C.pending t = some c) :
    CanStep cfg threads C := by
  have hinv := permitInv_reach hb hr
  by_cases hp : c = .acquirePermit
  · subst hp
    by_cases hpos : 0 < C.shared.state.compileSlots
    · exact .call t .acquirePermit (some ()) _ HostChoice.go hc Bool.false_ne_true (if_pos hpos)
    · -- every permit is with a call that is about to spawn its job
      have htotal := hinv.total
      have hK : cfg.compileConcurrency.toNat ≠ 0 := fun h0 =>
        (build_eq_ok hb).2.1 (UInt64.toNat_inj.1 h0)
      rw [hjobs] at htotal
      have hlen : 0 < (holders permitEvent C.shared.trace).length := by
        have hnone : jobPermits [] = 0 := rfl
        omega
      obtain ⟨u, hu⟩ := List.exists_mem_of_length_pos hlen
      rw [mem_holders, ← ledger_permit] at hu
      have hprogress : InProgress C u := by
        by_contra hn
        exact (holds_nothing hr hn).2.2 hu
      obtain ⟨c, hc⟩ : ∃ c, C.pending u = some c := by
        cases hprog : C.prog u with
        | ret out => exact absurd hprog (hprogress.2 out)
        | call c k => exact ⟨c, by rw [Config.pending, hprog, Prog.pending_call]⟩
      obtain ⟨task, permit, rfl⟩ := allows_holding (host_allows hr hc) hu
      obtain ⟨r, s', hx⟩ := hostExec_enabled cfg u C.shared.state
        (.spawnBlocking task permit) (fun h => by cases h) fun _ _ h => by cases h
      exact .call u _ r s' _ hc Bool.false_ne_true hx
  · by_cases hj : ∃ handle task, c = .join handle task
    · obtain ⟨handle, task, rfl⟩ := hj
      obtain ⟨permit, hjob⟩ := (allows_join (host_allows hr hc)).1
      obtain hm | ⟨r, hdone⟩ := hinv.known t handle _ hjob
      · rw [hjobs] at hm
        cases hm
      · refine .call t (.join handle task) (some r) C.shared.state HostChoice.go hc
          Bool.false_ne_true ?_
        simp only [hostExec, HostChoice.go, Bool.false_eq_true, if_false, hdone]
        exact dif_pos trivial
    · obtain ⟨r, s', hx⟩ := hostExec_enabled cfg t C.shared.state c hp
        fun handle task h => hj ⟨handle, task, h⟩
      exact .call t c r s' _ hc Bool.false_ne_true hx

theorem compile_permits (W : Wasm) (cfg : RuntimeConfig) (meter : Bool) (threads : Nat)
    (hthreads : 0 < threads) (ops : τ → HostOp) {s₀ : Host W τ} (hb : build W τ cfg = .ok s₀)
    {C : HostConfig W τ}
    (hr : Reach (hostSystem W cfg threads).traced (hostStart cfg meter ops s₀) C) :
    PermitsExact cfg threads ops C := by
  have hinv := permitInv_reach hb hr
  have htotal := hinv.total
  refine ⟨fun hbusy => ?_, ?_, fun t hserved => ?_, fun hidle hjobs => ?_⟩
  · by_cases hjobs : C.shared.state.pool.jobs = []
    · obtain ⟨t, c, hc⟩ := hbusy.resolve_right fun h => h hjobs
      exact canStep_of_pending hb hr hjobs hc
    · obtain ⟨pool, hstart⟩ | ⟨i, j, pool, hfinish⟩ :=
        BlockingPool.busy hthreads hjobs fun _ => .error ⟨""⟩
      · exact .start _ (Option.map_eq_some_iff.2 ⟨pool, hstart, rfl⟩)
      · exact .finish i _ _ (Option.map_eq_some_iff.2 ⟨_, hfinish, rfl⟩)
  · have hle : compileJobs C.shared.state.pool.jobs = jobPermits C.shared.state.pool.jobs :=
      List.countP_congr fun q hq => by rw [hinv.carries q hq]
    omega
  · rw [← served_eq_any] at hserved
    have hpermit := hinv.served t hserved
    refine ⟨fun hc => ?_, fun r hm => ?_⟩
    · rw [(allows_acquirePermit (host_allows hr hc)).2] at hserved
      cases hserved
    · obtain ⟨l₁, l₂, hsplit⟩ := List.append_of_mem hm
      have ho := host_orderly permit_follows hr t
      rw [ledger_permit, hsplit] at hpermit
      rw [hsplit] at ho
      have hasked := ho.unasked hpermit
      cases r <;> cases hasked
  · have hnil : holders permitEvent C.shared.trace = [] := holders_eq_nil fun t => by
      rw [← ledger_permit]
      exact (holds_nothing hr (hidle t)).2.2
    rw [hnil, hjobs] at htotal
    exact htotal

end

/-- A module is staged while another call invokes a function. -/
def stageAndInvoke : Bool → HostOp
  | false => .stage []
  | true => .invoke ['t'] ['f'] [] ⟨100, 1536 * 1024, []⟩

/-- The job of the `stage` takes the permit and one of two threads; the `invoke` looks its component up
in the other one, finds it, and runs to its end. -/
def servedRun : List ((Bool × HostChoice) ⊕ HostEvent Wasm.plain Bool) :=
  [.inl (false, .go), .inl (false, .go), .inr .start, .inl (true, .go), .inl (true, .go),
    .inl (true, .go), .inr .start, .inr (.finish 0 hitResult)] ++ List.replicate 7 (.inl (true, .go))

/-- The permit is with a job that runs, and the `invoke` has succeeded. -/
def servedBeside (C : HostConfig Wasm.plain Bool) : Bool :=
  C.shared.state.compileSlots == 0 && C.shared.state.pool.running.length == 1 &&
    match C.prog true with
    | .ret (.invoked (.ok _)) => true
    | _ => false

theorem compile_permits_one : ∃ C : HostConfig Wasm.plain Bool, servedBeside C = true ∧
    PermitsExact (smallRuntime 1) 2 stageAndInvoke C := by
  have hrun : (hostPlay (smallRuntime 1) 2 (hostStart (smallRuntime 1) true stageAndInvoke smallHost)
      servedRun).any servedBeside = true := by
    decide +kernel
  rw [Option.any_eq_true] at hrun
  obtain ⟨C, hplay, hC⟩ := hrun
  exact ⟨C, hC, compile_permits Wasm.plain (smallRuntime 1) true 2 Nat.two_pos stageAndInvoke
    (show build _ _ _ = .ok smallHost from rfl) (hostPlay_reach hplay)⟩

end Warpline
