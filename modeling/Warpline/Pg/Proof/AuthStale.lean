import Warpline.Core.Wasm
import Warpline.Pg.Auth

/-!
# What an authentication rests on

`Justified`: the reply behind an outcome is this call's own lookup, or it was in the cache, put
there less than the TTL before this call read it, or less than the stale window before and this
call's lookup failed. Every entry of the cache is told by the history (`Told`): the call that put
it had looked it up.
-/

set_option autoImplicit false

namespace Warpline

open Conc

variable {τ : Type} {L : AuthCrate}

/-- Call `t` looked `keyHash` up and was answered `r`. -/
def Asked (log : List (AuthEvent τ)) (t : τ) (keyHash : Str) (r : Option AuthRow) : Prop :=
  ∃ now, ⟨t, now, .lookup keyHash, .ok r⟩ ∈ log

/-- At `since` a call put the reply `r` it had been given into the cache. -/
def Put (log : List (AuthEvent τ)) (keyHash : Str) (r : Option AuthRow) (since : Nat) : Prop :=
  ∃ u, ⟨u, since, .cachePut keyHash (Cached.ofRow r), ()⟩ ∈ log ∧ Asked log u keyHash r

/-- At `now` call `t` found the reply `r`, put there at `since`. -/
def Hit (log : List (AuthEvent τ)) (t : τ) (keyHash : Str) (r : Option AuthRow)
    (since now : Nat) : Prop :=
  ⟨t, now, .cacheGet keyHash, some (since, Cached.ofRow r)⟩ ∈ log ∧ since ≤ now ∧
    Put log keyHash r since

/-- The reply `r` an outcome of call `t` may rest on (module doc). -/
def Justified (ttl : Nat) (log : List (AuthEvent τ)) (t : τ) (keyHash : Str)
    (r : Option AuthRow) : Prop :=
  Asked log t keyHash r ∨
    ttl ≠ 0 ∧ ∃ since now, Hit log t keyHash r since now ∧
      (now - since < ttl ∨ now - since < max (ttl * 10) MIN_STALE_WINDOW ∧
        ∃ e at_, ⟨t, at_, .lookup keyHash, .error e⟩ ∈ log)

section
variable {log log' : List (AuthEvent τ)} {t : τ} {keyHash : Str} {r : Option AuthRow}

theorem Asked.mono (h : Asked log t keyHash r) (hs : log ⊆ log') : Asked log' t keyHash r :=
  h.imp fun _ hm => hs hm

theorem Put.mono {since : Nat} (h : Put log keyHash r since) (hs : log ⊆ log') :
    Put log' keyHash r since :=
  h.imp fun _ hm => ⟨hs hm.1, hm.2.mono hs⟩

theorem Hit.mono {since now : Nat} (h : Hit log t keyHash r since now) (hs : log ⊆ log') :
    Hit log' t keyHash r since now :=
  ⟨hs h.1, h.2.1, h.2.2.mono hs⟩

theorem Justified.mono {ttl : Nat} (h : Justified ttl log t keyHash r) (hs : log ⊆ log') :
    Justified ttl log' t keyHash r := by
  obtain h | ⟨hz, since, now, hh, hw⟩ := h
  · exact .inl (h.mono hs)
  · refine .inr ⟨hz, since, now, hh.mono hs, hw.imp_right fun ⟨hn, e, at_, hm⟩ => ?_⟩
    exact ⟨hn, e, at_, hs hm⟩

end

/-! ## The cache is told by the history -/

/-- Every entry of the cache is what a `put` has stored of a reply. -/
def Told (s : AuthState τ L) : Prop :=
  ∀ keyHash since cached, (keyHash, since, cached) ∈ L.entries s.cache →
    since ≤ s.clock ∧ ∃ r, cached = Cached.ofRow r ∧ Put s.log keyHash r since

/-- Time has gone on and the history grown. -/
structure Later (s s' : AuthState τ L) : Prop where
  clock : s.clock ≤ s'.clock
  log : s.log ⊆ s'.log

theorem Told.new (clock : Nat) (db : AuthDb) : Told (AuthState.new L clock db : AuthState τ L) := by
  intro keyHash since cached h
  simp [AuthState.new] at h

theorem Told.keeps {s s' : AuthState τ L} (h : Told s) (hl : Later s s')
    (he : ∀ e ∈ L.entries s'.cache, e ∈ L.entries s.cache ∨
      e.2.1 ≤ s'.clock ∧ ∃ r, e.2.2 = Cached.ofRow r ∧ Put s'.log e.1 r e.2.1) : Told s' := by
  intro keyHash since cached hm
  obtain hm | hm := he _ hm
  · obtain ⟨hc, r, hr, hp⟩ := h keyHash since cached hm
    exact ⟨Nat.le_trans hc hl.clock, r, hr, hp.mono hl.log⟩
  · exact hm

variable {t : τ} {s : AuthState τ L} {c : AuthCall}

theorem later_exec (fails : Option SqlxError) (t : τ) (s : AuthState τ L) (c : AuthCall) :
    Later s (authExec fails t s c).2 :=
  ⟨Nat.le_refl _, List.subset_cons_of_subset _ (List.Subset.refl _)⟩

/-- A `put` keeps the cache told if its caller was given what it puts; so does any other step. -/
theorem Told.exec (fails : Option SqlxError) (h : Told s)
    (hp : ∀ keyHash cached, c = .cachePut keyHash cached →
      ∃ r, cached = Cached.ofRow r ∧ Asked s.log t keyHash r) : Told (authExec fails t s c).2 := by
  refine h.keeps (later_exec fails t s c) fun e he => ?_
  cases c with
  | cacheGet keyHash =>
    simp only [authExec, authReply, LruCrate.entries_get] at he
    exact .inl (Lru.mem_promote he)
  | elapsed since => exact .inl he
  | lookup keyHash => exact .inl he
  | cachePut keyHash cached =>
    simp only [authExec, authReply, LruCrate.entries_put] at he
    obtain rfl | he := Lru.mem_put he
    · obtain ⟨r, rfl, ha⟩ := hp keyHash cached rfl
      refine .inr ⟨Nat.le_refl _, r, rfl, t, List.mem_cons_self, ?_⟩
      exact ha.mono (later_exec fails t s _).log
    · exact .inl he.1

/-! ## One call -/

/-- The setting of call `t`. -/
def staleThread (L : AuthCrate) (t : τ) : Thread (AuthState τ L) AuthCall AuthRes where
  exec := fun s c r s' => Told s ∧ ∃ fails, authExec fails t s c = (r, s')
  rely := fun _ => Later
  guar := fun _ s s' => Later s s' ∧ Told s'

theorem stable_log {c : Option AuthCall} {P : List (AuthEvent τ) → Prop}
    (hP : ∀ log log', P log → log ⊆ log' → P log') :
    (staleThread L t).Stable c fun s => P s.log :=
  fun _ _ h hr => hP _ _ h hr.log

/-- One step that is no `put`. -/
theorem sat_call {α : Type} {Q : α → AuthState τ L → Prop} {k : AuthRes c → AuthM α}
    {P : AuthState τ L → Prop} (hst : (staleThread L t).Stable (some c) P) (hs : P s)
    (hc : ∀ keyHash cached, c ≠ .cachePut keyHash cached)
    (h : ∀ fails s₁, P s₁ → Told s₁ →
      Sat (staleThread L t) Q (k (authExec fails t s₁ c).1) (authExec fails t s₁ c).2) :
    Sat (staleThread L t) Q (.call c k) s := by
  refine Sat.call P hst hs fun s₁ r s₂ hs₁ ⟨ht, fails, he⟩ => ?_
  have hk := h fails s₁ hs₁ ht
  have hl := later_exec fails t s₁ c
  have hT : Told (authExec fails t s₁ c).2 := ht.exec fails fun keyHash cached hp => absurd hp (hc _ _)
  rw [he] at hk hl hT
  exact ⟨⟨hl, hT⟩, hk⟩

/-- The outcome rests on a reply it may rest on. -/
def Rests (ttl : Nat) (t : τ) (keyHash tenant : Str) (res : Except AuthError AuthOutcome)
    (s : AuthState τ L) : Prop :=
  ∀ o, res = .ok o → ∃ r, o = outcome (Cached.ofRow r) tenant ∧ Justified ttl s.log t keyHash r

/-- The entry a failing lookup may fall back on. -/
def FallBack (ttl : Nat) (log : List (AuthEvent τ)) (t : τ) (keyHash : Str) (cached : Cached) : Prop :=
  ttl ≠ 0 ∧ ∃ r since now, cached = Cached.ofRow r ∧ Hit log t keyHash r since now ∧
    now - since < max (ttl * 10) MIN_STALE_WINDOW

theorem FallBack.mono {ttl : Nat} {log log' : List (AuthEvent τ)} {keyHash : Str} {cached : Cached}
    (h : FallBack ttl log t keyHash cached) (hs : log ⊆ log') : FallBack ttl log' t keyHash cached := by
  obtain ⟨hz, r, since, now, hr, hh, hw⟩ := h
  exact ⟨hz, r, since, now, hr, hh.mono hs, hw⟩

theorem sat_fetch (ttl : Nat) (keyHash tenant : Str) (stale : Option Cached)
    (hs : ∀ cached, stale = some cached → FallBack ttl s.log t keyHash cached) :
    Sat (staleThread L t) (Rests ttl t keyHash tenant)
      (Authenticator.fetch ttl keyHash tenant stale) s := by
  refine sat_call
    (stable_log (P := fun log => ∀ cached, stale = some cached → FallBack ttl log t keyHash cached)
      fun log log' h hl cached hc => (h cached hc).mono hl) hs
    (fun _ _ h => by cases h) fun fails s₁ hs₁ ht => ?_
  cases fails with
  | some e =>
    have hfail : ⟨t, s₁.clock, .lookup keyHash, .error e⟩ ∈
        (authExec (some e) t s₁ (.lookup keyHash)).2.log := List.mem_cons_self
    have hl := (later_exec (some e) t s₁ (.lookup keyHash)).log
    cases stale with
    | none => exact fun o ho => by cases ho
    | some cached =>
      obtain ⟨hz, r, since, now, rfl, hh, hw⟩ := hs₁ cached rfl
      intro o ho
      cases ho
      exact ⟨r, rfl, .inr ⟨hz, since, now, hh.mono hl, .inr ⟨hw, e, _, hfail⟩⟩⟩
  | none =>
    have hask : Asked (authExec none t s₁ (.lookup keyHash)).2.log t keyHash (s₁.db.select keyHash) :=
      ⟨s₁.clock, List.mem_cons_self⟩
    by_cases hz : ttl = 0
    · simp only [authExec, authReply, hz, ne_eq, not_true_eq_false, if_false]
      intro o ho
      cases ho
      exact ⟨_, rfl, .inl hask⟩
    · simp only [authExec, authReply, ne_eq, hz, not_false_eq_true, if_true]
      refine Sat.call _ (stable_log fun log log' h hl => Asked.mono h hl) hask
        fun s₂ r s₃ hs₂ ⟨ht₂, fails, he⟩ => ?_
      have hl := later_exec fails t s₂ (.cachePut keyHash (Cached.ofRow (s₁.db.select keyHash)))
      have hT := ht₂.exec fails (t := t)
        (c := .cachePut keyHash (Cached.ofRow (s₁.db.select keyHash)))
        fun k cached hc => by cases hc; exact ⟨_, rfl, hs₂⟩
      rw [he] at hl hT
      refine ⟨⟨hl, hT⟩, fun o ho => ?_⟩
      cases ho
      exact ⟨_, rfl, .inl (hs₂.mono hl.log)⟩

theorem sat_authenticate (digest : Bytes → Str) (ttl : Nat) (tenant token : Str) :
    Sat (staleThread L t) (Rests ttl t (digest (Bytes.ofStr token)) tenant)
      (Authenticator.authenticate digest ttl tenant (some token)) s := by
  set keyHash := digest (Bytes.ofStr token) with hk
  have hnone : ∀ s : AuthState τ L, Sat (staleThread L t) (Rests ttl t keyHash tenant)
      (Authenticator.fetch ttl keyHash tenant none) s :=
    fun s => sat_fetch ttl keyHash tenant none fun _ h => by cases h
  unfold Authenticator.authenticate
  simp only [← hk]
  split
  · exact hnone s
  rename_i hz
  refine sat_call (P := fun _ => True) (fun _ _ _ _ => trivial) trivial (fun _ _ h => by cases h)
    fun fails s₁ _ ht => ?_
  have hget : (authExec fails t s₁ (.cacheGet keyHash)).1 = Lru.find keyHash (L.entries s₁.cache) :=
    LruCrate.get_fst _ _ _
  have hlog : (authExec fails t s₁ (.cacheGet keyHash)).2.log =
      ⟨t, s₁.clock, .cacheGet keyHash, (authExec fails t s₁ (.cacheGet keyHash)).1⟩ :: s₁.log := rfl
  have hclock : (authExec fails t s₁ (.cacheGet keyHash)).2.clock = s₁.clock := rfl
  generalize authExec fails t s₁ (.cacheGet keyHash) = q at hget hlog hclock ⊢
  obtain ⟨hit, s₂⟩ := q
  simp only at hget hlog hclock ⊢
  cases hit with
  | none => exact hnone s₂
  | some e =>
    obtain ⟨since, cached⟩ := e
    -- the entry is told: when it was put, and what its caller had been given
    obtain ⟨hle, r, rfl, hput⟩ := ht keyHash since cached (Lru.find_mem hget.symm)
    have hhit : Hit s₂.log t keyHash r since s₁.clock := by
      rw [hlog]
      exact ⟨List.mem_cons_self, hle, hput.mono (List.subset_cons_of_subset _ (List.Subset.refl _))⟩
    let P : AuthState τ L → Prop :=
      fun s => s₁.clock ≤ s.clock ∧ Hit s.log t keyHash r since s₁.clock
    have hP : ∀ c, (staleThread L t).Stable c P :=
      fun c s s' h hl => ⟨Nat.le_trans h.1 hl.clock, h.2.mono hl.log⟩
    have hP₂ : P s₂ := ⟨Nat.le_of_eq hclock.symm, hhit⟩
    refine sat_call (hP _) hP₂ (fun _ _ h => by cases h) fun fails s₃ hP₃ _ => ?_
    have hP₃' := hP none _ _ hP₃ (later_exec fails t s₃ (.elapsed since))
    by_cases hfresh : s₃.clock - since < ttl
    · simp only [authExec, authReply, Prog.bind, hfresh, if_true]
      intro o ho
      cases ho
      refine ⟨r, rfl, .inr ⟨hz, since, s₁.clock, hP₃'.2, .inl ?_⟩⟩
      have := hP₃.1
      omega
    simp only [authExec, authReply, Prog.bind, hfresh, if_false]
    refine sat_call (hP _) hP₃' (fun _ _ h => by cases h) fun fails s₄ hP₄ _ => ?_
    have hP₄' := hP none _ _ hP₄ (later_exec fails t s₄ (.elapsed since))
    by_cases hstale : s₄.clock - since < max (ttl * 10) MIN_STALE_WINDOW
    · simp only [authExec, authReply, Prog.bind, hstale, if_true]
      refine sat_fetch ttl keyHash tenant _ fun cached hc => ?_
      cases hc
      refine ⟨hz, r, since, s₁.clock, rfl, hP₄'.2, ?_⟩
      have := hP₄.1
      omega
    · simp only [authExec, authReply, Prog.bind, hstale, if_false]
      exact hnone _

/-! ## All calls -/

theorem stale_compatible (L : AuthCrate) [DecidableEq τ] :
    Compatible (authSystem τ L) (staleThread L) Told where
  exec := fun _ _ _ _ _ _ _ hJ hx => ⟨hJ, hx⟩
  guar := fun _ _ _ _ _ _ _ _ _ _ _ hg => hg.1
  env := fun _ _ _ _ _ hd => ⟨hd.clock, by rw [hd.log]; exact List.Subset.refl _⟩
  inv := fun _ _ _ _ _ hg => hg.2
  envInv := fun _ _ _ hJ hd => hJ.keeps
    ⟨hd.clock, by rw [hd.log]; exact List.Subset.refl _⟩ fun e he => .inl (by rwa [hd.cache] at he)

/-- Whatever happens to the tables, the clock and the other calls: an outcome with a token is that
of a reply to this call's own lookup; or with a TTL, of a reply put into the cache less than the
TTL before the call read it, or, this call's lookup having failed, less than the stale window
before. -/
theorem bounded_staleness [DecidableEq τ] (digest : Bytes → Str) (ttl : Nat)
    (calls : τ → Str × Option Str) (clock : Nat) (db : AuthDb)
    {C : AuthConfig τ L}
    (hr : Reach (authSystem τ L) (authCalls digest ttl calls (AuthState.new L clock db)) C)
    {t : τ} {token : Str} (ht : (calls t).2 = some token) {o : AuthOutcome}
    (ho : C.prog t = .ret (.ok o)) :
    ∃ r, o = outcome (Cached.ofRow r) (calls t).1 ∧
      Justified ttl C.shared.log t (digest (Bytes.ofStr token)) r ∧
      (ttl = 0 → Asked C.shared.log t (digest (Bytes.ofStr token)) r) ∧
      ∀ limits, o = .authorized limits →
        ∃ row, r = some row ∧ row.tenant = (calls t).1 ∧ row.limits = limits := by
  have hQ := Reach.post (Q := fun t res s => ∀ token, (calls t).2 = some token →
      Rests ttl t (digest (Bytes.ofStr token)) (calls t).1 res s) (stale_compatible L)
    (fun t res s s' h hl token ht o ho => ?_) (Told.new clock db) (fun t => ?_) hr ho token ht o rfl
  · obtain ⟨r, hout, hj⟩ := hQ
    refine ⟨r, hout, hj, fun hz => ?_, fun limits hl => ?_⟩
    · obtain h | ⟨hne, -⟩ := hj
      · exact h
      · exact absurd hz hne
    · subst hl
      cases r with
      | none => cases hout
      | some row =>
        simp only [Cached.ofRow, outcome] at hout
        split at hout
        · cases hout
        · rename_i htenant
          cases hout
          exact ⟨row, rfl, by simpa using htenant, rfl⟩
  · exact (h token ht o ho).imp fun r hr => ⟨hr.1, hr.2.mono hl.log⟩
  · cases hb : (calls t).2 with
    | none =>
      simp only [authCalls, hb]
      exact fun token h => by cases h
    | some token =>
      simp only [authCalls, hb]
      refine (sat_authenticate digest ttl _ token).mono fun res s hres token' h => ?_
      cases h
      exact hres

/-- One key, of the tenant `a`. -/
def oneKey : AuthDb where
  apiKeys := fun keyHash => if keyHash = plainDigest (.ofStr ['k']) then some 0 else none
  tenants := fun _ => some ⟨['a'], [], 100, 67108864⟩
  fk := fun _ _ _ => rfl

/-- The first call looks the key up, the second finds it in the cache. -/
theorem bounded_staleness_hit : ∃ C limits,
    Reach (authSystem Bool (.list _ _)) (authCalls plainDigest 5 (fun _ => (['a'], some ['k']))
      (AuthState.new _ 0 oneKey)) C ∧ C.prog true = .ret (.ok (.authorized limits)) ∧
      ∃ r, AuthOutcome.authorized limits = outcome (Cached.ofRow r) ['a'] ∧
        Justified 5 C.shared.log true (plainDigest (.ofStr ['k'])) r := by
  obtain ⟨C, limits, hC, ho⟩ : ∃ C limits, (authCalls plainDigest 5 (fun _ => (['a'], some ['k']))
      (AuthState.new (.list _ _) 0 oneKey)).play authStep
        [(false, none), (false, none), (false, none), (true, none), (true, none)] = some C ∧
      C.prog true = .ret (.ok (.authorized limits)) := ⟨_, _, rfl, rfl⟩
  have hr := play_reach authStep_sound hC
  obtain ⟨r, hout, hj, -⟩ := bounded_staleness plainDigest 5 _ 0 oneKey hr rfl ho
  exact ⟨C, limits, hr, ho, r, hout, hj⟩

end Warpline
