import Warpline.Pg.Proof.AuthStale

/-!
# A revocation once seen

A call that found no row stores that the key is unknown before it returns (`Answered`), so a
later call finds this in the cache, or nothing, and looks the key up itself. What can undo it is a
slower call: it looked the key up before the row was deleted and stores its positive reply, with
a new time stamp, after the negative one (`LateStore`). Where no call does, the revocation stays
seen.
-/

set_option autoImplicit false

namespace Warpline

open Conc

variable {τ : Type} {L : AuthCrate}

/-! ## The property -/

/-- Among the steps `new`, `u` looked the key up, found no row and stored this at `since`. -/
def StoredUnknown (new : List (AuthEvent τ)) (keyHash : Str) (u : τ) (since : Nat) : Prop :=
  ∃ l₁ l₂, new = l₁ ++ ⟨u, since, .cachePut keyHash .unknown, ()⟩ :: l₂ ∧ Asked l₂ u keyHash none

/-- What `t` knows of the key it knows of a lookup among the steps `new`: its own, or one whose
reply it found in the cache. -/
def OnBasis (new : List (AuthEvent τ)) (keyHash : Str) (t : τ) : Prop :=
  Asked new t keyHash none ∨
    ∃ u since now, ⟨t, now, .cacheGet keyHash, some (since, .unknown)⟩ ∈ new ∧
      StoredUnknown new keyHash u since

/-- Since the history was `base`, it has been stored that the key is unknown, on the basis of a
lookup since then. -/
def Revoked (base : List (AuthEvent τ)) (keyHash : Str) (s : AuthState τ L) : Prop :=
  ∃ new u since, s.log = new ++ base ∧ StoredUnknown new keyHash u since

/-- The calls while the key's row stays deleted; each meets `A`. -/
def deletedSystem (keyHash : Str) (A : AuthState τ L → AuthCall → Prop) :
    System τ (AuthState τ L) AuthCall AuthRes where
  exec := fun pend t s c r s' => (authSystem τ L).exec pend t s c r s' ∧ A s c
  env := fun _ s s' =>
    s.Drift s' ∧ (s.db.apiKeys keyHash = none → s'.db.apiKeys keyHash = none)

/-- Calls `C₀` run until the row of `keyHash` is gone (`C₁`), and it stays so. Call `t` returns
that the key is unknown, on the basis of a lookup since then (`C₂`). Then no call that had not
started is authorized with the key. -/
def RevocationStaysSeen (τ : Type) [DecidableEq τ] (L : AuthCrate)
    (A : List (AuthEvent τ) → Str → AuthState τ L → AuthCall → Prop) : Prop :=
  ∀ (digest : Bytes → Str) (ttl : Nat) (calls : τ → Str × Option Str) (clock : Nat) (db : AuthDb)
    (t t' : τ) (token token' : Str) (new : List (AuthEvent τ))
    (C₁ C₂ C₃ : AuthConfig τ L),
    let C₀ := authCalls digest ttl calls (AuthState.new L clock db)
    let keyHash := digest (Bytes.ofStr token)
    let S := deletedSystem keyHash (A C₁.shared.log keyHash)
    ttl ≠ 0 → (calls t).2 = some token → (calls t').2 = some token' →
    digest (Bytes.ofStr token') = keyHash →
    Reach (authSystem τ L) C₀ C₁ → C₁.shared.db.apiKeys keyHash = none → Reach S C₁ C₂ →
    C₂.prog t = .ret (.ok .missingOrUnknownKey) → C₂.shared.log = new ++ C₁.shared.log →
    OnBasis new keyHash t → C₂.prog t' = C₀.prog t' → Reach S C₂ C₃ →
    ∀ limits, C₃.prog t' ≠ .ret (.ok (.authorized limits))

/-- A positive reply is stored after the negative one. -/
def LateStore (base : List (AuthEvent τ)) (keyHash : Str) (s : AuthState τ L) (c : AuthCall) :
    Prop :=
  Revoked base keyHash s ∧ ∃ tenant limits, c = .cachePut keyHash (.found tenant limits)

/-! ## What is found is stored -/

/-- Every lookup of `t` that found no row was followed by its `put`. -/
def Answered (t : τ) (keyHash : Str) (log : List (AuthEvent τ)) : Prop :=
  ∀ a b now, log = a ++ ⟨t, now, .lookup keyHash, .ok none⟩ :: b →
    ∃ since, ⟨t, since, .cachePut keyHash .unknown, ()⟩ ∈ a

variable {t : τ} {keyHash : Str}

theorem Answered.cons {log : List (AuthEvent τ)} {e : AuthEvent τ} (h : Answered t keyHash log)
    (he : ∀ now, e ≠ ⟨t, now, .lookup keyHash, .ok none⟩) : Answered t keyHash (e :: log) := by
  intro a b now hs
  cases a with
  | nil => exact absurd (List.cons.inj hs).1 (he now)
  | cons x a =>
    obtain ⟨since, hm⟩ := h a b now (List.cons.inj hs).2
    exact ⟨since, List.mem_cons_of_mem _ hm⟩

theorem answered_put (since : Nat) (log : List (AuthEvent τ)) :
    Answered t keyHash (⟨t, since, .cachePut keyHash .unknown, ()⟩ :: log) := by
  intro a b now hs
  cases a with
  | nil =>
    have := (List.cons.inj hs).1
    cases this
  | cons x a =>
    obtain ⟨rfl, -⟩ := List.cons.inj hs
    exact ⟨since, List.mem_cons_self⟩

/-- The others' steps. -/
def OthersLog (t : τ) (s s' : AuthState τ L) : Prop :=
  ∃ more, s'.log = more ++ s.log ∧ ∀ e ∈ more, e.caller ≠ t

theorem Answered.others {s s' : AuthState τ L} (h : Answered t keyHash s.log)
    (ho : OthersLog t s s') : Answered t keyHash s'.log := by
  obtain ⟨more, hl, hm⟩ := ho
  rw [hl]
  clear hl
  induction more with
  | nil => exact h
  | cons e more ih =>
    refine (ih fun x hx => hm x (List.mem_cons_of_mem _ hx)).cons fun now he => ?_
    exact hm e List.mem_cons_self (by rw [he])

/-- The setting of a call that is watched for its own steps. -/
def watchThread (L : AuthCrate) (t : τ) : Thread (AuthState τ L) AuthCall AuthRes where
  exec := fun s c r s' => ∃ fails, authExec fails t s c = (r, s')
  rely := fun _ => OthersLog t
  guar := fun _ _ _ => True

theorem stable_answered (c : Option AuthCall) :
    (watchThread L t).Stable c fun s => Answered t keyHash s.log :=
  fun _ _ h ho => h.others ho

/-- A call that returns that the key is unknown has stored every negative reply it was given. -/
def Settled (t : τ) (keyHash : Str) (res : Except AuthError AuthOutcome) (s : AuthState τ L) : Prop :=
  res = .ok .missingOrUnknownKey → Answered t keyHash s.log

theorem stable_settled (res : Except AuthError AuthOutcome) :
    (watchThread L t).Stable none (Settled t keyHash res) :=
  fun _ _ h ho hres => (h hres).others ho

theorem settled_fetch (ttl : Nat) (hz : ttl ≠ 0) (tenant : Str) (stale : Option Cached)
    {s : AuthState τ L} (hs : Answered t keyHash s.log) :
    Sat (watchThread L t) (Settled t keyHash) (Authenticator.fetch ttl keyHash tenant stale) s := by
  refine Sat.call _ (stable_answered _) hs fun s₁ r s₂ hs₁ hx => ⟨trivial, ?_⟩
  obtain ⟨fails, he⟩ := hx
  cases he
  cases fails with
  | some e =>
    have h₂ := hs₁.cons (e := ⟨t, s₁.clock, .lookup keyHash, .error e⟩) fun now he => by cases he
    cases stale with
    | none => exact fun _ => h₂
    | some cached => exact fun _ => h₂
  | none =>
    simp only [authReply, ne_eq, hz, not_false_eq_true, if_true]
    cases hr : s₁.db.select keyHash with
    | none =>
      refine Sat.call (fun _ => True) (fun _ _ _ _ => trivial) trivial
        fun s₃ r s₄ _ hx => ⟨trivial, fun _ => ?_⟩
      obtain ⟨fails, he⟩ := hx
      cases he
      exact answered_put s₃.clock s₃.log
    | some row =>
      have h₂ := hs₁.cons (e := ⟨t, s₁.clock, .lookup keyHash, .ok (some row)⟩)
        fun now he => by cases he
      refine Sat.call _ (stable_answered _) h₂ fun s₃ r s₄ hs₃ hx => ⟨trivial, fun _ => ?_⟩
      obtain ⟨fails, he⟩ := hx
      cases he
      exact hs₃.cons fun now he => by cases he

theorem settled_authenticate {digest : Bytes → Str} {token : Str}
    (hk : digest (Bytes.ofStr token) = keyHash) (ttl : Nat) (hz : ttl ≠ 0) (tenant : Str)
    {s : AuthState τ L} (hs : Answered t keyHash s.log) :
    Sat (watchThread L t) (Settled t keyHash)
      (Authenticator.authenticate digest ttl tenant (some token)) s := by
  unfold Authenticator.authenticate
  simp only [hz, hk, if_false]
  refine Sat.call _ (stable_answered _) hs fun s₁ r s₂ hs₁ hx => ⟨trivial, ?_⟩
  have h₂ : Answered t keyHash s₂.log := by
    obtain ⟨fails, he⟩ := hx
    cases he
    exact hs₁.cons fun now he => by cases he
  cases r with
  | none => exact settled_fetch ttl hz tenant none h₂
  | some q =>
    refine Sat.call _ (stable_answered _) h₂ fun s₃ r s₄ hs₃ hx => ⟨trivial, ?_⟩
    have h₄ : Answered t keyHash s₄.log := by
      obtain ⟨fails, he⟩ := hx
      cases he
      exact hs₃.cons fun now he => by cases he
    show Sat _ _ (if r < ttl then _ else _) s₄
    split
    · exact fun _ => h₄
    refine Sat.call _ (stable_answered _) h₄ fun s₅ r s₆ hs₅ hx => ⟨trivial, ?_⟩
    have h₆ : Answered t keyHash s₆.log := by
      obtain ⟨fails, he⟩ := hx
      cases he
      exact hs₅.cons fun now he => by cases he
    show Sat _ _ (if r < max (ttl * 10) MIN_STALE_WINDOW then _ else _) s₆
    split
    · exact settled_fetch ttl hz tenant _ h₆
    · exact settled_fetch ttl hz tenant none h₆

/-- What is stored of a negative reply that was given since `base` is stored since `base`. -/
theorem storedUnknown_of_settled {base new : List (AuthEvent τ)}
    (h : Answered t keyHash (new ++ base)) (ha : Asked new t keyHash none) :
    ∃ since, StoredUnknown new keyHash t since := by
  obtain ⟨now, hm⟩ := ha
  obtain ⟨a, b, rfl⟩ := List.append_of_mem hm
  obtain ⟨since, hp⟩ := h a (b ++ base) now (by simp)
  obtain ⟨l₁, l₂, rfl⟩ := List.append_of_mem hp
  exact ⟨since, l₁, l₂ ++ ⟨t, now, .lookup keyHash, .ok none⟩ :: b, by simp, now, by simp⟩

/-! ## What the cache says of the key -/

/-- Once the revocation has been stored, the cache does not say otherwise. -/
structure Gone (base : List (AuthEvent τ)) (keyHash : Str) (s : AuthState τ L) : Prop where
  db : s.db.apiKeys keyHash = none
  log : ∃ new, s.log = new ++ base
  cache : Revoked base keyHash s → ∀ since cached,
    (keyHash, since, cached) ∈ L.entries s.cache → cached = .unknown

theorem Gone.drift {base : List (AuthEvent τ)} {s s' : AuthState τ L} (h : Gone base keyHash s)
    (hd : s.Drift s') (hdb : s'.db.apiKeys keyHash = none) : Gone base keyHash s' := by
  refine ⟨hdb, by rw [hd.log]; exact h.log, fun hr => ?_⟩
  rw [hd.cache]
  refine h.cache ?_
  unfold Revoked at *
  rwa [hd.log] at hr

/-- What one more step makes of it that the revocation is stored. -/
theorem revoked_exec {base : List (AuthEvent τ)} {u : τ} {fails : Option SqlxError}
    {s : AuthState τ L} {c : AuthCall} (hlog : ∃ new, s.log = new ++ base)
    (h : Revoked base keyHash (authExec fails u s c).2) :
    Revoked base keyHash s ∨ c = .cachePut keyHash .unknown := by
  obtain ⟨new', v, since, hnew', l₁, l₂, rfl, ha⟩ := h
  obtain ⟨new, hnew⟩ := hlog
  cases l₁ with
  | nil =>
    simp only [authExec, List.nil_append, List.cons_append, List.cons.injEq,
      AuthEvent.mk.injEq] at hnew'
    exact .inr hnew'.1.2.2.1
  | cons x l₁ =>
    have htail : s.log = (l₁ ++ ⟨v, since, .cachePut keyHash .unknown, ()⟩ :: l₂) ++ base := by
      simp only [authExec, List.cons_append, List.cons.injEq] at hnew'
      exact hnew'.2
    exact .inl ⟨_, v, since, htail, l₁, l₂, rfl, ha⟩

theorem Gone.exec {base : List (AuthEvent τ)} {s : AuthState τ L} {c : AuthCall} (u : τ)
    (fails : Option SqlxError) (h : Gone base keyHash s)
    (hA : ¬ LateStore base keyHash s c) : Gone base keyHash (authExec fails u s c).2 := by
  obtain ⟨new, hnew⟩ := h.log
  refine ⟨h.db, ⟨⟨u, s.clock, c, (authExec fails u s c).1⟩ :: new, ?_⟩, fun hr since cached hm => ?_⟩
  · simp only [authExec, hnew, List.cons_append]
  obtain hr₁ | rfl := revoked_exec h.log hr
  · have hold := h.cache hr₁ since cached
    cases c with
    | cacheGet k =>
      simp only [authExec, authReply, LruCrate.entries_get] at hm
      exact hold (Lru.mem_promote hm)
    | elapsed at_ => exact hold hm
    | lookup k => exact hold hm
    | cachePut k v =>
      simp only [authExec, authReply, LruCrate.entries_put] at hm
      obtain he | ⟨hm, -⟩ := Lru.mem_put hm
      · cases he
        cases cached with
        | unknown => rfl
        | found tenant limits => exact absurd ⟨hr₁, tenant, limits, rfl⟩ hA
      · exact hold hm
  · simp only [authExec, authReply, LruCrate.entries_put] at hm
    obtain he | ⟨-, hne⟩ := Lru.mem_put hm
    · cases he
      rfl
    · exact absurd rfl hne

theorem Revoked.exec {base : List (AuthEvent τ)} {s : AuthState τ L} (u : τ)
    (fails : Option SqlxError) (c : AuthCall) (h : Revoked base keyHash s) :
    Revoked base keyHash (authExec fails u s c).2 := by
  obtain ⟨new, v, since, hnew, l₁, l₂, rfl, ha⟩ := h
  refine ⟨_, v, since, ?_, ⟨u, s.clock, c, (authExec fails u s c).1⟩ :: l₁, l₂, rfl, ha⟩
  simp only [authExec, hnew, List.cons_append]

theorem Revoked.drift {base : List (AuthEvent τ)} {s s' : AuthState τ L}
    (h : Revoked base keyHash s) (hd : s.Drift s') : Revoked base keyHash s' := by
  unfold Revoked at *
  rwa [hd.log]

/-! ## A later call -/

/-- The setting of a call that starts after the revocation has been stored. -/
def laterThread (L : AuthCrate) (base : List (AuthEvent τ)) (keyHash : Str) (t : τ) :
    Thread (AuthState τ L) AuthCall AuthRes where
  exec := fun s c r s' =>
    (Gone base keyHash s ∧ Revoked base keyHash s) ∧ ∃ fails, authExec fails t s c = (r, s')
  rely := fun _ _ _ => True
  guar := fun _ _ _ => True

/-- The key is not let through. -/
def Refused (res : Except AuthError AuthOutcome) : Prop :=
  ∀ limits, res ≠ .ok (.authorized limits)

theorem stable_true {T : Thread (AuthState τ L) AuthCall AuthRes} {c : Option AuthCall} :
    T.Stable c fun _ => True := fun _ _ _ _ => trivial

theorem refused_fetch {base : List (AuthEvent τ)} (ttl : Nat) (tenant : Str) (stale : Option Cached)
    (hs : ∀ cached, stale = some cached → cached = .unknown) {s : AuthState τ L} :
    Sat (laterThread L base keyHash t) (fun res _ => Refused res)
      (Authenticator.fetch ttl keyHash tenant stale) s := by
  refine Sat.call _ stable_true trivial fun s₁ r s₂ _ hx => ⟨trivial, ?_⟩
  obtain ⟨hg, fails, he⟩ := hx
  cases he
  cases fails with
  | some e =>
    cases stale with
    | none => exact fun limits h => by cases h
    | some cached =>
      rw [hs cached rfl]
      exact fun limits h => by cases h
  | none =>
    have hsel : s₁.db.select keyHash = none := by simp [AuthDb.select, hg.1.db]
    simp only [authReply, hsel, Prog.bind]
    split
    · refine Sat.call _ stable_true trivial fun s₃ r s₄ _ _ => ⟨trivial, fun limits h => ?_⟩
      cases h
    · exact fun limits h => by cases h

theorem refused_authenticate {base : List (AuthEvent τ)} {digest : Bytes → Str} {token : Str}
    (hk : digest (Bytes.ofStr token) = keyHash) (ttl : Nat) (tenant : Str) {s : AuthState τ L} :
    Sat (laterThread L base keyHash t) (fun res _ => Refused res)
      (Authenticator.authenticate digest ttl tenant (some token)) s := by
  have hnone : ∀ s : AuthState τ L, Sat (laterThread L base keyHash t) (fun res _ => Refused res)
      (Authenticator.fetch ttl keyHash tenant none) s :=
    fun s => refused_fetch ttl tenant none fun _ h => by cases h
  unfold Authenticator.authenticate
  simp only [hk]
  split
  · exact hnone s
  refine Sat.call _ stable_true trivial fun s₁ r s₂ _ hx => ⟨trivial, ?_⟩
  obtain ⟨hg, fails, he⟩ := hx
  have hr : r = Lru.find keyHash (L.entries s₁.cache) :=
    (congrArg Prod.fst he).symm.trans (LruCrate.get_fst _ _ _)
  cases r with
  | none => exact hnone s₂
  | some q =>
    obtain ⟨since, cached⟩ := q
    have hunk : cached = .unknown := hg.1.cache hg.2 since cached (Lru.find_mem hr.symm)
    subst hunk
    refine Sat.call _ stable_true trivial fun s₃ r s₄ _ _ => ⟨trivial, ?_⟩
    show Sat _ _ (if r < ttl then _ else _) s₄
    split
    · exact fun limits h => by cases h
    refine Sat.call _ stable_true trivial fun s₅ r s₆ _ _ => ⟨trivial, ?_⟩
    show Sat _ _ (if r < max (ttl * 10) MIN_STALE_WINDOW then _ else _) s₆
    split
    · exact refused_fetch ttl tenant _ fun cached h => (Option.some.inj h).symm
    · exact hnone s₆

/-! ## Runs -/

variable [DecidableEq τ] {C C' : AuthConfig τ L}

theorem Answered.run {digest : Bytes → Str} {ttl : Nat} {calls : τ → Str × Option Str}
    {clock : Nat} {db : AuthDb} {token : Str} (hz : ttl ≠ 0) (ht : (calls t).2 = some token)
    (hr : Reach (authSystem τ L) (authCalls digest ttl calls (AuthState.new L clock db)) C)
    (hret : C.prog t = .ret (.ok .missingOrUnknownKey)) :
    Answered t (digest (Bytes.ofStr token)) C.shared.log := by
  have h := hr.follow (J := fun _ => True) (T := watchThread L t)
    (Q := Settled t (digest (Bytes.ofStr token)))
    (fun _ _ _ _ _ _ _ _ => trivial) (fun _ _ _ _ _ => trivial) trivial
    (fun _ _ _ _ _ _ hx => hx) (fun pend u s c r s' hu _ hx => ?_)
    (fun _ _ _ _ hd => ⟨[], by simp [hd.log], by simp⟩) stable_settled ?_
  · rw [hret] at h
    exact h rfl
  · obtain ⟨fails, he⟩ := hx
    refine ⟨[⟨u, s.clock, c, r⟩], ?_, by simpa using hu⟩
    cases he
    rfl
  · show Sat _ _ (Authenticator.authenticate digest ttl (calls t).1 (calls t).2) _
    rw [ht]
    exact settled_authenticate rfl ttl hz _ fun a b now h => by
      simp [authCalls, AuthState.new] at h

/-- The calls after the deletion that store nothing late. -/
abbrev promptSystem (base : List (AuthEvent τ)) (keyHash : Str) :
    System τ (AuthState τ L) AuthCall AuthRes :=
  deletedSystem keyHash fun s c => ¬ LateStore base keyHash s c

variable {base : List (AuthEvent τ)}

theorem Gone.run (hr : Reach (promptSystem base keyHash) C C') (h : Gone base keyHash C.shared) :
    Gone base keyHash C'.shared := by
  refine hr.keeps (fun pend u s c r s' h hx => ?_) (fun _ _ _ h hd => h.drift hd.1 (hd.2 h.db)) h
  obtain ⟨⟨fails, he⟩, hA⟩ := hx
  have hg := h.exec u fails hA
  rwa [he] at hg

/-- What a call returns that starts after the revocation has been stored. -/
theorem Gone.refuses {digest : Bytes → Str} {ttl : Nat} {tenant token : Str}
    (hk : digest (Bytes.ofStr token) = keyHash) (hr : Reach (promptSystem base keyHash) C C')
    (hg : Gone base keyHash C.shared) (hv : Revoked base keyHash C.shared)
    (ht : C.prog t = Authenticator.authenticate digest ttl tenant (some token))
    {res : Except AuthError AuthOutcome} (hret : C'.prog t = .ret res) : Refused res := by
  have h := hr.follow (J := fun s => Gone base keyHash s ∧ Revoked base keyHash s)
    (T := laterThread L base keyHash t)
    (Q := fun (res : Except AuthError AuthOutcome) _ => Refused res) (fun pend u s c r s' h hx => ?_)
    (fun _ _ _ h hd => ⟨h.1.drift hd.1 (hd.2 h.1.db), h.2.drift hd.1⟩) ⟨hg, hv⟩
    (fun _ _ _ _ _ h hx => ⟨h, hx.1⟩) (fun _ _ _ _ _ _ _ _ _ => trivial)
    (fun _ _ _ _ _ => trivial) (fun _ _ _ h _ => h) ?_
  · rw [hret] at h
    exact h
  · obtain ⟨⟨fails, he⟩, hA⟩ := hx
    have hg := h.1.exec u fails hA
    have hv := h.2.exec u fails c
    rw [he] at hg hv
    exact ⟨hg, hv⟩
  · rw [ht]
    exact refused_authenticate hk ttl tenant

omit [DecidableEq τ] in
theorem not_revoked_now (s : AuthState τ L) : ¬ Revoked s.log keyHash s := by
  intro h
  obtain ⟨new, u, since, hl, l₁, l₂, rfl, -⟩ := h
  have := congrArg List.length hl
  simp only [List.length_append, List.length_cons] at this
  omega

/-! ## The revocation stays seen -/

/-- Where no positive reply is stored after the negative one, the revocation stays seen. -/
theorem revocation_stays_seen_of_prompt (τ : Type) [DecidableEq τ] (L : AuthCrate) :
    RevocationStaysSeen τ L fun base keyHash s c => ¬ LateStore base keyHash s c := by
  intro digest ttl calls clock db t t' token token' new C₁ C₂ C₃ C₀ keyHash S hz ht ht' hk hr₁ hdel
    hr₂ hret hnew hbasis hfresh hr₃ limits hlim
  have hr : Reach (authSystem τ L) C₀ C₂ :=
    hr₁.trans (hr₂.mono (fun _ _ _ _ _ _ hx => hx.1) fun _ _ _ hx => hx.1)
  have hrev : Revoked C₁.shared.log keyHash C₂.shared := by
    obtain ha | ⟨u, since, now, -, hs⟩ := hbasis
    · have hans := Answered.run hz ht hr hret
      rw [hnew] at hans
      obtain ⟨since, hs⟩ := storedUnknown_of_settled hans ha
      exact ⟨new, t, since, hnew, hs⟩
    · exact ⟨new, u, since, hnew, hs⟩
  have hgone : Gone C₁.shared.log keyHash C₂.shared :=
    Gone.run hr₂ ⟨hdel, ⟨[], rfl⟩, fun h => absurd h (not_revoked_now _)⟩
  have hprog : C₂.prog t' = Authenticator.authenticate digest ttl (calls t').1 (some token') := by
    rw [hfresh, ← ht']
    rfl
  exact hgone.refuses hk hr₃ hrev hprog hlim limits rfl

/-! ## A late store -/

/-- The row of every key is gone. -/
def AuthDb.deleted (db : AuthDb) : AuthDb where
  apiKeys := fun _ => none
  tenants := db.tenants
  fk := fun _ _ h => (by cases h)

def AuthState.delete (s : AuthState τ L) : AuthState τ L := { s with db := s.db.deleted }

omit [DecidableEq τ] in
theorem AuthState.drift_delete (s : AuthState τ L) : s.Drift s.delete := ⟨Nat.le_refl _, rfl, rfl⟩

/-- Three calls with one key. -/
def threeCalls : AuthConfig (Fin 3) (.list _ _) :=
  authCalls plainDigest 5 (fun _ => (['a'], some ['k'])) (AuthState.new _ 0 oneKey)

def AuthConfig.delete (C : AuthConfig τ L) : AuthConfig τ L := ⟨C.shared.delete, C.prog⟩

theorem AuthConfig.reach_delete (C : AuthConfig τ L) : Reach (authSystem τ L) C C.delete :=
  .single (.env C.shared.drift_delete)

/-- The steps of one call, no lookup failing. -/
def stepsOf (t : Fin 3) (n : Nat) : List (Fin 3 × Option SqlxError) := List.replicate n (t, none)

theorem play_deleted {sched : List (τ × Option SqlxError)} (h : C.play authStep sched = some C') :
    Reach (deletedSystem keyHash fun _ _ => True) C C' := by
  refine play_reach (fun x pend t s c r s' hx => ?_) h
  exact ⟨authStep_sound x pend t s c r s' hx, trivial⟩

/-- The first call looks the key up and is slow; the row is deleted; the second call finds no row,
stores this and returns it; the first call stores its row; the third call finds that. -/
theorem revocation_unseen_after_late_store :
    ¬ RevocationStaysSeen (Fin 3) (.list _ _) fun _ _ _ _ => True := by
  intro h
  obtain ⟨C₀, C₂, C₃, new, limits, h₀, h₂, h₃, hret, hnew, hask, hfresh, hlim⟩ :
      ∃ C₀ C₂ C₃ new limits, threeCalls.play authStep (stepsOf 0 2) = some C₀ ∧
        (AuthConfig.delete C₀).play authStep (stepsOf 1 3) = some C₂ ∧
        C₂.play authStep (stepsOf 0 1 ++ stepsOf 2 2) = some C₃ ∧
        C₂.prog 1 = .ret (.ok .missingOrUnknownKey) ∧
        C₂.shared.log = new ++ (AuthConfig.delete C₀).shared.log ∧
        Asked new 1 (plainDigest (.ofStr ['k'])) none ∧ C₂.prog 2 = threeCalls.prog 2 ∧
        C₃.prog 2 = .ret (.ok (.authorized limits)) :=
    ⟨_, _, _, [_, _, _], _, rfl, rfl, rfl, rfl, rfl, ⟨0, .tail _ (.head _)⟩, rfl, rfl⟩
  refine h plainDigest 5 (fun _ => (['a'], some ['k'])) 0 oneKey 1 2 ['k'] ['k'] new
    (AuthConfig.delete C₀) C₂ C₃ (by decide) rfl rfl rfl ?_ rfl ?_ hret hnew (.inl hask) hfresh ?_
    limits hlim
  · exact (play_reach authStep_sound h₀).trans (AuthConfig.reach_delete C₀)
  · exact play_deleted h₂
  · exact play_deleted h₃

/-- A step that stores no positive reply. -/
def promptStep (fails : Option SqlxError) (pend : τ → Option AuthCall) (me : τ) (s : AuthState τ L) :
    (c : AuthCall) → Option (AuthRes c × AuthState τ L)
  | .cachePut _ (.found _ _) => none
  | c => authStep fails pend me s c

theorem play_prompt {sched : List (τ × Option SqlxError)} (h : C.play promptStep sched = some C') :
    Reach (promptSystem base keyHash) C C' := by
  refine play_reach (fun x pend t s c r s' hx => ?_) h
  unfold promptStep at hx
  split at hx
  · cases hx
  · rename_i hc
    refine ⟨authStep_sound x pend t s _ r s' hx, fun hl => ?_⟩
    obtain ⟨-, tenant, limits, heq⟩ := hl
    exact hc _ _ _ heq

theorem revocation_stays_seen_of_prompt_three : ∃ C₃ : AuthConfig (Fin 3) (.list _ _),
    C₃.prog 2 = .ret (.ok .missingOrUnknownKey) ∧
      ∀ limits, C₃.prog 2 ≠ .ret (.ok (.authorized limits)) := by
  obtain ⟨C₀, C₂, C₃, new, h₀, h₂, h₃, hret, hnew, hask, hfresh, hlim⟩ :
      ∃ C₀ C₂ C₃ new, threeCalls.play authStep (stepsOf 0 2) = some C₀ ∧
        (AuthConfig.delete C₀).play promptStep (stepsOf 1 3) = some C₂ ∧
        C₂.play promptStep (stepsOf 2 2) = some C₃ ∧
        C₂.prog 1 = .ret (.ok .missingOrUnknownKey) ∧
        C₂.shared.log = new ++ (AuthConfig.delete C₀).shared.log ∧
        Asked new 1 (plainDigest (.ofStr ['k'])) none ∧ C₂.prog 2 = threeCalls.prog 2 ∧
        C₃.prog 2 = .ret (.ok .missingOrUnknownKey) :=
    ⟨_, _, _, [_, _, _], rfl, rfl, rfl, rfl, rfl, ⟨0, .tail _ (.head _)⟩, rfl, rfl⟩
  refine ⟨C₃, hlim, revocation_stays_seen_of_prompt (Fin 3) (.list _ _) plainDigest 5
    (fun _ => (['a'], some ['k'])) 0 oneKey 1 2 ['k'] ['k'] new (AuthConfig.delete C₀) C₂ C₃
    (by decide) rfl rfl rfl ?_ rfl (play_prompt h₂) hret hnew (.inl hask) hfresh (play_prompt h₃)⟩
  exact (play_reach authStep_sound h₀).trans (AuthConfig.reach_delete C₀)

end Warpline
