import Warpline.Control.Gate
import Warpline.Control.Proof.AdminKeys
import Warpline.Pg.Proof.AuthStale

/-!
# The service works for issued keys only

`GateInv`: every lookup that found a row found it for a key that had been issued to the row's
tenant, with limits that tenant has had; and every call of the service has been made for a request
that such a key admits (`Admits`). It holds for any service behind any handlers whose calls of it,
once authorized, are within what the request may do (`sat_behind`).
-/

set_option autoImplicit false

namespace Warpline

open Conc

/-! ## Requests and keys -/

/-- A request at the gate: for whom, with which token, and the calls it may make under the limits of
its tenant. -/
structure Visit (ι : Type) where
  tenant : Str
  bearer : Option Str
  may : Limits → ι → Prop

/-- A key with the hash has been issued to the tenant, which has had these limits. -/
structure Entitled (digest : Bytes → Str) (s : AdminApi) (keyHash tenant : Str) (limits : Limits) :
    Prop where
  issued : s.IssuedTo digest keyHash tenant
  had : ∃ db ∈ s.past, db.tenantLimits tenant = some limits
  valid : validateLimits limits = .ok ()

/-- The service may be called so for the request. -/
def Admits {ι : Type} (digest : Bytes → Str) (v : Visit ι) (c : ι) (s : AdminApi) : Prop :=
  ∃ token limits, v.bearer = some token ∧
    Entitled digest s (digest (Bytes.ofStr token)) v.tenant limits ∧ v.may limits c

/-- What has been done by the admin API only grows. -/
structure AdminLater (s s' : AdminApi) : Prop where
  issued : s.issued ⊆ s'.issued
  past : s.past ⊆ s'.past

theorem AdminLater.refl (s : AdminApi) : AdminLater s s := ⟨List.Subset.refl _, List.Subset.refl _⟩

section
variable {τ σ ι κ ε α : Type} {ρ : ι → Type} {L : AuthCrate} {S : Service τ σ ρ κ ε}
  {parseHost : Str → Option Str} {digest : Bytes → Str}
  {fromSlice : List UInt8 → Except Str AdminConfigBody} {admin : AdminState} {reqs : τ → Visit ι}

theorem adminLater_serve (s : AdminApi) (call : AdminEvent × AdminChoice) :
    AdminLater s (s.serve parseHost digest fromSlice admin call) :=
  ⟨List.subset_append_right _ _, List.subset_cons_self _ _⟩

theorem Entitled.mono {s s' : AdminApi} {keyHash tenant : Str} {limits : Limits}
    (h : Entitled digest s keyHash tenant limits) (hl : AdminLater s s') :
    Entitled digest s' keyHash tenant limits := by
  obtain ⟨⟨q, hq, hk⟩, ⟨db, hdb, hd⟩, hv⟩ := h
  exact ⟨⟨q, hl.issued hq, hk⟩, ⟨db, hl.past hdb, hd⟩, hv⟩

theorem Admits.mono {s s' : AdminApi} {v : Visit ι} {c : ι} (h : Admits digest v c s)
    (hl : AdminLater s s') : Admits digest v c s' := by
  obtain ⟨token, limits, ht, he, hc⟩ := h
  exact ⟨token, limits, ht, he.mono hl, hc⟩

/-- A row that is found is that of a tenant with the key. -/
theorem KeyInv.entitled {s : AdminApi} (h : KeyInv digest fromSlice admin s) {keyHash : Str}
    {row : AuthRow} (hsel : s.db.authDb.select keyHash = some row) :
    Entitled digest s keyHash row.tenant row.limits := by
  obtain ⟨hnone, -⟩ | ⟨row', hsome, hissued, hl⟩ := select_issued h keyHash
  · rw [hnone] at hsel
    cases hsel
  · rw [hsome] at hsel
    cases hsel
    exact ⟨(hissued _).2 rfl, ⟨s.db, h.current, hl⟩, valid_limits h hl⟩

/-! ## The invariant -/

variable (digest fromSlice admin reqs) in
/-- What holds at the gate after every step: rows that have been found and calls of the service go
back to stored keys. -/
structure GateInv (s : GateState τ σ ρ L) : Prop where
  told : Told s.state.auth
  keys : KeyInv digest fromSlice admin s.state.admin
  tables : s.state.auth.db = s.state.admin.db.authDb
  looked : ∀ u now keyHash row, ⟨u, now, .lookup keyHash, .ok (some row)⟩ ∈ s.state.auth.log →
    Entitled digest s.state.admin keyHash row.tenant row.limits
  admitted : ∀ t c r, (t, ⟨.inr c, r⟩) ∈ s.trace → Admits digest (reqs t) c s.state.admin

theorem gateInv_new (back : σ) :
    GateInv digest fromSlice admin reqs (⟨.new L back, []⟩ : GateState τ σ ρ L) := by
  refine ⟨Told.new _ _, keyInv_new, rfl, fun _ _ _ _ hm => ?_, fun _ _ _ hm => ?_⟩
  · cases hm
  · cases hm

variable {s s' : GateState τ σ ρ L} {t : τ}

/-- A step of the authenticator. -/
theorem GateInv.auth (h : GateInv digest fromSlice admin reqs s) {c : AuthCall} {r : AuthRes c}
    {fails : Option SqlxError} (he : authExec fails t s.state.auth c = (r, s'.state.auth))
    (ht : Told s'.state.auth) (ha : s'.state.admin = s.state.admin)
    (htr : s'.trace = (t, ⟨.inl c, r⟩) :: s.trace) : GateInv digest fromSlice admin reqs s' := by
  have hauth : s'.state.auth = (authExec fails t s.state.auth c).2 := by rw [he]
  have hres : (authExec fails t s.state.auth c).1 = r := congrArg Prod.fst he
  have hlog : s'.state.auth.log = ⟨t, s.state.auth.clock, c, r⟩ :: s.state.auth.log := by
    rw [hauth, ← hres]
    rfl
  refine ⟨ht, ha ▸ h.keys, ?_, fun u now keyHash row hm => ?_, fun u c' r' hm => ?_⟩
  · rw [hauth, ha]
    exact h.tables
  · rw [ha]
    rw [hlog] at hm
    obtain heq | hm := List.mem_cons.1 hm
    · cases heq
      refine h.keys.entitled ?_
      rw [← h.tables]
      cases fails with
      | some e => cases hres
      | none => exact Except.ok.inj hres
    · exact h.looked _ _ _ _ hm
  · rw [ha]
    rw [htr] at hm
    obtain heq | hm := List.mem_cons.1 hm
    · cases heq
    · exact h.admitted _ _ _ hm

/-- A step of the service. -/
theorem GateInv.back (h : GateInv digest fromSlice admin reqs s) {c : ι} {r : ρ c}
    (hc : Admits digest (reqs t) c s.state.admin) (hauth : s'.state.auth = s.state.auth)
    (ha : s'.state.admin = s.state.admin) (htr : s'.trace = (t, ⟨.inr c, r⟩) :: s.trace) :
    GateInv digest fromSlice admin reqs s' := by
  refine ⟨hauth ▸ h.told, ha ▸ h.keys, by rw [hauth, ha]; exact h.tables, fun u now k row hm => ?_,
    fun u c' r' hm => ?_⟩
  · rw [ha]
    rw [hauth] at hm
    exact h.looked _ _ _ _ hm
  · rw [ha]
    rw [htr] at hm
    obtain heq | hm := List.mem_cons.1 hm
    · cases heq
      exact hc
    · exact h.admitted _ _ _ hm

/-- What happens beside the calls. -/
theorem GateInv.env (h : GateInv digest fromSlice admin reqs s) {pend : τ → Option (GateCall ι)}
    {e : GateEvent ε}
    (he : gateEnv S parseHost digest fromSlice admin pend s.state e = some s'.state)
    (htr : s'.trace = s.trace) : GateInv digest fromSlice admin reqs s' ∧
      Later s.state.auth s'.state.auth ∧ AdminLater s.state.admin s'.state.admin := by
  cases e with
  | time passed =>
    have hs := (Option.some.inj he).symm
    have hl : Later s.state.auth s'.state.auth := by
      rw [hs]
      exact ⟨Nat.le_add_right _ _, List.Subset.refl _⟩
    refine ⟨⟨h.told.keeps hl fun e he => .inl ?_, ?_, ?_, ?_, ?_⟩, hl, ?_⟩
    · rw [hs] at he
      exact he
    · rw [hs]
      exact h.keys
    · rw [hs]
      exact h.tables
    · rw [hs]
      exact h.looked
    · rw [htr, hs]
      exact h.admitted
    · rw [hs]
      exact .refl _
  | back e =>
    obtain ⟨back, -, hs⟩ := Option.map_eq_some_iff.1 he
    refine ⟨⟨?_, ?_, ?_, ?_, ?_⟩, ?_, ?_⟩
    · exact hs ▸ h.told
    · exact hs ▸ h.keys
    · exact hs ▸ h.tables
    · exact hs ▸ h.looked
    · rw [htr]
      exact hs ▸ h.admitted
    · rw [← hs]
      exact ⟨Nat.le_refl _, List.Subset.refl _⟩
    · rw [← hs]
      exact .refl _
  | admin e ch =>
    have hs := (Option.some.inj he).symm
    have hl : Later s.state.auth s'.state.auth := by
      rw [hs]
      exact ⟨Nat.le_refl _, List.Subset.refl _⟩
    have hadmin : s'.state.admin =
        s.state.admin.serve parseHost digest fromSlice admin (e, ch) := by rw [hs]
    have hlater : AdminLater s.state.admin s'.state.admin := hadmin ▸ adminLater_serve _ _
    refine ⟨⟨h.told.keeps hl fun e he => .inl ?_, hadmin ▸ h.keys.serve _, by rw [hs],
      fun u now k row hm => ?_, fun t c r hm => ?_⟩, hl, hlater⟩
    · rw [hs] at he
      exact he
    · rw [hs] at hm
      exact (h.looked _ _ _ _ hm).mono hlater
    · rw [htr] at hm
      exact (h.admitted _ _ _ hm).mono hlater

theorem gateExec_inl {ch : GateChoice κ} {g g' : Gate τ σ L} {c : AuthCall} {r : AuthRes c}
    (h : gateExec S ch t g (.inl c) = some (r, g')) :
    authExec ch.fails t g.auth c = (r, g'.auth) ∧ g'.admin = g.admin := by
  cases h
  exact ⟨rfl, rfl⟩

theorem gateExec_inr {ch : GateChoice κ} {g g' : Gate τ σ L} {c : ι} {r : ρ c}
    (h : gateExec S ch t g (.inr c) = some (r, g')) :
    S.exec ch.back t g.back c = some (r, g'.back) ∧ g'.auth = g.auth ∧ g'.admin = g.admin := by
  obtain ⟨q, hq, heq⟩ := Option.map_eq_some_iff.1 h
  cases heq
  exact ⟨hq, rfl, rfl⟩

/-! ## One request -/

variable [DecidableEq τ]

/-- The request has not reached the service. -/
def AuthOnly (t : τ) (s : GateState τ σ ρ L) : Prop :=
  ∀ c r, (⟨.inr c, r⟩ : (c : GateCall ι) × GateRes ρ c) ∉ s.trace.of t

variable (digest fromSlice admin reqs) in
/-- What a request sees others do. -/
structure GateRely (t : τ) (s s' : GateState τ σ ρ L) : Prop where
  inv : GateInv digest fromSlice admin reqs s'
  auth : Later s.state.auth s'.state.auth
  admin : AdminLater s.state.admin s'.state.admin
  own : s'.trace.of t = s.trace.of t

variable (S digest fromSlice admin reqs) in
def gateThread (t : τ) : Thread (GateState τ σ ρ L) (GateCall ι) (GateRes ρ) where
  exec := fun s c r s' => GateInv digest fromSlice admin reqs s ∧
    (∃ ch, gateExec S ch t s.state c = some (r, s'.state)) ∧ s'.trace = (t, ⟨c, r⟩) :: s.trace
  rely := fun _ => GateRely digest fromSlice admin reqs t
  guar := fun _ s s' => GateInv digest fromSlice admin reqs s' ∧
    ∀ u, u ≠ t → GateRely digest fromSlice admin reqs u s s'

theorem guar_inl {c : AuthCall} {r : AuthRes c}
    (hx : (gateThread S digest fromSlice admin reqs t).exec s (.inl c) r s')
    (ht : Told s'.state.auth) : (gateThread S digest fromSlice admin reqs t).guar (.inl c) s s' := by
  obtain ⟨hinv, ⟨ch, he⟩, htr⟩ := hx
  obtain ⟨hauth, ha⟩ := gateExec_inl he
  have hinv' := hinv.auth hauth ht ha htr
  refine ⟨hinv', fun u hu => ⟨hinv', ?_, ?_, ?_⟩⟩
  · have hl := later_exec ch.fails t s.state.auth c
    rwa [hauth] at hl
  · rw [ha]
    exact .refl _
  · rw [htr, Trace.of_cons_ne (Ne.symm hu)]

theorem guar_inr {c : ι} {r : ρ c}
    (hx : (gateThread S digest fromSlice admin reqs t).exec s (.inr c) r s')
    (hc : Admits digest (reqs t) c s.state.admin) :
    (gateThread S digest fromSlice admin reqs t).guar (.inr c) s s' := by
  obtain ⟨hinv, ⟨ch, he⟩, htr⟩ := hx
  obtain ⟨-, hauth, ha⟩ := gateExec_inr he
  have hinv' := hinv.back hc hauth ha htr
  refine ⟨hinv', fun u hu => ⟨hinv', ?_, ?_, ?_⟩⟩
  · rw [hauth]
    exact ⟨Nat.le_refl _, List.Subset.refl _⟩
  · rw [ha]
    exact .refl _
  · rw [htr, Trace.of_cons_ne (Ne.symm hu)]

theorem authOnly_stable {c : Option (GateCall ι)} :
    (gateThread (L := L) S digest fromSlice admin reqs t).Stable c (AuthOnly t) := by
  intro s s' h hr
  unfold AuthOnly
  rw [hr.own]
  exact h

theorem sat_authOutcome {ttl : Nat} {tenant token : Str}
    (hs : GateInv digest fromSlice admin reqs s) (ho : AuthOnly t s) :
    Sat (gateThread S digest fromSlice admin reqs t)
      (fun res s => Rests ttl t (digest (Bytes.ofStr token)) tenant res s.state.auth ∧
        GateInv digest fromSlice admin reqs s ∧ AuthOnly t s)
      (authOutcome digest (some ttl) tenant (some token)) s := by
  have hrests : Sat (gateThread S digest fromSlice admin reqs t)
      (fun res s => Rests ttl t (digest (Bytes.ofStr token)) tenant res s.state.auth)
      (authOutcome digest (some ttl) tenant (some token)) s := by
    refine Sat.inl_proj (fun s : GateState τ σ ρ L => s.state.auth) (T := staleThread L t)
      (sat_authenticate digest ttl tenant token) ?_ ?_ ?_
    · intro s c r s' hx
      obtain ⟨hinv, ⟨ch, he⟩, -⟩ := hx
      exact ⟨hinv.told, ch.fails, (gateExec_inl he).1⟩
    · exact fun _ _ _ hr => hr.auth
    · exact fun s c r s' hx hg => guar_inl hx hg.2
  refine Prog.Calls.limit (P := fun c => ∃ c', c = .inl c') (Prog.Calls.inl (fun c => ⟨c, rfl⟩) _) ?_
  refine Sat.under (fun s => GateInv digest fromSlice admin reqs s ∧ AuthOnly t s) hrests ⟨hs, ho⟩
    ?_ ?_ ?_ ?_
  · exact fun c s s' h hr => ⟨hr.inv, authOnly_stable (S := S) (c := c) s s' h.2 hr⟩
  · exact fun _ _ _ _ _ hx => hx.1
  · exact fun _ _ _ hr => hr
  · rintro s c r s' h ⟨⟨-, -, htr⟩, c', rfl⟩ hg
    refine ⟨hg, hg.1, fun c₁ r₁ hm => ?_⟩
    rw [htr, Trace.of_cons_self] at hm
    obtain heq | hm := List.mem_cons.1 hm
    · cases heq
    · exact h.2 c₁ r₁ hm

/-- The request is entitled to these limits by what the authenticator has looked up. -/
def Looked (digest : Bytes → Str) (tenant token : Str) (limits : Limits)
    (s : GateState τ σ ρ L) : Prop :=
  ∃ row u, row.tenant = tenant ∧ row.limits = limits ∧
    Asked s.state.auth.log u (digest (Bytes.ofStr token)) (some row)

omit [DecidableEq τ] in
theorem Looked.mono {tenant token : Str} {limits : Limits}
    (h : Looked digest tenant token limits s) (hl : Later s.state.auth s'.state.auth) :
    Looked digest tenant token limits s' := by
  obtain ⟨row, u, ht, hlim, ha⟩ := h
  exact ⟨row, u, ht, hlim, ha.mono hl.log⟩

omit [DecidableEq τ] in
theorem Looked.entitled {tenant token : Str} {limits : Limits}
    (h : Looked digest tenant token limits s) (hs : GateInv digest fromSlice admin reqs s) :
    Entitled digest s.state.admin (digest (Bytes.ofStr token)) tenant limits := by
  obtain ⟨row, u, htenant, rfl, now, hm⟩ := h
  exact htenant ▸ hs.looked _ _ _ _ hm

omit [DecidableEq τ] in
theorem looked_of_rests {ttl : Nat} {tenant token : Str} {limits : Limits}
    (h : Rests ttl t (digest (Bytes.ofStr token)) tenant (.ok (.authorized limits))
      s.state.auth) : Looked digest tenant token limits s := by
  obtain ⟨r, hout, hj⟩ := h _ rfl
  have hask : ∃ u, Asked s.state.auth.log u (digest (Bytes.ofStr token)) r := by
    obtain ha | ⟨-, since, now, ⟨-, -, u, -, ha⟩, -⟩ := hj
    · exact ⟨t, ha⟩
    · exact ⟨u, ha⟩
  obtain ⟨u, ha⟩ := hask
  cases r with
  | none => cases hout
  | some row =>
    rw [outcome_row] at hout
    split at hout
    · cases hout
    · rename_i htenant
      cases hout
      exact ⟨row, u, not_not.1 htenant, rfl, ha⟩

/-- What an authorized request does at the service, as long as it may. -/
theorem sat_behind {good : (c : ι) → ρ c → Prop} {p : Prog ι ρ α} {Q : α → Prop} {token : Str}
    {limits : Limits} (hgood : ∀ ch t b c r b', S.exec ch t b c = some (r, b') → good c r)
    (hp : Sat (Thread.judged good ((reqs t).may limits)) (fun a _ => Q a) p ())
    (ht : (reqs t).bearer = some token) (hl : Looked digest (reqs t).tenant token limits s) :
    Sat (gateThread S digest fromSlice admin reqs t) (fun a _ => Q a) (p.inr : GateM ρ α) s := by
  refine (Sat.of_inr (Sat.of_judged (T := (gateThread S digest fromSlice admin reqs t).inr)
    (K := Looked digest (reqs t).tenant token limits) ?_ ?_ ?_ hp hl)).mono fun _ _ h => h.1
  · exact fun c s s' h hr => h.mono hr.auth
  · rintro s c r s' ⟨-, ⟨ch, he⟩, -⟩
    exact hgood _ _ _ _ _ _ (gateExec_inr he).1
  · intro c s r s' hc hlook hx
    obtain ⟨ch, he⟩ := hx.2.1
    refine ⟨guar_inr hx ⟨token, limits, ht, hlook.entitled hx.1, hc⟩, hlook.mono ?_⟩
    rw [(gateExec_inr he).2.1]
    exact ⟨Nat.le_refl _, List.Subset.refl _⟩

/-! ## All requests -/

theorem gate_compatible : Compatible
    (gateSystem (L := L) S parseHost digest fromSlice admin).traced
    (gateThread S digest fromSlice admin reqs) (GateInv digest fromSlice admin reqs) where
  exec := fun _ _ _ _ _ _ _ hJ hx => ⟨hJ, hx⟩
  guar := fun _ _ u _ _ _ _ hne _ _ _ hg => hg.2 u (Ne.symm hne)
  env := by
    intro pend u s s' hJ he
    obtain ⟨⟨e, he⟩, htr⟩ := he
    obtain ⟨hinv, hauth, hadmin⟩ := hJ.env he htr
    exact ⟨hinv, hauth, hadmin, by rw [htr]⟩
  inv := fun _ _ _ _ _ hg => hg.1
  envInv := by
    intro pend s s' hJ he
    obtain ⟨⟨e, he⟩, htr⟩ := he
    exact (hJ.env he htr).1

end

end Warpline
