import Warpline.Control.Proof.Gate
import Warpline.Core.Proof.InvokeMetering
import Warpline.Host.Handler

/-!
# Guests run for issued keys only

The runtime behind its gate: an invocation runs its own guest under its own limits (`calls_invoke`),
and with valid names and limits its error is none about the request (`fine_invoke`).
-/

set_option autoImplicit false

namespace Warpline

open Conc

/-! ## An invocation -/

section
variable {W : Wasm} {cfg : RuntimeConfig} {meter : Bool} {tenant func : Str} {input : List UInt8}
  {limits : Limits}

/-- A guest is run for this invocation. -/
def RunsAs (tenant func : Str) (input : List UInt8) (limits : Limits) (c : HostCall W) : Prop :=
  ∀ pre t f i l, c = .run pre t f i l → t = tenant ∧ f = func ∧ i = input ∧ l = limits

theorem runsAs_run (pre : W.HandlerPre) :
    RunsAs tenant func input limits (.run pre tenant func input limits) := by
  rintro pre t f i l ⟨⟩
  exact ⟨rfl, rfl, rfl, rfl⟩

theorem calls_loadResult {α : Type} {P : HostCall W → Prop} {what : String}
    (r : Except JoinError (Except Error α)) : (loadResult what r).run.Calls P := by
  cases r with
  | error e => trivial
  | ok r => cases r <;> trivial

theorem calls_spawnBlocking {ε : Type} {P : HostCall W → Prop} {task : Task} {permit : Bool}
    (hs : P (.spawnBlocking task permit)) (hj : ∀ handle, P (.join handle task)) :
    (spawnBlocking (ε := ε) task permit).run.Calls P := by
  refine .liftE (.perform hs) fun handle => .bind (.perform (hj handle)) fun r => ?_
  cases r <;> trivial

/-- A call that starts no guest. -/
theorem runsAs_other {c : HostCall W} (h : ∀ pre t f i l, c ≠ .run pre t f i l) :
    RunsAs tenant func input limits c := fun pre t f i l hc => absurd hc (h pre t f i l)

theorem calls_spawn {ε : Type} {task : Task} {permit : Bool} :
    (spawnBlocking (ε := ε) task permit).run.Calls (RunsAs (W := W) tenant func input limits) :=
  calls_spawnBlocking (runsAs_other fun _ _ _ _ _ h => by cases h)
    fun _ => runsAs_other fun _ _ _ _ _ h => by cases h

theorem calls_loadPre : (loadPre (W := W) tenant func).run.Calls (RunsAs tenant func input limits) := by
  refine .bindE calls_spawn fun r => .bindE (calls_loadResult r) fun lookup => ?_
  cases lookup with
  | notFound => trivial
  | hit pre => trivial
  | miss digest =>
    refine .bindE calls_spawn fun r => .bindE (calls_loadResult r) fun loaded => ?_
    cases loaded with
    | ready pre => trivial
    | needsCompile =>
      refine .bindE (.bind (.perform (runsAs_other fun _ _ _ _ _ h => by cases h)) fun r => ?_)
        fun _ => .bindE calls_spawn fun r => calls_loadResult r
      cases r <;> trivial

theorem calls_drop {done : Bool} : (MeterGuard.drop (W := W) meter done tenant func).Calls
    (RunsAs tenant func input limits) := by
  unfold MeterGuard.drop
  split
  · trivial
  split
  · refine .bind (.perform (runsAs_other fun _ _ _ _ _ h => by cases h)) fun ticks => ?_
    refine .bind (.perform (runsAs_other fun _ _ _ _ _ h => by cases h)) fun wallUs => ?_
    exact .perform (runsAs_other fun _ _ _ _ _ h => by cases h)
  · trivial

theorem calls_finish {usage : Usage} {ok : Bool} :
    (MeterGuard.finish (W := W) meter tenant func usage ok).Calls
      (RunsAs tenant func input limits) := by
  unfold MeterGuard.finish
  split
  · exact .perform (runsAs_other fun _ _ _ _ _ h => by cases h)
  · trivial

theorem calls_runGuest {pre : W.HandlerPre} :
    (runGuest cfg meter pre tenant func input limits).run.Calls
      (RunsAs tenant func input limits) := by
  refine .bind (.perform (runsAs_run pre)) fun run => ?_
  cases run with
  | none => exact .bind calls_drop fun _ => trivial
  | some run =>
    refine .bind (.perform (runsAs_other fun _ _ _ _ _ h => by cases h)) fun ticks => ?_
    refine .bind (.perform (runsAs_other fun _ _ _ _ _ h => by cases h)) fun wallUs => ?_
    exact .bind calls_finish fun _ => .bind calls_drop fun _ => trivial

/-- An invocation runs its own guest, under its own limits. -/
theorem calls_invoke : (invoke (W := W) cfg meter tenant func input limits).run.Calls
    (RunsAs tenant func input limits) := by
  unfold invoke
  split
  · trivial
  split
  · trivial
  refine .liftE (.perform (runsAs_other fun _ _ _ _ _ h => by cases h)) fun slot => ?_
  split
  · trivial
  refine .guarded ?_ (.perform (runsAs_other fun _ _ _ _ _ h => by cases h))
  split
  · trivial
  refine .liftE (.perform (runsAs_other fun _ _ _ _ _ h => by cases h)) fun admission => ?_
  split
  · trivial
  exact .guarded (.bindE calls_loadPre fun pre => calls_runGuest)
    (.perform (runsAs_other fun _ _ _ _ _ h => by cases h))

/-! ## Its error -/

/-- An error about the names or the limits of a request. -/
def InvokeError.aboutRequest : InvokeError → Bool
  | .invalidName | .invalidLimits _ => true
  | _ => false

theorem httpStatus_spec (e : InvokeError) : (e.httpStatus = 400 ↔ e.aboutRequest = true) ∧
    e.httpStatus ≠ 401 ∧ e.httpStatus ≠ 403 := by
  cases e <;> simp [InvokeError.httpStatus, InvokeError.aboutRequest]

/-- The error, if there is one, is not about the request. -/
def Fine {α : Type} (r : Except (Exit InvokeError) α) : Prop :=
  ∀ e, r = .error (.error e) → e.aboutRequest = false

/-- `Fine` of what a program of the runtime returns. -/
abbrev FineM {α : Type} (p : ExceptT (Exit InvokeError) (HostM W) α) : Prop :=
  p.run.Answers (fun _ _ => True) Fine

theorem fine_ok {α : Type} (a : α) : Fine (.ok a) := fun e h => by cases h

theorem fine_dropped {α : Type} : Fine (.error .dropped : Except (Exit InvokeError) α) :=
  fun e h => by cases h

theorem fine_error {α : Type} {e : InvokeError} (h : e.aboutRequest = false) :
    Fine (.error (.error e) : Except (Exit InvokeError) α) := by
  rintro e' ⟨⟩
  exact h

theorem FineM.bind {α β : Type} {p : ExceptT (Exit InvokeError) (HostM W) α}
    {f : α → ExceptT (Exit InvokeError) (HostM W) β} (hp : FineM p) (hf : ∀ a, FineM (f a)) :
    FineM (p >>= f) :=
  Prog.Answers.bindE' hp (fun a _ => hf a) fun e h e' heq => h e' (by cases heq; rfl)

theorem FineM.lift {α β : Type} {p : HostM W α} {f : α → ExceptT (Exit InvokeError) (HostM W) β}
    (hf : ∀ a, FineM (f a)) : FineM ((liftM p : ExceptT (Exit InvokeError) (HostM W) α) >>= f) :=
  FineM.bind (Prog.Answers.bind (.any p) fun a _ => fine_ok a) hf

theorem fine_await {α : Type} {call : HostM W (Option α)} :
    FineM (await (ε := InvokeError) call) := by
  refine Prog.Answers.bind (.any call) fun r _ => ?_
  cases r with
  | none => exact fine_dropped
  | some a => exact fine_ok a

theorem fine_spawn {task : Task} {permit : Bool} :
    FineM (spawnBlocking (W := W) (ε := InvokeError) task permit) :=
  FineM.lift fun _ => fine_await

theorem fine_loadResult {α : Type} {what : String} (r : Except JoinError (Except Error α)) :
    FineM (loadResult (W := W) what r) := by
  cases r with
  | error e => exact fine_error rfl
  | ok r =>
    cases r with
    | error e => exact fine_error rfl
    | ok a => exact fine_ok a

theorem fine_loadPre : FineM (loadPre (W := W) tenant func) := by
  refine FineM.bind fine_spawn fun r => FineM.bind (fine_loadResult r) fun lookup => ?_
  cases lookup with
  | notFound => exact fine_error rfl
  | hit pre => exact fine_ok pre
  | miss digest =>
    refine FineM.bind fine_spawn fun r => FineM.bind (fine_loadResult r) fun loaded => ?_
    cases loaded with
    | ready pre => exact fine_ok pre
    | needsCompile =>
      exact FineM.bind fine_await fun _ => FineM.bind fine_spawn fun r => fine_loadResult r

theorem fine_runResult {usage : Usage} (r : Except Sandbox.Failure (List UInt8)) :
    Fine ((runResult cfg limits usage r).mapError .error) := by
  cases r with
  | error f => cases f <;> exact fine_error rfl
  | ok output =>
    show Fine ((if cfg.maxOutputBytes.toNat < output.length then
      Except.error (InvokeError.outputTooLarge usage cfg.maxOutputBytes)
      else Except.ok (Invocation.mk output usage)).mapError .error)
    split
    · exact fine_error rfl
    · exact fine_ok _

theorem fine_runGuest {pre : W.HandlerPre} :
    FineM (runGuest cfg meter pre tenant func input limits) := by
  refine Prog.Answers.bind (.any _) fun run _ => ?_
  cases run with
  | none => exact Prog.Answers.bind (.any _) fun _ _ => fine_dropped
  | some run =>
    refine Prog.Answers.bind (.any _) fun ticks _ => Prog.Answers.bind (.any _) fun wallUs _ => ?_
    exact Prog.Answers.bind (.any _) fun _ _ => Prog.Answers.bind (.any _) fun _ _ => fine_runResult _

/-- With valid names and limits, the runtime does not blame the request. -/
theorem fine_invoke (hname : validName tenant = true ∧ validName func = true)
    (hlimits : validateLimits limits = .ok ()) :
    FineM (invoke (W := W) cfg meter tenant func input limits) := by
  unfold invoke
  rw [if_neg (by simp [hname]), hlimits]
  refine FineM.lift fun slot => ?_
  split
  · exact fine_error rfl
  refine Prog.Answers.guarded ?_
  split
  · exact fine_error rfl
  refine FineM.lift fun admission => ?_
  split
  · exact fine_error rfl
  exact Prog.Answers.guarded (FineM.bind fine_loadPre fun pre => fine_runGuest)

end

/-! ## The handler -/

section
variable {W : Wasm} {τ : Type} {L : AuthCrate} {digest : Bytes → Str}
  {fromSlice : List UInt8 → Except Str AdminConfigBody} {admin : AdminState} {cfg : RuntimeConfig}
  {threads : Nat} {reqs : τ → InvokeRequest}

abbrev InvokeState (W : Wasm) (τ : Type) (L : AuthCrate) :=
  GateState τ (Host W τ) (HostRes (W := W)) L

/-- Its names are valid. -/
def InvokeRequest.Named (req : InvokeRequest) : Prop :=
  validName req.tenant = true ∧ validName req.func = true

/-- The runtime may be called with valid names, to run the guest for this request. -/
def InvokeRequest.visit (W : Wasm) (req : InvokeRequest) : Visit (HostCall W) where
  tenant := req.tenant
  bearer := bearerFrom req.headers
  may := fun limits c => req.Named ∧ RunsAs req.tenant req.func req.body limits c

/-- How a request may be answered: 400 is for bad names only, and what is not counted, as every
401 and 403, has not reached the runtime. -/
def InvokeAnswer [DecidableEq τ] (req : InvokeRequest) (t : τ) (res : Option Handled)
    (s : InvokeState W τ L) : Prop :=
  ∀ h, res = some h → (h.reply.status = 400 ↔ ¬req.Named) ∧
    (h.counted = none → AuthOnly t s) ∧
      (h.reply.status = 401 ∨ h.reply.status = 403 → h.counted = none)

variable [DecidableEq τ] {s s' : InvokeState W τ L} {t : τ}

variable (digest fromSlice admin cfg threads reqs) in
abbrev invokeThread (t : τ) :=
  gateThread (L := L) (hostService (W := W) τ cfg threads) digest fromSlice admin
    (fun t => (reqs t).visit W) t

theorem invokeAnswer_early {req : InvokeRequest} {status : UInt16} {text : String}
    (h400 : status = 400 ↔ ¬req.Named) (ho : AuthOnly t s) :
    InvokeAnswer req t (some (.early status text)) s := by
  rintro h ⟨⟩
  exact ⟨h400, fun _ => ho, fun _ => rfl⟩

theorem invokeAnswer_stable {req : InvokeRequest} (res : Option Handled) :
    (invokeThread (W := W) (L := L) digest fromSlice admin cfg threads reqs t).Stable none
      (InvokeAnswer req t res) := by
  intro s s' h hr x hx
  obtain ⟨h400, honly, hst⟩ := h x hx
  exact ⟨h400, fun hc => authOnly_stable (c := none) s s' (honly hc) hr, hst⟩

theorem sat_invokeAs {state : AppState} {token : Str} {limits : Limits}
    (hname : (reqs t).Named) (ht : bearerFrom (reqs t).headers = some token)
    (hl : Looked digest (reqs t).tenant token limits s)
    (hs : GateInv digest fromSlice admin (fun t => (reqs t).visit W) s) :
    Sat (invokeThread digest fromSlice admin cfg threads reqs t) (InvokeAnswer (reqs t) t)
      (invokeAs state (reqs t) limits) s := by
  have hjudged : Sat (Thread.judged (fun _ _ => True) (((reqs t).visit W).may limits))
      (fun r _ => Fine r)
      (invoke state.cfg state.meter (reqs t).tenant (reqs t).func (reqs t).body limits).run () :=
    Sat.judged_of (calls_invoke.mono fun c hc => ⟨hname, hc⟩)
      (fine_invoke hname (hl.entitled hs).valid)
  have hsat : Sat (invokeThread digest fromSlice admin cfg threads reqs t) (fun r _ => Fine r)
      ((invoke state.cfg state.meter (reqs t).tenant (reqs t).func (reqs t).body
        limits).run.inr : InvokeM W _) s :=
    sat_behind (fun _ _ _ _ _ _ _ => trivial) hjudged ht hl
  refine .bind (hsat.mono fun r s hr => ?_)
  cases r with
  | ok outcome =>
    rintro h ⟨⟩
    refine ⟨⟨fun h => ?_, fun h => absurd hname h⟩, fun h => ?_, fun h => ?_⟩
    · cases h
    · cases h
    · obtain h | h := h <;> cases h
  | error x =>
    cases x with
    | dropped => exact fun h hh => by cases hh
    | error e =>
      have hnot := hr e rfl
      obtain ⟨h400, h401, h403⟩ := httpStatus_spec e
      rintro h ⟨⟩
      refine ⟨⟨fun h => ?_, fun h => absurd hname h⟩, fun h => ?_, fun h => ?_⟩
      · rw [h400.1 h] at hnot
        cases hnot
      · cases h
      · obtain h | h := h
        · exact absurd h h401
        · exact absurd h h403

theorem sat_invokeHandler {state : AppState} {ttl : Nat}
    (hauth : state.auth = some ttl) (hs : GateInv digest fromSlice admin (fun t => (reqs t).visit W) s)
    (ho : AuthOnly t s) :
    Sat (invokeThread digest fromSlice admin cfg threads reqs t) (InvokeAnswer (reqs t) t)
      (invokeHandler digest state (reqs t)) s := by
  unfold invokeHandler
  split
  · rename_i hbad
    refine invokeAnswer_early ⟨fun _ hname => ?_, fun _ => rfl⟩ ho
    simp [hname.1, hname.2] at hbad
  rename_i hgood
  have hname : (reqs t).Named := by simpa [InvokeRequest.Named] using hgood
  have hnot : ∀ status : UInt16, status ≠ 400 → (status = 400 ↔ ¬(reqs t).Named) :=
    fun status h => ⟨fun h' => absurd h' h, fun h' => absurd hname h'⟩
  rw [hauth]
  cases ht : bearerFrom (reqs t).headers with
  | none => exact invokeAnswer_early (hnot 401 (by decide)) ho
  | some token =>
    refine .bind ((sat_authOutcome hs ho).mono fun res s h => ?_)
    obtain ⟨hrests, hs, ho⟩ := h
    cases res with
    | error e => exact invokeAnswer_early (hnot 503 (by decide)) ho
    | ok o =>
      cases o with
      | authorized limits => exact sat_invokeAs hname ht (looked_of_rests hrests) hs
      | missingOrUnknownKey => exact invokeAnswer_early (hnot 401 (by decide)) ho
      | wrongTenant => exact invokeAnswer_early (hnot 403 (by decide)) ho

end

/-- **Guests run for issued keys only.** Whatever requests are served at once, whatever the admin
API is asked meanwhile, and whichever lookups fail: every call of the runtime has been made for a
request with valid names and a token whose hash is that of a key issued to its tenant; a guest has
been run for that request only, under limits that its tenant has had and that are in range. And a
request is answered 400 for its names only, and if its reply is not counted, as every 401 and 403,
it has not reached the runtime. -/
theorem gate_admits_issued {W : Wasm} {τ : Type} [DecidableEq τ] {L : AuthCrate}
    (parseHost : Str → Option Str) (digest : Bytes → Str)
    (fromSlice : List UInt8 → Except Str AdminConfigBody) (admin : AdminState) (cfg : RuntimeConfig)
    (meter : Bool) (ttl threads : Nat) (reqs : τ → InvokeRequest) (host : Host W τ)
    {C : Config τ (InvokeState W τ L) (GateCall (HostCall W)) (GateRes HostRes)
      fun _ => Option Handled}
    (hr : Reach (gateSystem (hostService τ cfg threads) parseHost digest fromSlice admin).traced
      ⟨⟨.new L host, []⟩, fun t => invokeHandler digest ⟨cfg, meter, some ttl⟩ (reqs t)⟩ C) :
    (∀ t c r, (t, ⟨.inr c, r⟩) ∈ C.shared.trace →
        Admits digest ((reqs t).visit W) c C.shared.state.admin) ∧
      ∀ t h, C.prog t = .ret (some h) → (h.reply.status = 400 ↔ ¬(reqs t).Named) ∧
        (h.counted = none → ∀ c r, (t, ⟨.inr c, r⟩) ∉ C.shared.trace) ∧
          (h.reply.status = 401 ∨ h.reply.status = 403 → h.counted = none) := by
  have hinv : GateInv digest fromSlice admin (fun t => (reqs t).visit W)
      (⟨.new L host, []⟩ : InvokeState W τ L) := gateInv_new host
  obtain ⟨hinv', hsat⟩ := hr.sat (Q := fun t => InvokeAnswer (reqs t) t) gate_compatible
    (fun t => invokeAnswer_stable) hinv fun t => sat_invokeHandler rfl hinv fun c r hm => by cases hm
  refine ⟨hinv'.admitted, fun t h hret => ?_⟩
  have ht := hsat t
  rw [hret] at ht
  obtain ⟨h400, honly, hst⟩ := ht h rfl
  exact ⟨h400, fun hc c r hm => honly hc c r (Trace.mem_of.2 hm), hst⟩

/-- A request of tenant `t` with a key that is yet to be issued. -/
def keyRequest : InvokeRequest :=
  ⟨['t'], ['f'], [("authorization".toList, Str.utf8 "Bearer wl_01".toList)], []⟩

abbrev InvokeConfig := Config Bool (InvokeState Wasm.plain Bool (.list _ _))
  (GateCall (HostCall Wasm.plain)) (GateRes HostRes) fun _ => Option Handled

def invokeStart : InvokeConfig where
  shared := ⟨.new _ smallHost, []⟩
  prog := fun _ => invokeHandler plainDigest ⟨smallRuntime 1, true, some 5⟩ keyRequest

/-- The key is issued between two requests. -/
def issuedRun : List ((Bool × GateChoice HostChoice) ⊕ GateEvent (HostEvent Wasm.plain Bool)) :=
  let go : GateChoice HostChoice := ⟨none, .go⟩
  [.inl (false, go), .inl (false, go), .inr (.admin (.request issueRequest) ⟨some [1], false, false⟩),
    .inl (true, go), .inl (true, go), .inl (true, go), .inl (true, go), .inl (true, go),
    .inl (true, go), .inr (.back .start), .inr (.back (.finish 0 hitResult)), .inl (true, go),
    .inl (true, go), .inl (true, go), .inl (true, go), .inl (true, go), .inl (true, go),
    .inl (true, go), .inl (false, go)]

/-- The statuses of the replies so far. -/
def statuses (C : InvokeConfig) : List (Option UInt16) :=
  [false, true].map fun t => (C.prog t).result.bind fun res => res.map fun h => h.reply.status

theorem gate_admits_issued_between : ∃ C : InvokeConfig, statuses C = [some 401, some 200] ∧
    ∀ t c r, (t, ⟨.inr c, r⟩) ∈ C.shared.trace →
      Admits plainDigest (keyRequest.visit Wasm.plain) c C.shared.state.admin := by
  have hrun : (gatePlay (hostService Bool (smallRuntime 1) 1) some plainDigest capBody
      ⟨some ['s'], true⟩ invokeStart issuedRun).any
        (fun C => statuses C == [some 401, some 200]) = true := by
    decide +kernel
  rw [Option.any_eq_true] at hrun
  obtain ⟨C, hplay, hC⟩ := hrun
  exact ⟨C, beq_iff_eq.1 hC, (gate_admits_issued some plainDigest capBody ⟨some ['s'], true⟩
    (smallRuntime 1) true 5 1 (fun _ => keyRequest) smallHost
    (gatePlay_reach _ _ _ _ _ hplay)).1⟩

end Warpline
