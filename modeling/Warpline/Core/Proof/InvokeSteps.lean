import Warpline.Conc.Grants
import Warpline.Core.Invoke

/-!
# The steps of an invocation

`CallLedger`: what a call has asked for, been granted and given back so far, read off its own calls.
`Allows op L c` says what a call with the ledger `L` may do next, and `Final op out L` how its
ledger stands when it returns `out`. `sat_hostOp` walks through `invoke` and `stage` once and finds both;
the results on the meter, the admission, the slots and the permits only use what it has found
(`host_local`, `host_keeps`).
-/

set_option autoImplicit false

namespace Warpline

open Conc

section
variable {W : Wasm}

/-! ## What a call means -/

def slotEvent : (c : HostCall W) → HostRes c → Option Grant
  | .acquireSlot _, true => some .held
  | .acquireSlot _, false => some .refused
  | .dropSlot _, _ => some .returned
  | _, _ => none

def admissionEvent : (c : HostCall W) → HostRes c → Option Grant
  | .tryAcquireMany _, true => some .held
  | .tryAcquireMany _, false => some .refused
  | .releaseMany _, _ => some .returned
  | _, _ => none

/-- A compile permit is given away with the job it is moved to, and refused to a call that is
dropped while it waits. -/
def permitEvent : (c : HostCall W) → HostRes c → Option Grant
  | .acquirePermit, some _ => some .held
  | .acquirePermit, none => some .refused
  | .spawnBlocking _ true, _ => some .returned
  | _, _ => none

/-- The component was in memory, or its `.cwasm` could be loaded. -/
def Task.served : (task : Task) → Except JoinError (task.Out W) → Bool
  | .lookup _ _, .ok (.ok (.hit _)) => true
  | .loadExisting _, .ok (.ok (.ready _)) => true
  | _, _ => false

def servedEvent : (c : HostCall W) → HostRes c → Bool
  | .join _ task, some res => task.served res
  | _, _ => false

def startedEvent : (c : HostCall W) → HostRes c → Bool
  | .run _ _ _ _ _, _ => true
  | _, _ => false

def jobEvent : (c : HostCall W) → HostRes c → Option (Nat × Job)
  | .spawnBlocking task permit, (handle : Nat) => some (handle, ⟨task, permit⟩)
  | _, _ => none

def ticksEvent : (c : HostCall W) → HostRes c → Option UInt64
  | .loadTicks, (n : UInt64) => some n
  | _, _ => none

/-- One call of the meter. -/
structure MeterRecord where
  tenant : Str
  func : Str
  usage : Usage
  ok : Bool
  deriving DecidableEq, Repr

def recordEvent : (c : HostCall W) → HostRes c → Option MeterRecord
  | .record tenant func usage ok, _ => some ⟨tenant, func, usage, ok⟩
  | _, _ => none

structure CallLedger where
  slot : Grant
  admission : Grant
  permit : Grant
  served : Bool
  started : Bool
  /-- The job spawned last. -/
  job : Option (Nat × Job)
  /-- The ticks read last. -/
  ticks : Option UInt64
  records : List MeterRecord

def CallLedger.new : CallLedger := ⟨.unasked, .unasked, .unasked, false, false, none, none, []⟩

def CallLedger.step (L : CallLedger) (c : HostCall W) (r : HostRes c) : CallLedger where
  slot := (slotEvent c r).getD L.slot
  admission := (admissionEvent c r).getD L.admission
  permit := (permitEvent c r).getD L.permit
  served := servedEvent c r || L.served
  started := startedEvent c r || L.started
  job := (jobEvent c r).or L.job
  ticks := (ticksEvent c r).or L.ticks
  records := (recordEvent c r).toList ++ L.records

abbrev HostCalls (W : Wasm) := List ((c : HostCall W) × HostRes c)

def callLedger : HostCalls W → CallLedger
  | [] => .new
  | ⟨c, r⟩ :: h => (callLedger h).step c r

def tenantOf : HostOp → Option Str
  | .invoke tenant _ _ _ => some tenant
  | .stage _ => none

/-! ## What a call may do next -/

/-- Admitted, and the guest has not started. -/
structure CallLedger.Loading (L : CallLedger) (permit : Grant) (served : Bool) : Prop where
  slot : L.slot = .held
  admission : L.admission = .held
  permit : L.permit = permit
  served : L.served = served
  started : L.started = false
  records : L.records = []

/-- Admitted, and the guest has started. -/
structure CallLedger.Running (L : CallLedger) : Prop where
  slot : L.slot = .held
  admission : L.admission = .held
  permit : L.permit ≠ .held
  started : L.started = true

/-- The compile permit of a call that spawns a job, before and after. -/
def permitBefore : Bool → Grant
  | true => .held
  | false => .unasked

/-- Where a job's permit is once the job has been joined. -/
def permitAfter : Bool → Grant
  | true => .returned
  | false => .unasked

/-- The calls an `invoke` may make next, by its record so far. -/
def AllowsInvoke (cfg : RuntimeConfig) (tenant func : Str) (limits : Limits) (L : CallLedger) :
    HostCall W → Prop
  | .acquireSlot t => t = tenant ∧ L = .new ∧ validateLimits limits = .ok ()
  | .dropSlot t => t = tenant ∧ L.slot = .held ∧ L.admission ≠ .held ∧ L.permit ≠ .held ∧
      (L.admission = .unasked → admissionWeight cfg limits = none)
  | .tryAcquireMany n => admissionWeight cfg limits = some n ∧ L.slot = .held ∧
      L.admission = .unasked ∧ L.permit ≠ .held
  | .releaseMany n => admissionWeight cfg limits = some n ∧ L.slot = .held ∧
      L.admission = .held ∧ L.permit ≠ .held
  | .acquirePermit => L.Loading .unasked false
  | .spawnBlocking task permit => task.compiles = permit ∧ L.Loading (permitBefore permit) false
  | .join handle task => ∃ permit, L.Loading (permitAfter permit) false ∧
      task.compiles = permit ∧ L.job = some (handle, ⟨task, permit⟩)
  | .run _ t f _ l => t = tenant ∧ f = func ∧ l = limits ∧
      ∃ permit served, permit ≠ .held ∧ L.Loading permit served
  | .loadTicks => L.Running
  | .elapsed => L.Running
  | .record t f _ _ => t = tenant ∧ f = func ∧ L.Running ∧ L.records = []

/-- The calls a `stage` may make next, by its record so far. -/
def AllowsStage (wasm : Bytes) (L : CallLedger) : HostCall W → Prop
  | .acquirePermit => L = .new
  | .spawnBlocking task permit => task = .stage wasm ∧ permit = true ∧ L.permit = .held
  | .join handle task => task = .stage wasm ∧ L.permit ≠ .held ∧
      L.job = some (handle, ⟨task, true⟩)
  | _ => False

/-- The calls an operation may make next, by its record so far. -/
def Allows (cfg : RuntimeConfig) : HostOp → CallLedger → HostCall W → Prop
  | .invoke tenant func _ limits, L, c => AllowsInvoke cfg tenant func limits L c
  | .stage wasm, L, c => AllowsStage wasm L c

/-! ## How a call ends -/

/-- What the meter has been told of an invocation that ends with `out`. -/
def Metered (tenant func : Str) (L : CallLedger) (out : Except (Exit InvokeError) Invocation) : Prop :=
  ∃ usage ok, L.records = [⟨tenant, func, usage, ok⟩] ∧
    match out with
    | .ok inv => inv.usage = usage ∧ ok = true
    | .error (.error e) => e.usage = some usage ∧ ok = false
    | .error .dropped => ok = false ∧ ∃ n, L.ticks = some n ∧ usage.cpuUs = n * 1000

/-- What an `invoke` that has ended has metered. -/
structure InvokeMeter (meter : Bool) (tenant func : Str) (L : CallLedger)
    (out : Except (Exit InvokeError) Invocation) : Prop where
  before : L.started = false → L.records = [] ∧ (∀ inv, out ≠ .ok inv) ∧
    ∀ e, out = .error (.error e) → e.usage = none
  after : L.started = true → meter = true → Metered tenant func L out

/-- The record of an `invoke` that has ended, against its result. -/
structure InvokeFinal (cfg : RuntimeConfig) (meter : Bool) (tenant func : Str) (limits : Limits)
    (out : Except (Exit InvokeError) Invocation) (L : CallLedger) : Prop where
  slot : L.slot ≠ .held
  admission : L.admission ≠ .held
  permit : L.permit ≠ .held
  passed : L.slot = .unasked →
    ¬ (validName tenant = true ∧ validName func = true ∧ validateLimits limits = .ok ())
  busy : out = .error (.error .tenantBusy) ↔ L.slot = .refused
  overloaded : out = .error (.error .overloaded) ↔ L.admission = .refused ∨
    (L.slot = .returned ∧ L.admission = .unasked)
  meter : InvokeMeter meter tenant func L out

/-- The record of an operation that has ended, against its result. -/
def Final (cfg : RuntimeConfig) (meter : Bool) : HostOp → HostOut → CallLedger → Prop
  | .invoke tenant func _ limits, .invoked out, L =>
    InvokeFinal cfg meter tenant func limits out L
  | .stage _, .staged _, L => L.slot ≠ .held ∧ L.admission ≠ .held ∧ L.permit ≠ .held
  | _, _, _ => False

/-! ## The walk -/

/-- A call seen by its ledger alone. -/
def ledgerThread (cfg : RuntimeConfig) (op : HostOp) : Thread CallLedger (HostCall W) HostRes where
  exec := fun L c r L' => L' = L.step c r
  rely := fun _ L L' => L' = L
  guar := fun c L _ => Allows cfg op L c

variable {cfg : RuntimeConfig} {op : HostOp} {L : CallLedger}

theorem sat_host {α : Type} {Q : α → CallLedger → Prop} {c : HostCall W} {k : HostRes c → HostM W α}
    (ha : Allows cfg op L c) (hk : ∀ r, Sat (ledgerThread cfg op) Q (k r) (L.step c r)) :
    Sat (ledgerThread cfg op) Q (.call c k) L := by
  refine Sat.call (fun L' => L' = L) (fun L₁ L₂ h hr => hr.trans h) rfl fun L₁ r L₂ h he => ?_
  subst h
  cases he
  exact ⟨ha, hk r⟩

theorem sat_await {ε α : Type} {Q : Except (Exit ε) α → CallLedger → Prop} {call : HostM W (Option α)}
    (h : Sat (ledgerThread cfg op) (fun r L => match r with
      | some a => Q (.ok a) L
      | none => Q (.error .dropped) L) call L) :
    Sat (ledgerThread cfg op) Q (await call).run L := by
  refine Sat.bind (h.mono fun r L hr => ?_)
  cases r with
  | some a => exact hr
  | none => exact hr

variable {tenant func : Str} {input : List UInt8} {limits : Limits} {meter : Bool}

/-- A job, and waiting for it. -/
theorem sat_spawnBlocking {task : Task} (permit : Bool) (ht : task.compiles = permit)
    (hL : L.Loading (permitBefore permit) false) :
    Sat (ledgerThread cfg (.invoke tenant func input limits)) (fun r L =>
      match r with
      | .ok res => L.Loading (permitAfter permit) (task.served res)
      | .error _ => r = .error .dropped ∧ L.Loading (permitAfter permit) false)
      (spawnBlocking task permit : ExceptT (Exit InvokeError) (HostM W) _).run L := by
  refine Sat.liftE (sat_host ⟨ht, hL⟩ fun handle => ?_)
  have hL₁ : (L.step (.spawnBlocking task permit) handle).Loading (permitAfter permit) false ∧
      (L.step (.spawnBlocking task permit) handle).job = some (handle, ⟨task, permit⟩) := by
    cases permit with
    | false => exact ⟨⟨hL.slot, hL.admission, hL.permit, hL.served, hL.started, hL.records⟩, rfl⟩
    | true => exact ⟨⟨hL.slot, hL.admission, rfl, hL.served, hL.started, hL.records⟩, rfl⟩
  obtain ⟨hL₁, hjob⟩ := hL₁
  refine sat_await (sat_host ⟨permit, hL₁, ht, hjob⟩ fun r => ?_)
  -- only a served component is noted
  have hjoin : ∀ {L : CallLedger} {g : Grant} {handle : Nat} (r : HostRes (.join handle task)),
      L.Loading g false → (L.step (.join handle task : HostCall W) r).Loading g
        (servedEvent (.join handle task : HostCall W) r) :=
    fun r h => ⟨h.slot, h.admission, h.permit, by simp [CallLedger.step, h.served], h.started, h.records⟩
  have hL₂ := hjoin r hL₁
  cases r with
  | none =>
    exact ⟨rfl, hL₂⟩
  | some res =>
    exact hL₂

/-- Errors before the guest has started. -/
def BeforeGuest (e : InvokeError) : Prop :=
  e.usage = none ∧ e ≠ .tenantBusy ∧ e ≠ .overloaded

/-- Loading has ended, with a component or without. -/
def LoadEnded (r : Except (Exit InvokeError) W.HandlerPre) (L : CallLedger) : Prop :=
  (∃ permit served, permit ≠ .held ∧ L.Loading permit served) ∧
    ∀ e, r = .error (.error e) → BeforeGuest e

theorem sat_loadResult {α β : Type} {what : String} {res : Except JoinError (Except Error α)}
    {f : α → ExceptT (Exit InvokeError) (HostM W) β}
    {Q : Except (Exit InvokeError) β → CallLedger → Prop}
    (herr : ∀ e, BeforeGuest e → Q (.error (.error e)) L)
    (hok : ∀ a, res = .ok (.ok a) → Sat (ledgerThread cfg op) Q (f a).run L) :
    Sat (ledgerThread cfg op) Q (loadResult what res >>= f).run L := by
  rcases res with e | e | a
  · exact herr _ ⟨rfl, nofun, nofun⟩
  · exact herr _ ⟨rfl, nofun, nofun⟩
  · exact hok a rfl

theorem sat_loadPre (hL : L.Loading .unasked false) :
    Sat (ledgerThread cfg (.invoke tenant func input limits)) LoadEnded
      (loadPre tenant func : ExceptT (Exit InvokeError) (HostM W) W.HandlerPre).run L := by
  have hend : ∀ {L : CallLedger} {g b} (r : Except (Exit InvokeError) W.HandlerPre), g ≠ .held →
      L.Loading g b → (∀ e, r = .error (.error e) → BeforeGuest e) → LoadEnded r L :=
    fun _ hg h hr => ⟨⟨_, _, hg, h⟩, hr⟩
  have herror : ∀ {L : CallLedger} {g b} (e : InvokeError), g ≠ .held → L.Loading g b → BeforeGuest e →
      LoadEnded (.error (.error e) : Except (Exit InvokeError) W.HandlerPre) L :=
    fun e hg h he => hend _ hg h fun e' heq => by cases heq; exact he
  have hdropped : ∀ {L : CallLedger} {g b}, g ≠ .held → L.Loading g b →
      LoadEnded (.error .dropped : Except (Exit InvokeError) W.HandlerPre) L :=
    fun hg h => hend _ hg h fun e' heq => by cases heq
  unfold loadPre
  refine Sat.bindE ((sat_spawnBlocking false rfl hL).mono fun r L₁ h₁ => ?_)
  rcases r with e | res
  · obtain ⟨heq, h₁⟩ := h₁
    cases heq
    exact hdropped (by decide) h₁
  refine sat_loadResult (fun e he => herror e (by decide) h₁ he) fun lookup hres => ?_
  rcases lookup with _ | pre | digest
  · exact herror _ (by decide) h₁ ⟨rfl, nofun, nofun⟩
  · exact hend _ (by decide) h₁ nofun
  -- a miss
  cases hres
  refine Sat.bindE ((sat_spawnBlocking false rfl h₁).mono fun r L₂ h₂ => ?_)
  rcases r with e | res
  · obtain ⟨heq, h₂⟩ := h₂
    cases heq
    exact hdropped (by decide) h₂
  refine sat_loadResult (fun e he => herror e (by decide) h₂ he) fun loaded hres => ?_
  rcases loaded with pre | _
  · exact hend _ (by decide) h₂ nofun
  -- a compile
  cases hres
  refine Sat.bindE (sat_await (sat_host h₂ fun r => ?_))
  cases r with
  | none =>
    exact hdropped (g := .refused) (b := false) (by decide)
      ⟨h₂.slot, h₂.admission, rfl, h₂.served, h₂.started, h₂.records⟩
  | some u =>
    have h₃ : (L₂.step (HostCall.acquirePermit : HostCall W) (some u)).Loading .held false :=
      ⟨h₂.slot, h₂.admission, rfl, h₂.served, h₂.started, h₂.records⟩
    refine Sat.bindE ((sat_spawnBlocking true rfl h₃).mono fun r L₄ h₄ => ?_)
    rcases r with e | res
    · obtain ⟨heq, h₄⟩ := h₄
      cases heq
      exact hdropped (by decide) h₄
    rcases res with e | e | pre
    · exact herror _ (by decide) h₄ ⟨rfl, nofun, nofun⟩
    · exact herror _ (by decide) h₄ ⟨rfl, nofun, nofun⟩
    · exact hend _ (by decide) h₄ nofun

/-- An invocation that was admitted has ended; it still holds what it holds. -/
structure BodyEnded (meter : Bool) (tenant func : Str)
    (out : Except (Exit InvokeError) Invocation) (L : CallLedger) : Prop where
  slot : L.slot = .held
  admission : L.admission = .held
  permit : L.permit ≠ .held
  busy : out ≠ .error (.error .tenantBusy)
  overloaded : out ≠ .error (.error .overloaded)
  meter : InvokeMeter meter tenant func L out

theorem runResult_usage (cfg : RuntimeConfig) (limits : Limits) (usage : Usage)
    (res : Except Sandbox.Failure (List UInt8)) :
    (∃ inv, runResult cfg limits usage res = .ok inv ∧ inv.usage = usage) ∨
      ∃ e, runResult cfg limits usage res = .error e ∧ e.usage = some usage := by
  rcases res with f | output
  · cases f <;> exact .inr ⟨_, rfl, rfl⟩
  · by_cases h : cfg.maxOutputBytes.toNat < output.length
    · exact .inr ⟨_, if_pos h, rfl⟩
    · exact .inl ⟨_, if_neg h, rfl⟩

theorem CallLedger.Running.not_before {L : CallLedger} {P : Prop} (h : L.Running) (hs : L.started = false) :
    P := by
  rw [h.started] at hs
  cases hs

theorem sat_runGuest {pre : W.HandlerPre} {g : Grant} {b : Bool} (hg : g ≠ .held)
    (hL : L.Loading g b) :
    Sat (ledgerThread cfg (.invoke tenant func input limits)) (BodyEnded meter tenant func)
      (runGuest cfg meter pre tenant func input limits :
        ExceptT (Exit InvokeError) (HostM W) Invocation).run L := by
  refine sat_host ⟨rfl, rfl, rfl, g, b, hg, hL⟩ fun r => ?_
  -- the ledger once the guest has run
  have hrun : ∀ r, (L.step (HostCall.run pre tenant func input limits) r).Running ∧
      (L.step (HostCall.run pre tenant func input limits) r).records = [] :=
    fun r => ⟨⟨hL.slot, hL.admission, by show L.permit ≠ _; rw [hL.permit]; exact hg, rfl⟩, hL.records⟩
  generalize hL' : L.step (HostCall.run pre tenant func input limits) r = L'
  obtain ⟨hr, hrec⟩ := hL' ▸ hrun r
  cases r with
  | none =>
    have hend : ∀ L', L'.Running → (meter = true → Metered tenant func L' (.error .dropped)) →
        BodyEnded meter tenant func (.error .dropped) L' :=
      fun L' hr hm => ⟨hr.slot, hr.admission, hr.permit, nofun, nofun, ⟨hr.not_before, fun _ => hm⟩⟩
    cases meter with
    | false => exact hend _ hr nofun
    | true =>
      -- the guard reports what has been counted
      refine sat_host hr fun ticks => sat_host ⟨hr.slot, hr.admission, hr.permit, hr.started⟩
        fun wall => sat_host ⟨rfl, rfl, ⟨hr.slot, hr.admission, hr.permit, hr.started⟩, hrec⟩
        fun _ => ?_
      refine hend _ ⟨hr.slot, hr.admission, hr.permit, hr.started⟩ fun _ => ?_
      exact ⟨_, false, congrArg _ hrec, rfl, ticks, rfl, rfl⟩
  | some run =>
    refine sat_host hr fun (ticks : UInt64) =>
      sat_host ⟨hr.slot, hr.admission, hr.permit, hr.started⟩ fun (wall : UInt64) => ?_
    have hr₂ : ((L'.step (HostCall.loadTicks : HostCall W) ticks).step
        (HostCall.elapsed : HostCall W) wall).Running :=
      ⟨hr.slot, hr.admission, hr.permit, hr.started⟩
    have hrec₂ : ((L'.step (HostCall.loadTicks : HostCall W) ticks).step
        (HostCall.elapsed : HostCall W) wall).records = [] := hrec
    generalize (L'.step (HostCall.loadTicks : HostCall W) ticks).step
      (HostCall.elapsed : HostCall W) wall = L₂ at hr₂ hrec₂ ⊢
    obtain ⟨usage, husage⟩ : ∃ usage : Usage,
      usage = ⟨ticks * (EPOCH_TICK_MS * 1000), wall, run.memPeak⟩ := ⟨_, rfl⟩
    have hend : ∀ L', L'.Running → (meter = true →
          L'.records = [⟨tenant, func, usage, (runResult cfg limits usage run.result).toBool⟩]) →
        BodyEnded meter tenant func ((runResult cfg limits usage run.result).mapError .error) L' := by
      intro L' hr hm
      obtain ⟨inv, hres, hu⟩ | ⟨e, hres, hu⟩ := runResult_usage cfg limits usage run.result
      · rw [hres] at hm ⊢
        refine ⟨hr.slot, hr.admission, hr.permit, nofun, nofun, hr.not_before, fun _ h => ?_⟩
        exact ⟨usage, true, hm h, hu, rfl⟩
      · rw [hres] at hm ⊢
        refine ⟨hr.slot, hr.admission, hr.permit, fun h => ?_, fun h => ?_, hr.not_before,
          fun _ h => ?_⟩
        · cases h
          cases hu
        · cases h
          cases hu
        · exact ⟨usage, false, hm h, hu, rfl⟩
    subst husage
    cases meter with
    | false => exact hend L₂ hr₂ nofun
    | true =>
      refine sat_host ⟨rfl, rfl, hr₂, hrec₂⟩ fun _ => ?_
      exact hend _ ⟨hr₂.slot, hr₂.admission, hr₂.permit, hr₂.started⟩ fun _ => congrArg (_ :: ·) hrec₂

/-- An invocation that fails before its guest starts is not metered. -/
theorem InvokeMeter.of_error {e : InvokeError} (he : e.usage = none) (hs : L.started = false)
    (hr : L.records = []) : InvokeMeter meter tenant func L (.error (.error e)) := by
  refine ⟨fun _ => ⟨hr, nofun, fun e' h => ?_⟩, fun h => ?_⟩
  · cases h
    exact he
  · rw [hs] at h
    cases h

/-- The part of `invoke` under the guard of the admission. -/
theorem sat_admitted (hL : L.Loading .unasked false) :
    Sat (ledgerThread cfg (.invoke tenant func input limits)) (BodyEnded meter tenant func)
      (do
        let pre ← loadPre tenant func
        runGuest cfg meter pre tenant func input limits :
          ExceptT (Exit InvokeError) (HostM W) Invocation).run L := by
  refine Sat.bindE ((sat_loadPre hL).mono fun r L₁ h => ?_)
  obtain ⟨⟨g, b, hg, h₁⟩, he⟩ := h
  have hpermit : L₁.permit ≠ .held := by
    rw [h₁.permit]
    exact hg
  rcases r with (e | _) | pre
  · obtain ⟨hu, hb, ho⟩ := he e rfl
    refine ⟨h₁.slot, h₁.admission, hpermit, fun h => ?_, fun h => ?_,
      .of_error hu h₁.started h₁.records⟩
    · cases h
      exact hb rfl
    · cases h
      exact ho rfl
  · refine ⟨h₁.slot, h₁.admission, hpermit, nofun, nofun, fun _ => ⟨h₁.records, nofun, nofun⟩,
      fun h => ?_⟩
    rw [h₁.started] at h
    cases h
  · exact sat_runGuest hg h₁

theorem sat_invoke :
    Sat (ledgerThread cfg (.invoke tenant func input limits))
      (InvokeFinal cfg meter tenant func limits)
      (invoke cfg meter tenant func input limits :
        ExceptT (Exit InvokeError) (HostM W) Invocation).run .new := by
  have hrejected : ∀ e : InvokeError, BeforeGuest e →
      ¬ (validName tenant = true ∧ validName func = true ∧ validateLimits limits = .ok ()) →
      InvokeFinal cfg meter tenant func limits (.error (.error e)) .new := by
    intro e he hn
    refine ⟨by decide, by decide, by decide, fun _ => hn, ⟨fun h => ?_, fun h => by cases h⟩,
      ⟨fun h => ?_, fun h => ?_⟩, .of_error he.1 rfl rfl⟩
    · cases h
      exact absurd rfl he.2.1
    · cases h
      exact absurd rfl he.2.2
    · obtain h | ⟨h, -⟩ := h
      · cases h
      · cases h
  unfold invoke
  split
  · rename_i hname
    refine hrejected _ ⟨rfl, nofun, nofun⟩ fun h => ?_
    simp [h.1, h.2.1] at hname
  split
  · rename_i e he
    refine hrejected _ ⟨rfl, nofun, nofun⟩ fun h => ?_
    rw [h.2.2] at he
    cases he
  rename_i hlimits
  refine Sat.liftE (sat_host ⟨rfl, rfl, hlimits⟩ fun slot => ?_)
  cases slot with
  | false =>
    exact ⟨nofun, nofun, nofun, nofun, ⟨fun _ => rfl, fun _ => rfl⟩,
      ⟨fun h => (by cases h), fun h => (by obtain h | ⟨h, -⟩ := h <;> cases h)⟩,
      .of_error rfl rfl rfl⟩
  | true =>
  refine Sat.guarded ?_
  -- what is left is to show how things stand when the slot is given back
  have hback : ∀ (out : Except (Exit InvokeError) Invocation) (L : CallLedger), L.slot = .held →
      L.admission ≠ .held → L.permit ≠ .held →
      (L.admission = .unasked → admissionWeight cfg limits = none) →
      out ≠ .error (.error .tenantBusy) →
      (out = .error (.error .overloaded) ↔ L.admission = .refused ∨ L.admission = .unasked) →
      InvokeMeter meter tenant func L out →
      Sat (ledgerThread cfg (.invoke tenant func input limits))
        (fun _ => InvokeFinal cfg meter tenant func limits out)
        (Prog.perform (HostCall.dropSlot tenant : HostCall W)) L := by
    intro out L hs ha hp hw hb ho hm
    refine sat_host ⟨rfl, hs, ha, hp, hw⟩ fun _ => ⟨nofun, ha, hp, nofun, ⟨fun h => absurd h hb, nofun⟩, ?_,
      ⟨hm.before, hm.after⟩⟩
    rw [ho]
    exact or_congr_right ⟨fun h => ⟨rfl, h⟩, fun h => h.2⟩
  split
  · rename_i hw
    exact hback _ _ rfl nofun nofun (fun _ => hw) nofun
      ⟨fun _ => .inr rfl, fun _ => rfl⟩ (.of_error rfl rfl rfl)
  rename_i weight hw
  refine Sat.liftE (sat_host ⟨hw, rfl, rfl, nofun⟩ fun admission => ?_)
  cases admission with
  | false =>
    exact hback _ _ rfl nofun nofun nofun nofun
      ⟨fun _ => .inl rfl, fun _ => rfl⟩ (.of_error rfl rfl rfl)
  | true =>
  refine Sat.guarded ((sat_admitted ⟨rfl, rfl, rfl, rfl, rfl, rfl⟩).mono fun out L₁ h => ?_)
  refine sat_host ⟨hw, h.slot, h.admission, h.permit⟩ fun _ => ?_
  exact hback _ _ h.slot nofun h.permit nofun h.busy
    ⟨fun ho => absurd ho h.overloaded, fun ho => (by obtain ho | ho := ho <;> cases ho)⟩
    ⟨h.meter.before, h.meter.after⟩

theorem sat_stageTask {wasm : Bytes} :
    Sat (ledgerThread cfg (.stage wasm)) (fun _ L => L.slot ≠ .held ∧ L.admission ≠ .held ∧
        L.permit ≠ .held)
      (stageTask wasm : ExceptT (Exit PublishError) (HostM W) Staged).run .new := by
  refine Sat.bindE (sat_await (sat_host rfl fun r => ?_))
  cases r with
  | none => exact ⟨nofun, nofun, nofun⟩
  | some _ =>
  refine Sat.bindE (Sat.liftE (sat_host ⟨rfl, rfl, rfl⟩ fun handle => ?_))
  refine sat_await (sat_host ⟨rfl, nofun, rfl⟩ fun r => ?_)
  rcases r with _ | e | e | staged <;> exact ⟨nofun, nofun, nofun⟩

theorem sat_hostOp (op : HostOp) :
    Sat (ledgerThread cfg op) (Final cfg meter op) (op.run cfg meter : HostM W HostOut) .new := by
  cases op with
  | invoke tenant func input limits => exact Sat.bind (sat_invoke.mono fun _ _ h => h)
  | stage wasm => exact Sat.bind (sat_stageTask.mono fun _ _ h => h)

/-! ## The ledger and the calls -/

theorem ledger_slot (h : HostCalls W) : (callLedger h).slot = standing slotEvent h := by
  induction h with
  | nil => rfl
  | cons q h ih => rw [standing_cons, ← ih]; rfl

theorem ledger_admission (h : HostCalls W) : (callLedger h).admission = standing admissionEvent h := by
  induction h with
  | nil => rfl
  | cons q h ih => rw [standing_cons, ← ih]; rfl

theorem ledger_permit (h : HostCalls W) : (callLedger h).permit = standing permitEvent h := by
  induction h with
  | nil => rfl
  | cons q h ih => rw [standing_cons, ← ih]; rfl

/-! ## What is asked for and given back -/

theorem allows_acquireSlot {op : HostOp} {L : CallLedger}
    (h : Allows cfg op L (.acquireSlot tenant : HostCall W)) :
    tenantOf op = some tenant ∧ L = .new := by
  cases op with
  | invoke =>
    obtain ⟨rfl, hL, -⟩ := h
    exact ⟨rfl, hL⟩
  | stage => exact h.elim

theorem allows_dropSlot {op : HostOp} {L : CallLedger}
    (h : Allows cfg op L (.dropSlot tenant : HostCall W)) :
    tenantOf op = some tenant ∧ L.slot = .held := by
  cases op with
  | invoke =>
    obtain ⟨rfl, hs, -⟩ := h
    exact ⟨rfl, hs⟩
  | stage => exact h.elim

theorem slot_follows (op : HostOp) (h : HostCalls W) (c : HostCall W) (r : HostRes c)
    (ha : Allows cfg op (callLedger h) c) : (standing slotEvent h).Follows (slotEvent c r) := by
  rw [← ledger_slot]
  cases c with
  | acquireSlot tenant =>
    rw [(allows_acquireSlot ha).2]
    cases r <;> rfl
  | dropSlot tenant => exact (allows_dropSlot ha).2
  | _ => trivial

end

/-! ## All calls -/

section
variable {W : Wasm} {τ : Type} [DecidableEq τ]

abbrev HostState (W : Wasm) (τ : Type) := Traced τ (Host W τ) (HostCall W) HostRes

abbrev HostConfig (W : Wasm) (τ : Type) :=
  Config τ (HostState W τ) (HostCall W) HostRes fun _ => HostOut

def hostStart (cfg : RuntimeConfig) (meter : Bool) (ops : τ → HostOp) (s₀ : Host W τ) :
    HostConfig W τ :=
  ⟨⟨s₀, []⟩, fun t => (ops t).run cfg meter⟩

variable {cfg : RuntimeConfig} {meter : Bool} {threads : Nat} {ops : τ → HostOp} {s₀ : Host W τ}
  {C : HostConfig W τ}

/-- **Every call in every run** does what its ledger allows, and ends as `Final` says. -/
theorem host_local (hr : Reach (hostSystem W cfg threads).traced (hostStart cfg meter ops s₀) C)
    (t : τ) : Sat (ledgerThread cfg (ops t)) (Final cfg meter (ops t)) (C.prog t)
      (callLedger (C.shared.trace.of t)) :=
  hr.own (T := ledgerThread cfg (ops t)) (Q := Final cfg meter (ops t)) callLedger
    (fun _ _ _ _ _ _ _ => rfl) (sat_hostOp (ops t))

omit [DecidableEq τ] in
theorem build_eq_ok {s₀ : Host W τ} (h : build W τ cfg = .ok s₀) :
    cfg.maxInFlightPerTenant ≠ 0 ∧ cfg.compileConcurrency ≠ 0 ∧ MIB ≤ cfg.memoryBudgetBytes ∧
      s₀ = ⟨fun _ => none, (cfg.memoryBudgetBytes / MIB).toNat, cfg.compileConcurrency.toNat, .new,
        fun _ => 0⟩ := by
  unfold build at h
  split at h
  · cases h
  rename_i hbudget
  split at h
  · cases h
  rename_i hmax
  split at h
  · cases h
  split at h
  · cases h
  rename_i hcompile
  cases h
  exact ⟨hmax, hcompile, UInt64.not_lt.1 hbudget, rfl⟩

theorem nonempty_hostRes (c : HostCall W) : Nonempty (HostRes c) := by
  cases c with
  | acquireSlot | tryAcquireMany => exact ⟨false⟩
  | dropSlot | releaseMany | record => exact ⟨()⟩
  | acquirePermit => exact ⟨none⟩
  | join => exact ⟨none⟩
  | run => exact ⟨none⟩
  | spawnBlocking => exact ⟨(0 : Nat)⟩
  | loadTicks | elapsed => exact ⟨(0 : UInt64)⟩

/-- What a call is about to do it is allowed to do. -/
theorem host_allows (hr : Reach (hostSystem W cfg threads).traced (hostStart cfg meter ops s₀) C)
    {t : τ} {c : HostCall W} (hc : C.pending t = some c) :
    Allows cfg (ops t) (callLedger (C.shared.trace.of t)) c := by
  have h := host_local hr t
  unfold Config.pending at hc
  cases hp : C.prog t with
  | ret a =>
    rw [hp] at hc
    cases hc
  | call c' k =>
    rw [hp] at hc h
    cases hc
    obtain ⟨r⟩ := nonempty_hostRes c
    exact (h _ .refl r _ rfl).1

theorem host_final (hr : Reach (hostSystem W cfg threads).traced (hostStart cfg meter ops s₀) C)
    {t : τ} {out : HostOut} (ht : C.prog t = .ret out) :
    Final cfg meter (ops t) out (callLedger (C.shared.trace.of t)) := by
  have h := host_local hr t
  rw [ht] at h
  exact h

/-- **An invariant of the shared state**: what calls keep that do what their ledgers allow. -/
theorem host_keeps {J : HostState W τ → Prop}
    (hr : Reach (hostSystem W cfg threads).traced (hostStart cfg meter ops s₀) C)
    (h0 : J ⟨s₀, []⟩)
    (hcall : ∀ t c r s s' ch, J s → Allows cfg (ops t) (callLedger (s.trace.of t)) c →
      hostExec cfg t ch s.state c = some (r, s'.state) → s'.trace = (t, ⟨c, r⟩) :: s.trace → J s')
    (henv : ∀ pend s s' e, J s →
      (∀ t c, pend t = some c → Allows cfg (ops t) (callLedger (s.trace.of t)) c) →
      hostEnv threads pend s.state e = some s'.state → s'.trace = s.trace → J s') :
    J C.shared := by
  induction hr with
  | refl => exact h0
  | @tail C₁ C₂ hr₁ hs ih =>
    cases hs with
    | @call t c k r s' hp he =>
      obtain ⟨⟨ch, hx⟩, htr⟩ := he
      have hpend : C₁.pending t = some c := by simp [Config.pending, hp]
      exact hcall t c r _ _ ch ih (host_allows hr₁ hpend) hx htr
    | env he =>
      obtain ⟨⟨e, hx⟩, htr⟩ := he
      exact henv _ _ _ e ih (fun t c hc => host_allows hr₁ hc) hx htr

/-- What was done was allowed when it was done. -/
theorem host_allowed (hr : Reach (hostSystem W cfg threads).traced (hostStart cfg meter ops s₀) C)
    {t : τ} {c : HostCall W} {r : HostRes c} {before : Trace τ (HostCall W) HostRes}
    (h : (t, ⟨c, r⟩) :: before <:+ C.shared.trace) :
    Allows cfg (ops t) (callLedger (before.of t)) c := by
  refine host_keeps (J := fun s => ∀ (t : τ) (c : HostCall W) (r : HostRes c)
    (before : Trace τ (HostCall W) HostRes), (t, ⟨c, r⟩) :: before <:+ s.trace →
      Allows cfg (ops t) (callLedger (before.of t)) c) hr (fun _ _ _ _ h => ?_)
    (fun u c r s s' ch hs ha _ htr t c' r' before hb => ?_) (fun pend s s' e hs _ _ htr => ?_)
    t c r before h
  · have := h.length_le
    simp at this
  · rw [htr] at hb
    rcases List.suffix_cons_iff.1 hb with heq | hb
    · cases heq
      exact ha
    · exact hs t c' r' before hb
  · rw [htr]
    exact hs

/-- Every call asks once for what it needs, and gives back what it holds. -/
theorem host_orderly {ev : (c : HostCall W) → HostRes c → Option Grant}
    (hev : ∀ op h c r, Allows cfg op (callLedger h) c → (standing ev h).Follows (ev c r))
    (hr : Reach (hostSystem W cfg threads).traced (hostStart cfg meter ops s₀) C) (t : τ) :
    Orderly ev (C.shared.trace.of t) := by
  refine host_keeps (J := fun s => ∀ t, Orderly ev (s.trace.of t)) hr (fun _ => trivial)
    (fun u c r s s' ch hs ha _ htr t => ?_) (fun pend s s' e hs _ _ htr t => ?_) t
  · rw [htr]
    by_cases hu : u = t
    · subst hu
      rw [Trace.of_cons_self]
      exact ⟨hs u, hev _ _ c r ha⟩
    · rw [Trace.of_cons_ne hu]
      exact hs t
  · rw [htr]
    exact hs t

/-! ## Frames -/

omit [DecidableEq τ] in
theorem hostExec_inFlight {t : τ} {ch : HostChoice} {s s' : Host W τ} {c : HostCall W}
    {r : HostRes c} (h : hostExec cfg t ch s c = some (r, s')) (hn : slotEvent c r = none) :
    s'.inFlight = s.inFlight := by
  cases c with
  | acquireSlot => cases r <;> cases hn
  | dropSlot => cases hn
  | _ =>
    simp only [hostExec] at h
    repeat' split at h
    all_goals first | cases h; rfl | cases h

omit [DecidableEq τ] in
theorem hostExec_admission {t : τ} {ch : HostChoice} {s s' : Host W τ} {c : HostCall W}
    {r : HostRes c} (h : hostExec cfg t ch s c = some (r, s')) (hn : admissionEvent c r = none) :
    s'.admission = s.admission := by
  cases c with
  | tryAcquireMany => cases r <;> cases hn
  | releaseMany => cases hn
  | _ =>
    simp only [hostExec] at h
    repeat' split at h
    all_goals first | cases h; rfl | cases h

theorem hostEnv_frame {pend : τ → Option (HostCall W)} {s s' : Host W τ} {e : HostEvent W τ}
    (h : hostEnv threads pend s e = some s') :
    s'.inFlight = s.inFlight ∧ s'.admission = s.admission := by
  cases e with
  | start | finish =>
    obtain ⟨q, -, rfl⟩ := Option.map_eq_some_iff.1 h
    exact ⟨rfl, rfl⟩
  | tick t =>
    simp only [hostEnv] at h
    split at h <;> cases h
    exact ⟨rfl, rfl⟩

/-- A call that has begun and not ended. -/
def InProgress (C : HostConfig W τ) (t : τ) : Prop :=
  C.shared.trace.of t ≠ [] ∧ ∀ out, C.prog t ≠ .ret out

/-- A call that is not in progress holds nothing. -/
theorem holds_nothing
    (hr : Reach (hostSystem W cfg threads).traced (hostStart cfg meter ops s₀) C) {t : τ}
    (ht : ¬ InProgress C t) : (callLedger (C.shared.trace.of t)).slot ≠ .held ∧
      (callLedger (C.shared.trace.of t)).admission ≠ .held ∧
      (callLedger (C.shared.trace.of t)).permit ≠ .held := by
  by_cases hnil : C.shared.trace.of t = []
  · rw [hnil]
    show CallLedger.new.slot ≠ .held ∧ CallLedger.new.admission ≠ .held ∧ CallLedger.new.permit ≠ .held
    decide
  · have hret : ∃ out, C.prog t = .ret out := by
      by_contra h
      exact ht ⟨hnil, fun out ho => h ⟨out, ho⟩⟩
    obtain ⟨out, ho⟩ := hret
    have hf := host_final hr ho
    cases hop : ops t with
    | invoke tenant func input limits =>
      rw [hop] at hf
      cases out with
      | invoked r => exact ⟨hf.slot, hf.admission, hf.permit⟩
      | staged r => exact hf.elim
    | stage wasm =>
      rw [hop] at hf
      cases out with
      | invoked r => exact hf.elim
      | staged r => exact hf

/-! ## Schedules -/

def hostPlay (cfg : RuntimeConfig) (threads : Nat) (C : HostConfig W τ)
    (sched : List ((τ × HostChoice) ⊕ HostEvent W τ)) : Option (HostConfig W τ) :=
  C.playEnv (tracing fun ch _ t s c => hostExec cfg t ch s c)
    (fun e pend s => (hostEnv threads pend s.state e).map fun st => ⟨st, s.trace⟩) sched

theorem hostPlay_reach {C C' : HostConfig W τ} {sched : List ((τ × HostChoice) ⊕ HostEvent W τ)}
    (h : hostPlay cfg threads C sched = some C') :
    Reach (hostSystem W cfg threads).traced C C' := by
  refine playEnv_reach (tracing_sound (S := hostSystem W cfg threads)
    fun ch pend t s c r s' hx => ⟨ch, hx⟩) (fun e pend s s' he => ?_) h
  obtain ⟨st, hst, rfl⟩ := Option.map_eq_some_iff.1 he
  exact ⟨⟨e, hst⟩, rfl⟩

end

/-- A runtime of 3 MiB that takes `perTenant` calls of a tenant at a time. -/
def smallRuntime (perTenant : Usize) : RuntimeConfig := ⟨3 * MIB, perTenant, 16, 1, 1⟩

def smallHost : Host Wasm.plain Bool := ⟨fun _ => none, 3, 1, .new, fun _ => 0⟩

/-- Two calls of one function, each with a cap of 1.5 MiB. -/
def twoInvokes : Bool → HostOp := fun _ => .invoke ['t'] ['f'] [] ⟨100, 1536 * 1024, []⟩

/-- Every lookup finds its component in memory. -/
def hitResult : (j : Job) → j.Out Wasm.plain
  | ⟨.lookup _ _, _⟩ => .ok (.ok (.hit []))
  | _ => .error ⟨""⟩

def HostChoice.go : HostChoice := ⟨false, ⟨.ok [], 0⟩, 0⟩

def HostChoice.drop : HostChoice := ⟨true, ⟨.ok [], 0⟩, 0⟩

end Warpline
