import Warpline.Conc.Linear
import Warpline.Storefront.Proof.KvTx

/-!
# The Postgres store is linearizable

Any number of `get`s and `put`s of any number of processes, whatever statements fail and whatever
transactions the server ends: the calls agree with `MemKv` called one at a time, in an order that
keeps the order of calls that do not overlap. A `get` takes effect at its `SELECT`, a refused `put`
where it adds up the rows, any other `put` at its commit.

The invariant (`KvInv`) relates the rows to the entries of the `MemKv` the operations so far lead
to. A `put` that has added up the rows has them unchanged until its commit (`Counted`), so it is
accepted where `MemKv` accepts it.
-/

set_option autoImplicit false

namespace Warpline

open Conc

/-! ## The order -/

def storeFailed : (op : KvCall) → Str → KvRes op
  | .get _ _, e => .error (backend e)
  | .put _ _ _, e => .error (backend e)

/-- What `op` comes to, once statement `c` of it is answered `r`. -/
def PgKv.settles (kv : PgKv) : (op : KvCall) → (c : PgKvCall) → PgKvRes c → Option (KvRes op)
  | .get _ _, .selectValue _ _, r => some (r.mapError backend)
  | .put _ key value, .sums _ _ _, .ok (used, old) =>
    (kv.overQuota key value used old).map .error
  | .put _ _ _, .commit, r => some (r.mapError backend)
  | .put _ _ _, .beginTx, .error e => some (.error (backend e))
  | .put _ _ _, .lockTenant _, .error e => some (.error (backend e))
  | .put _ _ _, .sums _ _ _, .error e => some (.error (backend e))
  | .put _ _ _, .upsert _ _ _, .error e => some (.error (backend e))
  | _, _, _ => none

/-- A call of `MemKv`, over a storage that may fail. -/
abbrev KvAnswered (op : KvCall) : MemKv → KvRes op → MemKv → Prop :=
  AnsweredBy (fun m => m.answer op) fun g => ∃ e, g = storeFailed op e

/-- The entries of a `MemKv` are the rows. -/
def Stores {τ : Type} (cap : Nat) (m : MemKv) (db : KvDb τ) : Prop :=
  m.entries = db.rows ∧ m.Exact cap

/-! ## The quota check -/

/-- What `HostCtx` lets a guest store. -/
def Storable (key : Str) (value : List UInt8) : Prop :=
  Str.utf8Len key ≤ MAX_KV_KEY_BYTES ∧ value.length ≤ MAX_KV_VALUE_BYTES

section
variable {key : Str} {value : List UInt8}

theorem Storable.cost_lt (h : Storable key value) : MemKv.cost key value < 2 ^ 62 := by
  obtain ⟨hk, hv⟩ := h
  unfold MAX_KV_KEY_BYTES at hk
  unfold MAX_KV_VALUE_BYTES at hv
  unfold MemKv.cost ENTRY_OVERHEAD_BYTES
  omega

theorem Storable.entryCost (h : Storable key value) :
    entryCost key value = MemKv.cost key value := by
  have hc := h.cost_lt
  unfold MemKv.cost at hc ⊢
  have h1 : I64.saturatingAdd ENTRY_OVERHEAD_BYTES (Str.utf8Len key : Nat) =
      (ENTRY_OVERHEAD_BYTES + Str.utf8Len key : Nat) := by
    rw [Nat.cast_add]
    exact I64.saturatingAdd_of_fits (by rw [← Nat.cast_add]; exact I64.fits_natCast (by omega))
  unfold Warpline.entryCost
  rw [I64.ofUsize_of_lt (by omega), I64.ofUsize_of_lt (by omega), h1, Nat.cast_add _ value.length]
  exact I64.saturatingAdd_of_fits (by rw [← Nat.cast_add]; exact I64.fits_natCast (by omega))

/-- On sums within the cap nothing wraps: the check is that of `MemKv`. -/
theorem PgKv.overQuota_eq {kv : PgKv} {cap used old : Nat} (hkv : kv.tenantCapBytes = cap)
    (hcap : cap < 2 ^ 62) (h : Storable key value) (hu : used ≤ cap) (ho : old ≤ used) :
    kv.overQuota key value used old =
      if cap < used - old + MemKv.cost key value then
        some (.quotaExceeded used (MemKv.cost key value) cap)
      else none := by
  have hc := h.cost_lt
  have hsub : I64.sub used old = (used - old : Nat) := by
    rw [Nat.cast_sub ho]
    exact I64.sub_of_fits (by rw [← Nat.cast_sub ho]; exact I64.fits_natCast (by omega))
  have hadd : I64.add (used - old : Nat) (MemKv.cost key value : Nat) =
      (used - old + MemKv.cost key value : Nat) := by
    rw [Nat.cast_add]
    exact I64.add_of_fits (by rw [← Nat.cast_add]; exact I64.fits_natCast (by omega))
  unfold PgKv.overQuota
  simp only [h.entryCost, hkv, hsub, hadd, Nat.cast_lt]
  rw [I64.toUsize_natCast (by omega), I64.toUsize_natCast (by omega),
    I64.toUsize_natCast (by omega)]

end

/-! ## The invariant -/

abbrev KvState (τ : Type) := Traced τ (KvDb τ) PgKvCall PgKvRes

section
variable {τ : Type} [DecidableEq τ] {hash : Str → Int} {kv : PgKv} {calls : τ → KvCall} {cap : Nat}
  {m₀ : MemKv}

/-- The stored values are those of the calls that have settled, in their order. -/
structure KvInv (hash : Str → Int) (kv : PgKv) (calls : τ → KvCall) (cap : Nat) (m₀ : MemKv)
    (s : KvState τ) : Prop where
  guarded : KvGuarded hash s.state
  linear : Linear (fun t => kv.settles (calls t)) (fun m t => KvAnswered (calls t) m) m₀
    (Stores cap) s

def kvThread (hash : Str → Int) (kv : PgKv) (calls : τ → KvCall) (cap : Nat) (m₀ : MemKv) (t : τ) :
    Thread (KvState τ) PgKvCall PgKvRes where
  exec := fun s c r s' => KvInv hash kv calls cap m₀ s ∧
    (∃ ch, KvDb.exec hash t ch s.state c = some (r, s'.state)) ∧ s'.trace = (t, ⟨c, r⟩) :: s.trace
  rely := fun _ s s' => Trace.of t s'.trace = Trace.of t s.trace ∧ KvTxKept hash t s.state s'.state
  guar := fun _ s s' => KvInv hash kv calls cap m₀ s' ∧ ∀ v, v ≠ t →
    Trace.of v s'.trace = Trace.of v s.trace ∧ KvTxKept hash v s.state s'.state

/-! ## One statement -/

variable {t : τ} {op : KvCall} {c : PgKvCall} {r : PgKvRes c} {s s' : KvState τ}

/-- What is to be shown of a statement: that the order still leads to the rows. -/
theorem kv_step (he : (kvThread hash kv calls cap m₀ t).exec s c r s')
    (hw : ∀ tenant key value, c = .upsert tenant key value → ∀ writes,
      s.state.txs t = some writes → s.state.locks (hash tenant) = some t)
    (hl : Linear (fun t => kv.settles (calls t)) (fun m t => KvAnswered (calls t) m) m₀
      (Stores cap) s') :
    (kvThread hash kv calls cap m₀ t).guar c s s' := by
  obtain ⟨hinv, ⟨ch, hx⟩, htr⟩ := he
  have hc := KvDb.exec_change hx
  refine ⟨⟨hc.guarded hinv.guarded fun _ _ _ writes h => hw _ _ _ h writes, hl⟩, fun v hv => ⟨?_, ?_⟩⟩
  · rw [htr, Trace.of_cons_ne (Ne.symm hv)]
  · exact hc.txKept hinv.guarded hv

/-- What thread `t`'s statements say of its call. -/
def KvSettled (kv : PgKv) (op : KvCall) (t : τ) (g : Option (KvRes op)) (s : KvState τ) : Prop :=
  first (kv.settles op) (Trace.of t s.trace) = g

theorem kvSettled_stable {c : Option PgKvCall} (g : Option (KvRes op)) :
    (kvThread hash kv calls cap m₀ t).Stable c (KvSettled kv op t g) := by
  intro s s' h hr
  unfold KvSettled
  rw [hr.1]
  exact h

theorem kvSettled_cons (he : (kvThread hash kv calls cap m₀ t).exec s c r s')
    (hu : KvSettled kv op t none s) : KvSettled kv op t (kv.settles op c r) s' := by
  unfold KvSettled at hu ⊢
  rw [he.2.2, Trace.of_cons_self, first_cons, hu, Option.none_or]

/-- A statement that settles nothing leaves the rows. -/
theorem kv_quiet (hop : calls t = op) (he : (kvThread hash kv calls cap m₀ t).exec s c r s')
    (hw : ∀ tenant key value, c = .upsert tenant key value → ∀ writes,
      s.state.txs t = some writes → s.state.locks (hash tenant) = some t)
    (hs : kv.settles op c r = none) (hrows : s'.state.rows = s.state.rows) :
    (kvThread hash kv calls cap m₀ t).guar c s s' := by
  subst hop
  refine kv_step he hw (he.1.linear.keep ?_ fun m hm => ⟨hm.1.trans hrows.symm, hm.2⟩)
  rw [he.2.2]
  exact effects_none hs

/-- A statement after the one that settled the call. -/
theorem kv_after (hop : calls t = op) (he : (kvThread hash kv calls cap m₀ t).exec s c r s')
    (hw : ∀ tenant key value, c = .upsert tenant key value → ∀ writes,
      s.state.txs t = some writes → s.state.locks (hash tenant) = some t)
    {g : KvRes op} (hs : KvSettled kv op t (some g) s) (hrows : s'.state.rows = s.state.rows) :
    (kvThread hash kv calls cap m₀ t).guar c s s' ∧ KvSettled kv op t (some g) s' := by
  subst hop
  unfold KvSettled at hs ⊢
  refine ⟨kv_step he hw (he.1.linear.keep ?_ fun m hm => ⟨hm.1.trans hrows.symm, hm.2⟩), ?_⟩
  · rw [he.2.2]
    exact effects_done _ hs
  · rw [he.2.2, Trace.of_cons_self, first_cons, hs, Option.some_or]

/-- The statement that settles the call. -/
theorem kv_point (hop : calls t = op) (he : (kvThread hash kv calls cap m₀ t).exec s c r s')
    (hw : ∀ tenant key value, c = .upsert tenant key value → ∀ writes,
      s.state.txs t = some writes → s.state.locks (hash tenant) = some t)
    (hu : KvSettled kv op t none s) {g : KvRes op} (hs : kv.settles op c r = some g)
    (hstep : ∀ m, Stores cap m s.state → ∃ m', KvAnswered op m g m' ∧ Stores cap m' s'.state) :
    (kvThread hash kv calls cap m₀ t).guar c s s' ∧ KvSettled kv op t (some g) s' := by
  subst hop
  exact ⟨kv_step he hw (he.1.linear.point he.2.2 hu hs hstep), hs ▸ kvSettled_cons he hu⟩

/-- A call that has failed has changed nothing. -/
theorem kv_failed (hop : calls t = op) (he : (kvThread hash kv calls cap m₀ t).exec s c r s')
    (hw : ∀ tenant key value, c = .upsert tenant key value → ∀ writes,
      s.state.txs t = some writes → s.state.locks (hash tenant) = some t)
    (hu : KvSettled kv op t none s) {e : Str} (hs : kv.settles op c r = some (storeFailed op e))
    (hrows : s'.state.rows = s.state.rows) :
    (kvThread hash kv calls cap m₀ t).guar c s s' ∧
      KvSettled kv op t (some (storeFailed op e)) s' :=
  kv_point hop he hw hu hs fun m hm => ⟨m, .failed ⟨e, rfl⟩, hm.1.trans hrows.symm, hm.2⟩

theorem sat_kvQuery {Q : Except KvError (PgKvOk c) → KvState τ → Prop} (P : KvState τ → Prop)
    (hst : (kvThread hash kv calls cap m₀ t).Stable (some c) P) (hP : P s)
    (h : ∀ s₁ r s₂, P s₁ → (kvThread hash kv calls cap m₀ t).exec s₁ c r s₂ →
      (kvThread hash kv calls cap m₀ t).guar c s₁ s₂ ∧ Q (r.mapError backend) s₂) :
    Sat (kvThread hash kv calls cap m₀ t) Q (kvQuery c).run s :=
  .mapErr (.perform P hst hP h)

/-! ## `get` -/

theorem sat_kvGet {tenant key : Str} (hop : calls t = .get tenant key)
    (hu : KvSettled kv (.get tenant key) t none s) :
    Sat (kvThread hash kv calls cap m₀ t)
      (fun r => KvSettled kv (.get tenant key) t (some r)) (PgKv.get tenant key).run s := by
  refine sat_kvQuery _ (kvSettled_stable none) hu fun s₁ r s₂ hu he => ?_
  obtain ⟨ch, hx⟩ := he.2.1
  obtain ⟨hr, hdb⟩ := KvDb.exec_selectValue hx
  have hrows : s₂.state.rows = s₁.state.rows := by rw [hdb]
  refine kv_point hop he (by simp) hu rfl fun m hm => ?_
  obtain rfl | ⟨e, rfl⟩ := hr
  · refine ⟨m, ?_, hm.1.trans hrows.symm, hm.2⟩
    rw [← hm.1]
    exact .answered m
  · exact ⟨m, .failed ⟨e, rfl⟩, hm.1.trans hrows.symm, hm.2⟩

/-! ## `put` -/

/-- There is room for the row under the quota. -/
def KvFits (cap : Nat) (tenant key : Str) (value : List UInt8) (rows : HookKv) : Prop :=
  MemKv.storedBytes rows tenant - rows.costOf tenant key + MemKv.cost key value ≤ cap

/-- `t`'s transaction, if it is still open, has written `writes`, has its tenant's lock and finds
rows with `F`. -/
structure InTx (hash : Str → Int) (kv : PgKv) (op : KvCall) (t : τ) (tenant : Str)
    (writes : List KvRow) (F : HookKv → Prop) (s : KvState τ) : Prop where
  unsettled : KvSettled kv op t none s
  tx : ∀ ws, s.state.txs t = some ws →
    ws = writes ∧ s.state.locks (hash tenant) = some t ∧ F s.state.rows

variable {tenant key : Str} {value : List UInt8} {writes : List KvRow} {F : HookKv → Prop}

theorem InTx.stable {c : Option PgKvCall}
    (hF : ∀ rows rows', SameRows tenant rows rows' → F rows → F rows') :
    (kvThread hash kv calls cap m₀ t).Stable c (InTx hash kv op t tenant writes F) := by
  intro s s' h hr
  refine ⟨kvSettled_stable none _ _ h.unsettled hr, fun ws hws => ?_⟩
  obtain ⟨hws', hkept⟩ := hr.2 ws hws
  obtain ⟨hw, hl, hf⟩ := h.tx ws hws'
  obtain ⟨hl', hsame⟩ := hkept tenant hl
  exact ⟨hw, hl', hF _ _ hsame hf⟩

theorem kvFits_same (rows rows' : HookKv) (h : SameRows tenant rows rows')
    (hf : KvFits cap tenant key value rows) : KvFits cap tenant key value rows' := by
  unfold KvFits HookKv.costOf
  rw [h.stored, h.value]
  exact hf

omit [DecidableEq τ] in
/-- What `MemKv` does with a row there is room for. -/
theorem Stores.put {m : MemKv} {db : KvDb τ} (h : Stores cap m db)
    (hf : KvFits cap tenant key value db.rows) :
    (m.put tenant key value).1 = .ok () ∧
      (m.put tenant key value).2.entries = db.rows.insert (tenant, key) value ∧
      (m.put tenant key value).2.Exact cap := by
  obtain ⟨hrows, hex⟩ := h
  have hle : m.used tenant - m.oldCost tenant key + MemKv.cost key value ≤ cap := by
    rw [hex.used, hrows]
    unfold MemKv.oldCost
    rw [hrows]
    exact hf
  refine ⟨?_, ?_, hex.step (c := .put tenant key value) rfl⟩
  all_goals
    obtain ⟨hlt, -⟩ | ⟨-, heq⟩ := m.put_spec tenant key value
    · rw [hex.tenantCap] at hlt
      omega
    · simp [heq, hrows]

omit [DecidableEq τ] in
theorem Stores.put_refused {m : MemKv} {db : KvDb τ} (h : Stores cap m db)
    (hf : ¬ KvFits cap tenant key value db.rows) :
    m.put tenant key value = (.error (.quotaExceeded (MemKv.storedBytes db.rows tenant)
      (MemKv.cost key value) cap), m) := by
  obtain ⟨hrows, hex⟩ := h
  have hlt : cap < m.used tenant - m.oldCost tenant key + MemKv.cost key value := by
    rw [hex.used, hrows]
    unfold MemKv.oldCost
    rw [hrows]
    exact Nat.not_le.1 hf
  obtain ⟨-, heq⟩ | ⟨hle, -⟩ := m.put_spec tenant key value
  · rw [heq, hex.used, hex.tenantCap, hrows]
  · rw [hex.tenantCap] at hle
    omega

/-- A statement of the transaction that fails. -/
theorem kv_error (hop : calls t = .put tenant key value)
    (he : (kvThread hash kv calls cap m₀ t).exec s c r s')
    (hw : ∀ tenant key value, c = .upsert tenant key value → ∀ writes,
      s.state.txs t = some writes → s.state.locks (hash tenant) = some t)
    (hu : KvSettled kv (.put tenant key value) t none s) {e : Str}
    (hs : kv.settles (.put tenant key value) c r = some (.error (backend e)))
    (hdb : s'.state = s.state) :
    (kvThread hash kv calls cap m₀ t).guar c s s' ∧
      KvSettled kv (.put tenant key value) t (some (.error (backend e))) s' :=
  kv_failed hop he hw hu hs (by rw [hdb])

theorem sat_dropKvTx (hop : calls t = op) {g : KvRes op} (hs : KvSettled kv op t (some g) s) :
    Sat (kvThread hash kv calls cap m₀ t) (fun _ => KvSettled kv op t (some g)) dropKvTx s := by
  refine .bind (.perform _ (kvSettled_stable _) hs fun s₁ r s₂ hs he => ?_)
  obtain ⟨ch, hx⟩ := he.2.1
  exact kv_after hop he (by simp) hs (by rw [KvDb.exec_rollback hx]; rfl)

theorem sat_kvLock (hop : calls t = .put tenant key value)
    (hu : KvSettled kv (.put tenant key value) t none s)
    (htx : ∀ ws, s.state.txs t = some ws → ws = []) :
    Sat (kvThread hash kv calls cap m₀ t) (fun r s => match r with
      | .ok _ => InTx hash kv (.put tenant key value) t tenant [] (fun _ => True) s
      | .error e => KvSettled kv (.put tenant key value) t (some (.error e)) s)
      (kvQuery (.lockTenant tenant)).run s := by
  have hst : (kvThread hash kv calls cap m₀ t).Stable (some (.lockTenant tenant))
      fun s => KvSettled kv (.put tenant key value) t none s ∧ ∀ ws, s.state.txs t = some ws → ws = [] :=
    (kvSettled_stable none).and fun s s' h hr ws hws => h ws (hr.2 ws hws).1
  refine sat_kvQuery _ hst ⟨hu, htx⟩ fun s₁ r s₂ hboth he => ?_
  obtain ⟨hu, htx⟩ := hboth
  obtain ⟨ch, hx⟩ := he.2.1
  obtain ⟨-, rfl, hdb⟩ | ⟨⟨e, rfl⟩, hdb⟩ := KvDb.exec_lockTenant hx
  · refine ⟨kv_quiet hop he (by simp) rfl (by rw [hdb]; rfl), kvSettled_cons he hu, fun ws hws => ?_⟩
    rw [hdb] at hws ⊢
    exact ⟨htx ws hws, Function.update_self _ _ _, trivial⟩
  · exact kv_error hop he (by simp) hu rfl hdb

/-- The sums decide as `MemKv` does. -/
theorem sat_kvSums (hkv : kv.tenantCapBytes = cap) (hcap : cap < 2 ^ 62) (hv : Storable key value)
    (hop : calls t = .put tenant key value)
    (h : InTx hash kv (.put tenant key value) t tenant [] (fun _ => True) s) :
    Sat (kvThread hash kv calls cap m₀ t) (fun r s => match r with
      | .ok q => match kv.overQuota key value q.1 q.2 with
        | some e => KvSettled kv (.put tenant key value) t (some (.error e)) s
        | none => InTx hash kv (.put tenant key value) t tenant [] (KvFits cap tenant key value) s
      | .error e => KvSettled kv (.put tenant key value) t (some (.error e)) s)
      (kvQuery (.sums tenant key ENTRY_OVERHEAD_BYTES)).run s := by
  refine sat_kvQuery _ (InTx.stable fun _ _ _ h => h) h fun s₁ r s₂ h he => ?_
  obtain ⟨ch, hx⟩ := he.2.1
  obtain ⟨⟨ws, q, hws, hq, rfl⟩ | ⟨e, rfl⟩, hdb⟩ := KvDb.exec_sums hx
  · obtain ⟨rfl, hlock, -⟩ := h.tx ws hws
    obtain ⟨m, -, hm⟩ := he.1.linear
    have hused : MemKv.storedBytes s₁.state.rows tenant ≤ cap := hm.1 ▸ hm.2.within tenant
    have hold : s₁.state.rows.costOf tenant key ≤ MemKv.storedBytes s₁.state.rows tenant :=
      hm.1 ▸ m.oldCost_le_storedBytes tenant key
    have hqe : q = ((MemKv.storedBytes s₁.state.rows tenant : Int),
        (s₁.state.rows.costOf tenant key : Int)) := by
      have hvis : s₁.state.visible [] = s₁.state.rows := rfl
      simp only [KvDb.sumsOf, hvis, HookKv.sum_tenant, HookKv.sum_key] at hq
      rw [if_pos ⟨I64.fits_natCast (by omega), I64.fits_natCast (by omega)⟩] at hq
      exact (Option.some.inj hq).symm
    subst hqe
    have hover := PgKv.overQuota_eq hkv hcap hv hused hold
    have hset : kv.settles (.put tenant key value) (.sums tenant key ENTRY_OVERHEAD_BYTES)
        (.ok ((MemKv.storedBytes s₁.state.rows tenant : Int), (s₁.state.rows.costOf tenant key : Int))) =
        (kv.overQuota key value (MemKv.storedBytes s₁.state.rows tenant)
          (s₁.state.rows.costOf tenant key)).map .error := rfl
    by_cases hf : KvFits cap tenant key value s₁.state.rows
    · rw [if_neg (Nat.not_lt.2 hf)] at hover
      rw [hover] at hset
      have hq := kv_quiet hop he (by simp) hset (by rw [hdb])
      have hu := kvSettled_cons he h.unsettled
      rw [hset] at hu
      refine ⟨hq, ?_⟩
      simp only [Except.mapError, hover]
      refine ⟨hu, fun ws hws' => ?_⟩
      rw [hdb] at hws' ⊢
      rw [hws] at hws'
      exact ⟨(Option.some.inj hws').symm, hlock, hf⟩
    · rw [if_pos (Nat.not_le.1 hf)] at hover
      rw [hover] at hset
      have hp := kv_point hop he (by simp) h.unsettled hset fun m hm => by
        refine ⟨m, ?_, by rw [hdb]; exact hm⟩
        have ha : KvAnswered (.put tenant key value) m _ _ := .answered m
        have hput : m.answer (.put tenant key value) = m.put tenant key value := rfl
        rw [hput, hm.put_refused hf] at ha
        exact ha
      simpa only [Except.mapError, hover] using hp
  · exact kv_error hop he (by simp) h.unsettled rfl hdb

theorem sat_kvUpsert (hop : calls t = .put tenant key value)
    (h : InTx hash kv (.put tenant key value) t tenant [] (KvFits cap tenant key value) s) :
    Sat (kvThread hash kv calls cap m₀ t) (fun r s => match r with
      | .ok _ => InTx hash kv (.put tenant key value) t tenant [⟨tenant, key, value⟩]
          (KvFits cap tenant key value) s
      | .error e => KvSettled kv (.put tenant key value) t (some (.error e)) s)
      (kvQuery (.upsert tenant key value)).run s := by
  refine sat_kvQuery _ (InTx.stable kvFits_same) h fun s₁ r s₂ h he => ?_
  have hw : ∀ tenant' key' value', PgKvCall.upsert tenant key value = .upsert tenant' key' value' →
      ∀ ws, s₁.state.txs t = some ws → s₁.state.locks (hash tenant') = some t := by
    intro _ _ _ heq ws hws
    cases heq
    exact (h.tx ws hws).2.1
  obtain ⟨ch, hx⟩ := he.2.1
  obtain ⟨ws, hws, rfl, hdb⟩ | ⟨⟨e, rfl⟩, hdb⟩ := KvDb.exec_upsert hx
  · refine ⟨kv_quiet hop he hw rfl (by rw [hdb]; rfl), kvSettled_cons he h.unsettled, fun ws' hws' => ?_⟩
    obtain ⟨rfl, hlock, hf⟩ := h.tx ws hws
    rw [hdb] at hws' ⊢
    simp only [KvDb.write, Function.update_self, Option.some.injEq, List.nil_append] at hws'
    exact ⟨hws'.symm, hlock, hf⟩
  · exact kv_error hop he hw h.unsettled rfl hdb

theorem sat_kvCommit (hop : calls t = .put tenant key value)
    (h : InTx hash kv (.put tenant key value) t tenant [⟨tenant, key, value⟩]
      (KvFits cap tenant key value) s) :
    Sat (kvThread hash kv calls cap m₀ t)
      (fun r => KvSettled kv (.put tenant key value) t (some r)) (kvQuery .commit).run s := by
  refine sat_kvQuery _ (InTx.stable kvFits_same) h fun s₁ r s₂ h he => ?_
  obtain ⟨ch, hx⟩ := he.2.1
  obtain ⟨ws, hws, hdb⟩ | ⟨⟨e, rfl⟩, hdb⟩ := KvDb.exec_commit hx
  · obtain ⟨rfl, -, hf⟩ := h.tx ws hws
    have hrows : s₂.state.rows = s₁.state.rows.insert (tenant, key) value := by
      rw [hdb]
      rfl
    refine kv_point hop he (by simp) h.unsettled rfl fun m hm => ?_
    obtain ⟨hok, hent, hex⟩ := hm.put hf
    refine ⟨(m.put tenant key value).2, ?_, hent.trans hrows.symm, hex⟩
    cases r with
    | ok u =>
      have ha : KvAnswered (.put tenant key value) m _ _ := .answered m
      have hans : (m.answer (.put tenant key value)).1 = .ok () := hok
      rw [hans] at ha
      exact ha
    | error e => exact .lost ⟨e, rfl⟩
  · have hrows : s₂.state.rows = s₁.state.rows := by
      obtain hdb | hdb := hdb
      · rw [hdb]
        rfl
      · rw [hdb]
    exact kv_failed hop he (by simp) h.unsettled rfl hrows

/-- The section of the transaction up to the commit, and its rollback when it fails. -/
theorem sat_putSection (hkv : kv.tenantCapBytes = cap) (hcap : cap < 2 ^ 62)
    (hv : Storable key value) (hop : calls t = .put tenant key value)
    (hu : KvSettled kv (.put tenant key value) t none s)
    (htx : ∀ ws, s.state.txs t = some ws → ws = []) :
    Sat (kvThread hash kv calls cap m₀ t) (fun r s => match r with
      | .ok _ => InTx hash kv (.put tenant key value) t tenant [⟨tenant, key, value⟩]
          (KvFits cap tenant key value) s
      | .error e => KvSettled kv (.put tenant key value) t (some (.error e)) s)
      (kv.putSection tenant key value).run s := by
  refine .bindE ((sat_kvLock hop hu htx).mono fun r s h => ?_)
  cases r with
  | error e => exact h
  | ok u =>
    refine .bindE ((sat_kvSums hkv hcap hv hop h).mono fun r s h => ?_)
    cases r with
    | error e => exact h
    | ok q =>
      obtain ⟨used, old⟩ := q
      cases hover : kv.overQuota key value used old with
      | some e =>
        simp only [hover] at h ⊢
        exact h
      | none =>
        simp only [hover] at h ⊢
        refine (sat_kvUpsert hop h).mono fun r s h => ?_
        cases r with
        | ok u => exact h
        | error e => exact h

theorem sat_kvPut (hkv : kv.tenantCapBytes = cap) (hcap : cap < 2 ^ 62) (hv : Storable key value)
    (hop : calls t = .put tenant key value) (hu : KvSettled kv (.put tenant key value) t none s) :
    Sat (kvThread hash kv calls cap m₀ t)
      (fun r => KvSettled kv (.put tenant key value) t (some r)) (kv.put tenant key value).run s := by
  refine .bindE (sat_kvQuery _ (kvSettled_stable none) hu fun s₁ r s₂ hu he => ?_)
  obtain ⟨ch, hx⟩ := he.2.1
  obtain ⟨-, rfl, hdb⟩ | ⟨⟨e, rfl⟩, hdb⟩ := KvDb.exec_beginTx hx
  · refine ⟨kv_quiet hop he (by simp) rfl (by rw [hdb]; rfl), ?_⟩
    have htx : ∀ ws, s₂.state.txs t = some ws → ws = [] := by
      intro ws hws
      rw [hdb] at hws
      simpa [KvDb.openTx, eq_comm] using hws
    refine .bindE (.onError ((sat_putSection hkv hcap hv hop (kvSettled_cons he hu) htx).mono
      fun r s h => ?_))
    cases r with
    | ok u => exact sat_kvCommit hop h
    | error e => exact sat_dropKvTx hop h
  · exact kv_error hop he (by simp) hu rfl hdb

theorem sat_kvAnswer (hkv : kv.tenantCapBytes = cap) (hcap : cap < 2 ^ 62)
    (hv : ∀ tenant key value, op = .put tenant key value → Storable key value)
    (hop : calls t = op) (hu : KvSettled kv op t none s) :
    Sat (kvThread hash kv calls cap m₀ t) (fun r => KvSettled kv op t (some r)) (kv.answer op) s := by
  cases op with
  | get tenant key => exact sat_kvGet hop hu
  | put tenant key value => exact sat_kvPut hkv hcap (hv _ _ _ rfl) hop hu

/-! ## All calls together -/

theorem kv_compatible : Compatible (pgKvSystem hash).traced (kvThread hash kv calls cap m₀)
    (KvInv hash kv calls cap m₀) where
  exec := fun _ _ _ _ _ _ _ hJ he => ⟨hJ, he⟩
  guar := fun _ _ u _ _ _ _ hne _ _ _ hg => hg.2 u (Ne.symm hne)
  env := by
    intro pend u s s' hJ he
    obtain ⟨⟨v, hdb⟩, htr⟩ := he
    exact ⟨by rw [htr], hdb ▸ kvTxKept_endTx (fun tenant _ => .refl tenant _) v⟩
  inv := fun _ _ _ _ _ hg => hg.1
  envInv := by
    intro pend s s' hJ he
    obtain ⟨⟨v, hdb⟩, htr⟩ := he
    refine ⟨hdb ▸ hJ.guarded.endTx v _, hJ.linear.keep (by rw [htr]) fun m hm => ?_⟩
    exact ⟨hm.1.trans (by rw [hdb]; rfl), hm.2⟩

end

/-- **The Postgres store is linearizable.** Calls of any number of processes over one table that
starts with the entries of a `MemKv` within the quota: whatever statements fail and whatever
transactions the server ends, they agree with `MemKv` called one at a time, but for calls answered
with the failure of the storage, which may or may not have been carried out; and no tenant's rows
ever cost more than the quota. -/
theorem pgKv_linearizable {τ : Type} [DecidableEq τ] (hash : Str → Int) (capBytes : Usize)
    (calls : τ → KvCall) (m₀ : MemKv)
    (C C' : Config τ (KvState τ) PgKvCall PgKvRes fun t => KvRes (calls t))
    (hcap : capBytes.toNat < 2 ^ 62)
    (hcalls : ∀ t tenant key value, calls t = .put tenant key value → Storable key value)
    (hm₀ : m₀.Exact capBytes.toNat) (hstart : C.shared = ⟨KvDb.ofRows m₀.entries, []⟩)
    (hprog : ∀ t, C.prog t = (PgKv.new capBytes).answer (calls t))
    (hr : Reach (pgKvSystem hash).traced C C') :
    Linearizable (pgKvSystem hash) (fun t => (PgKv.new capBytes).settles (calls t))
        (fun m t => KvAnswered (calls t) m) m₀ (Stores capBytes.toNat)
        (fun _ _ => False) C' ∧
      ∀ tenant, MemKv.storedBytes C'.shared.state.rows tenant ≤ capBytes.toNat := by
  have hkv : (PgKv.new capBytes).tenantCapBytes = capBytes.toNat := by
    unfold PgKv.new i64OfUsize
    exact if_pos (by omega)
  have hJ : KvInv hash (PgKv.new capBytes) calls capBytes.toNat m₀ C.shared := by
    rw [hstart]
    refine ⟨fun u writes h => ?_, m₀, .nil, rfl, hm₀⟩
    cases h
  have hsat : ∀ t, Sat (kvThread hash (PgKv.new capBytes) calls capBytes.toNat m₀ t)
      (fun r => KvSettled (PgKv.new capBytes) (calls t) t (some r)) (C.prog t) C.shared := by
    intro t
    rw [hprog]
    exact sat_kvAnswer hkv hcap (hcalls t) rfl (by rw [hstart]; rfl)
  have hq : ∀ t (r : KvRes (calls t)),
      (kvThread hash (PgKv.new capBytes) calls capBytes.toNat m₀ t).Stable none
        (KvSettled (PgKv.new capBytes) (calls t) t (some r)) := fun t r => kvSettled_stable _
  obtain ⟨hJ', hsat'⟩ := hr.sat kv_compatible hq hJ hsat
  refine ⟨hJ'.linear.linearizable fun t r hret => ?_, fun tenant => ?_⟩
  · have h := hsat' t
    rw [hret] at h
    exact .inl h
  · obtain ⟨m, -, hrows, hex⟩ := hJ'.linear
    exact hrows ▸ hex.within tenant

/-- A `put` and a `get` of one key. -/
def putAndGet : Bool → KvCall
  | true => .put ['a'] ['k'] [1]
  | false => .get ['a'] ['k']

/-- The `get` reads before the `put` commits. -/
theorem pgKv_linearizable_two :
    ∃ C' : Config Bool (KvState Bool) PgKvCall PgKvRes fun t => KvRes (putAndGet t),
      (C'.prog true).result = some (.ok ()) ∧ (C'.prog false).result = some (.ok none) ∧
      C'.shared.state.rows.lookup (['a'], ['k']) = some [1] ∧
      Linearizable (pgKvSystem fun _ => 0) (fun t => (PgKv.new 1048576).settles (putAndGet t))
        (fun m t => KvAnswered (putAndGet t) m) (MemKv.withCapacityBytes 1048576)
        (Stores 1048576) (fun _ _ => False) C' := by
  let ok : KvChoice := ⟨false, [], false⟩
  let C : Config Bool (KvState Bool) PgKvCall PgKvRes fun t => KvRes (putAndGet t) :=
    ⟨⟨KvDb.ofRows ∅, []⟩, fun t => (PgKv.new 1048576).answer (putAndGet t)⟩
  obtain ⟨C', hplay, hput, hget, hrow⟩ : ∃ C',
      C.play (tracing fun ch _ t db c => KvDb.exec (fun _ => 0) t ch db c)
        [(true, ok), (true, ok), (true, ok), (true, ok), (false, ok), (true, ok)] = some C' ∧
      (C'.prog true).result = some (.ok ()) ∧ (C'.prog false).result = some (.ok none) ∧
      C'.shared.state.rows.lookup (['a'], ['k']) = some [1] := ⟨_, rfl, rfl, rfl, rfl⟩
  have hr : Reach (pgKvSystem fun _ => 0).traced C C' := by
    refine play_reach (tracing_sound (S := pgKvSystem fun _ => 0) ?_) hplay
    exact fun ch _ t db c r db' h => ⟨ch, h⟩
  have hcalls : ∀ t tenant key value, putAndGet t = .put tenant key value → Storable key value := by
    intro t tenant key value h
    cases t with
    | true =>
      cases h
      exact ⟨by decide, by decide⟩
    | false => cases h
  exact ⟨C', hput, hget, hrow, (pgKv_linearizable (fun _ => 0) 1048576 putAndGet
    (MemKv.withCapacityBytes 1048576) C C' (by decide) hcalls (MemKv.Exact.new _) rfl
    (fun _ => rfl) hr).1⟩

end Warpline
