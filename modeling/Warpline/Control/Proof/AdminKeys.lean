import Warpline.Control.Admin
import Warpline.Pg.Proof.AdminMerge

/-!
# The keys the admin API issues

A request has the effect of one call of `patch_tenant`, or none (`AdminEvent.asOp`), and none
without the admin token. So the tables are those of a run of calls, and hold the hashes of the keys
issued and no others (`KeyInv`): the authenticator's query finds a token's row exactly if the token
has been issued.
-/

set_option autoImplicit false

namespace Warpline

/-! ## The token -/

theorem foldl_xor_eq_zero : ∀ {a b : List UInt8} (acc : UInt8), a.length = b.length →
    ((a.zip b).foldl (fun acc q => acc ||| (q.1 ^^^ q.2)) acc = 0 ↔ acc = 0 ∧ a = b)
  | [], [], acc, _ => by simp
  | x :: a, y :: b, acc, h => by
    rw [List.zip_cons_cons, List.foldl_cons, foldl_xor_eq_zero _ (Nat.succ.inj h)]
    have hor : acc ||| (x ^^^ y) = 0 ↔ acc = 0 ∧ x = y := by
      rw [← UInt8.toBitVec_inj]
      simp [← UInt8.toBitVec_inj]
    rw [hor, List.cons.injEq, and_assoc]

/-- It is equality. -/
theorem constantTimeEq_iff {a b : List UInt8} : constantTimeEq a b = true ↔ a = b := by
  unfold constantTimeEq
  split
  · rename_i hne
    simp only [Bool.false_eq_true, false_iff]
    rintro rfl
    exact hne rfl
  · rename_i hlen
    rw [beq_iff_eq, foldl_xor_eq_zero 0 (not_not.1 hlen)]
    simp

/-! ## Requests as calls -/

section
variable (parseHost : Str → Option Str) (digest : Bytes → Str)
  (fromSlice : List UInt8 → Except Str AdminConfigBody) (state : AdminState)

/-- The patch a request asks for, if it may and makes sense. -/
def AdminRequest.asPatch (req : AdminRequest) : Option LimitsPatch :=
  if state.adminToken.isSome ∧ bearerFrom req.headers = state.adminToken ∧
      validName req.tenant = true ∧ state.auth = true then
    (AdminConfigBody.parse fromSlice req.body).toOption.bind fun cfg => cfg.patch.toOption
  else none

def AdminEvent.asOp : AdminEvent → Option AdminOp
  | .request req => (req.asPatch fromSlice state).map (.patchTenant req.tenant)
  | .call op => some op

variable {parseHost digest fromSlice state} {db : AdminDb} {ch : AdminChoice}

theorem token_iff {headers : Headers} {expected : Str} :
    ((bearerFrom headers).any fun p => constantTimeEq (Str.utf8 p) (Str.utf8 expected)) = true ↔
      bearerFrom headers = some expected := by
  cases bearerFrom headers with
  | none => simp
  | some p =>
    rw [Option.any_some, constantTimeEq_iff, Str.utf8_injective.eq_iff, Option.some.injEq]

variable (parseHost digest fromSlice state) in
/-- A request is refused before the tables are reached, or it is one call of `patch_tenant`. -/
theorem adminCreateTenant_cases (req : AdminRequest) :
    (req.asPatch fromSlice state = none ∧ ∃ reply : HttpReply, reply.status ≠ 201 ∧ ∀ ch db,
        adminCreateTenant parseHost digest fromSlice state ch req db = (reply, none, db)) ∨
      ∃ patch, req.asPatch fromSlice state = some patch ∧ ∀ ch db,
        adminCreateTenant parseHost digest fromSlice state ch req db =
          (patchReply (patchTenant parseHost digest ch req.tenant patch db).1,
            some (patchTenant parseHost digest ch req.tenant patch db).1,
            (patchTenant parseHost digest ch req.tenant patch db).2) := by
  have h404 : (404 : UInt16) ≠ 201 := by decide
  have h401 : (401 : UInt16) ≠ 201 := by decide
  have h400 : (400 : UInt16) ≠ 201 := by decide
  have h503 : (503 : UInt16) ≠ 201 := by decide
  unfold adminCreateTenant AdminRequest.asPatch
  cases htoken : state.adminToken with
  | none => exact .inl ⟨by simp, ⟨404, _⟩, h404, fun _ _ => rfl⟩
  | some expected =>
    by_cases hbearer : bearerFrom req.headers = some expected
    · simp only [token_iff.2 hbearer, Bool.not_true, Bool.false_eq_true, if_false]
      simp only [hbearer, Option.isSome_some, true_and]
      cases hname : validName req.tenant with
      | false => exact .inl ⟨by simp, ⟨400, _⟩, h400, fun _ _ => rfl⟩
      | true =>
        cases hauth : state.auth with
        | false => exact .inl ⟨by simp, ⟨503, _⟩, h503, fun _ _ => rfl⟩
        | true =>
          simp only [and_self, if_true, Bool.not_true, Bool.false_eq_true, if_false]
          cases hparse : AdminConfigBody.parse fromSlice req.body with
          | error e => exact .inl ⟨rfl, ⟨400, _⟩, h400, fun _ _ => rfl⟩
          | ok cfg =>
            simp only [Except.toOption, Option.bind_some]
            cases hpatch : cfg.patch with
            | error e => exact .inl ⟨rfl, ⟨400, _⟩, h400, fun _ _ => rfl⟩
            | ok patch => exact .inr ⟨patch, rfl, fun _ _ => rfl⟩
    · have hany : ((bearerFrom req.headers).any fun p =>
          constantTimeEq (Str.utf8 p) (Str.utf8 expected)) = false :=
        Bool.eq_false_iff.2 fun h => hbearer (token_iff.1 h)
      simp only [hany]
      exact .inl ⟨if_neg fun h => hbearer h.2.1, ⟨401, _⟩, h401, fun _ _ => rfl⟩

/-- An event is its call, or nothing. -/
theorem adminEffect_eq (e : AdminEvent) :
    adminEffect parseHost digest fromSlice state e ch db =
      match e.asOp fromSlice state with
      | none => (none, db)
      | some op => (issuedBy parseHost digest op ch db, (applyAdmin parseHost digest op ch db).2) := by
  cases e with
  | call op => rfl
  | request req =>
    obtain ⟨hnone, reply, -, hq⟩ | ⟨patch, hsome, hq⟩ :=
      adminCreateTenant_cases parseHost digest fromSlice state req
    · simp only [adminEffect, AdminEvent.asOp, hnone, hq]
      rfl
    · simp only [adminEffect, AdminEvent.asOp, hsome, hq]
      rfl

theorem patchReply_error : ∀ e, (patchReply (.error e)).status ≠ 201
  | .config _ => show (400 : UInt16) ≠ 201 by decide
  | .invalidName => show (400 : UInt16) ≠ 201 by decide
  | .noSuchTenant _ => show (500 : UInt16) ≠ 201 by decide
  | .rng => show (500 : UInt16) ≠ 201 by decide
  | .db => show (500 : UInt16) ≠ 201 by decide

/-! ## What an operation issues -/

/-- What an operation leaves, and the key it issues, if it issues one. -/
structure Issues (digest : Bytes → Str) (op : AdminOp) (db : AdminDb) (key : Option IssuedKey)
    (db' : AdminDb) : Prop where
  rows : SoundRows db'
  kept : ∀ t, (db.tenantLimits t).isSome → (db'.tenantLimits t).isSome
  silent : key = none → db'.apiKeys = db.apiKeys
  issue : ∀ k, key = some k → k.tenant = op.tenant ∧ (db'.tenantLimits k.tenant).isSome ∧
    digest (Bytes.ofStr k.apiKey) ∉ db.apiKeys.map Prod.fst ∧
      db'.apiKeys = (digest (Bytes.ofStr k.apiKey), k.tenant) :: db.apiKeys

variable (parseHost digest ch) in
theorem patch_issues (hs : SoundRows db) (name : Str) (patch : LimitsPatch) :
    Issues digest (.patchTenant name patch) db
      (patchTenant parseHost digest ch.settled name patch db).1.toOption
      (patchTenant parseHost digest ch name patch db).2 := by
  rw [(patchTenant_settles parseHost digest db ch name patch).snd]
  obtain ⟨e, he⟩ | ⟨keyHash, apiKey, haccepted, hnew⟩ :=
    patchTenant_cases parseHost digest db ch.settled name patch
  · rw [he]
    exact ⟨hs, fun _ h => h, fun _ => rfl, fun k h => by cases h⟩
  · have hok := patchTenant_of_accepted hs haccepted hnew
    rw [settled_reported (settled_stops ▸ haccepted.db)] at hok
    obtain ⟨_, hdone, -⟩ := patchTenant_eq_ok hs hok
    obtain ⟨keyBytes, -, -, rfl⟩ := haccepted.issued
    rw [hok]
    refine ⟨hs.withLimits name hdone.valid _, fun t h => ?_, (fun h => by cases h), fun k hk => ?_⟩
    · rw [tenantLimits_withLimits hdone.valid]
      split
      · rfl
      · exact h
    · cases hk
      refine ⟨rfl, ?_, hnew, rfl⟩
      rw [tenantLimits_withLimits hdone.valid, if_pos rfl]
      rfl

variable (parseHost digest ch) in
theorem op_issues (hs : SoundRows db) (op : AdminOp) :
    Issues digest op db (issuedBy parseHost digest op ch db)
      (applyAdmin parseHost digest op ch db).2 := by
  cases op with
  | patchTenant name patch => exact patch_issues parseHost digest ch hs name patch
  | createTenant name limits =>
    have h := patch_issues parseHost digest ch hs name
      ((limits.map LimitsPatch.ofLimits).getD .default)
    exact ⟨h.rows, h.kept, h.silent, h.issue⟩
  | setLimits name l =>
    have hkey : ∀ k, issuedBy parseHost digest (.setLimits name l) ch db ≠ some k :=
      fun k h => by cases h
    obtain ⟨e, he⟩ | ⟨old, -, -, hvalid, hok⟩ := setLimits_cases parseHost db ch name l
    · rw [show (applyAdmin parseHost digest (.setLimits name l) ch db).2 = db from congrArg Prod.snd he]
      exact ⟨hs, fun _ h => h, fun _ => rfl, fun k h => absurd h (hkey k)⟩
    · rw [show (applyAdmin parseHost digest (.setLimits name l) ch db).2 = _ from
        congrArg Prod.snd hok]
      refine ⟨hs.withLimits name hvalid _, fun t h => ?_, fun _ => rfl, fun k h => absurd h (hkey k)⟩
      rw [tenantLimits_withLimits hvalid]
      split
      · rfl
      · exact h

/-! ## The keys -/

variable (digest fromSlice state) in
/-- The tables against the keys issued so far. -/
structure KeyInv (s : AdminApi) : Prop where
  rows : SoundRows s.db
  keys : s.db.apiKeys = s.issued.map fun q => (digest (Bytes.ofStr q.2.apiKey), q.2.tenant)
  nodup : (s.db.apiKeys.map Prod.fst).Nodup
  linked : ∀ q ∈ s.issued, (s.db.tenantLimits q.2.tenant).isSome
  asked : ∀ q ∈ s.issued, ∃ op, q.1.asOp fromSlice state = some op ∧ op.tenant = q.2.tenant
  current : s.db ∈ s.past

theorem keyInv_new : KeyInv digest fromSlice state .new :=
  ⟨sound_new, rfl, List.nodup_nil, by simp [AdminApi.new], by simp [AdminApi.new],
    by simp [AdminApi.new]⟩

theorem KeyInv.serve {s : AdminApi} (h : KeyInv digest fromSlice state s)
    (call : AdminEvent × AdminChoice) :
    KeyInv digest fromSlice state (s.serve parseHost digest fromSlice state call) := by
  obtain ⟨e, ch⟩ := call
  unfold AdminApi.serve
  simp only [adminEffect_eq]
  cases hop : e.asOp fromSlice state with
  | none => exact ⟨h.rows, h.keys, h.nodup, h.linked, h.asked, .head _⟩
  | some op =>
    have hi := op_issues parseHost digest ch h.rows op
    simp only
    generalize issuedBy parseHost digest op ch s.db = key at hi
    generalize (applyAdmin parseHost digest op ch s.db).2 = db' at hi
    have hkept : ∀ q ∈ s.issued, (db'.tenantLimits q.2.tenant).isSome :=
      fun q hq => hi.kept _ (h.linked q hq)
    cases key with
    | none =>
      have hkeys := hi.silent rfl
      exact ⟨hi.rows, hkeys.trans h.keys, by rw [hkeys]; exact h.nodup, hkept, h.asked, .head _⟩
    | some k =>
      obtain ⟨htenant, hlinked, hnew, hkeys⟩ := hi.issue k rfl
      refine ⟨hi.rows, ?_, ?_, ?_, ?_, .head _⟩
      · rw [hkeys, h.keys]
        rfl
      · rw [hkeys]
        exact List.nodup_cons.2 ⟨hnew, h.nodup⟩
      · exact List.forall_mem_cons.2 ⟨hlinked, hkept⟩
      · exact List.forall_mem_cons.2 ⟨⟨op, hop, htenant.symm⟩, h.asked⟩

/-! ## The authenticator's query -/

/-- A key with the hash has been stored for the tenant. -/
def AdminApi.IssuedTo (digest : Bytes → Str) (s : AdminApi) (keyHash tenant : Str) : Prop :=
  ∃ q ∈ s.issued, q.2.tenant = tenant ∧ digest (Bytes.ofStr q.2.apiKey) = keyHash

theorem mem_iff_lookup {l : List (Str × Str)} (hl : (l.map Prod.fst).Nodup) {k v : Str} :
    l.lookup k = some v ↔ (k, v) ∈ l := by
  induction l with
  | nil => simp
  | cons e l ih =>
    obtain ⟨k', v'⟩ := e
    obtain ⟨hnot, hl⟩ := List.nodup_cons.1 hl
    rw [List.lookup_cons, List.mem_cons, Prod.mk.injEq]
    by_cases hk : k = k'
    · subst hk
      have : (k, v) ∉ l := fun h => hnot (List.mem_map.2 ⟨_, h, rfl⟩)
      simp [this, eq_comm]
    · simp [beq_false_of_ne hk, hk, ih hl]

/-- The query joins the key's row with its tenant's. -/
theorem select_authDb (db : AdminDb) (keyHash : Str) :
    db.authDb.select keyHash = (db.apiKeys.lookup keyHash).bind db.authRow := by
  unfold AuthDb.select
  cases hname : db.apiKeys.lookup keyHash with
  | none => simp [AdminDb.authDb, hname]
  | some name =>
    have hmem : name ∈ db.holders := by
      obtain ⟨l₁, l₂, hl, -⟩ := List.lookup_eq_some_iff.1 hname
      rw [AdminDb.holders, List.mem_dedup, hl]
      simp
    have hidx : db.holders[db.holders.idxOf name]? = some name := List.getElem?_idxOf hmem
    cases hrow : db.authRow name with
    | none => simp [AdminDb.authDb, hname, hidx, hrow, Option.filter]
    | some row => simp [AdminDb.authDb, hname, hidx, hrow, Option.filter]

theorem limits_authRow {db : AdminDb} {name : Str} {row : AuthRow} (h : db.authRow name = some row) :
    row.tenant = name ∧ db.tenantLimits name = some row.limits := by
  obtain ⟨r, hr, rfl⟩ := Option.map_eq_some_iff.1 h
  exact ⟨rfl, by rw [AdminDb.tenantLimits, hr]; rfl⟩

theorem mem_keys {s : AdminApi} (h : KeyInv digest fromSlice state s) {keyHash tenant : Str} :
    (keyHash, tenant) ∈ s.db.apiKeys ↔ s.IssuedTo digest keyHash tenant := by
  rw [h.keys, List.mem_map]
  simp only [AdminApi.IssuedTo, Prod.mk.injEq, and_comm]

/-- **The query finds the row of the tenant a key has been issued to**, and no other. -/
theorem select_issued {s : AdminApi} (h : KeyInv digest fromSlice state s) (keyHash : Str) :
    (s.db.authDb.select keyHash = none ∧ ∀ tenant, ¬s.IssuedTo digest keyHash tenant) ∨
      ∃ row, s.db.authDb.select keyHash = some row ∧
        (∀ tenant, s.IssuedTo digest keyHash tenant ↔ tenant = row.tenant) ∧
          s.db.tenantLimits row.tenant = some row.limits := by
  rw [select_authDb]
  cases hname : s.db.apiKeys.lookup keyHash with
  | none =>
    refine .inl ⟨rfl, fun tenant hi => ?_⟩
    rw [← mem_keys h, ← mem_iff_lookup h.nodup, hname] at hi
    cases hi
  | some name =>
    have hi : s.IssuedTo digest keyHash name := (mem_keys h).1 ((mem_iff_lookup h.nodup).1 hname)
    obtain ⟨q, hq, rfl, -⟩ := hi
    have hsome := h.linked q hq
    cases hrow : s.db.authRow q.2.tenant with
    | none =>
      rw [AdminDb.authRow, Option.map_eq_none_iff] at hrow
      rw [AdminDb.tenantLimits, hrow] at hsome
      cases hsome
    | some row =>
      obtain ⟨htenant, hlimits⟩ := limits_authRow hrow
      refine .inr ⟨row, hrow, fun tenant => ?_, htenant ▸ hlimits⟩
      rw [← mem_keys h, ← mem_iff_lookup h.nodup, hname, Option.some.injEq, htenant, eq_comm]

theorem valid_limits {s : AdminApi} (h : KeyInv digest fromSlice state s) {tenant : Str} {l : Limits}
    (hl : s.db.tenantLimits tenant = some l) : validateLimits l = .ok () :=
  (h.rows.tenants_eq tenant).2 l hl

/-! ## Runs -/

variable (fromSlice state) in
/-- The calls a sequence of events comes down to. -/
def asCalls (calls : List (AdminEvent × AdminChoice)) : List (AdminOp × AdminChoice) :=
  calls.filterMap fun q => (q.1.asOp fromSlice state).map fun op => (op, q.2)

theorem run_concat (calls : List (AdminEvent × AdminChoice)) (call : AdminEvent × AdminChoice) :
    AdminApi.run parseHost digest fromSlice state (calls ++ [call]) =
      (AdminApi.run parseHost digest fromSlice state calls).serve parseHost digest fromSlice state
        call := by
  rw [AdminApi.run, List.foldl_concat, AdminApi.run]

theorem keyInv_run (calls : List (AdminEvent × AdminChoice)) :
    KeyInv digest fromSlice state (AdminApi.run parseHost digest fromSlice state calls) := by
  induction calls using List.reverseRecOn with
  | nil => exact keyInv_new
  | append_singleton calls call ih =>
    rw [run_concat]
    exact ih.serve call

/-- **The tables are those of the calls.** -/
theorem run_db (calls : List (AdminEvent × AdminChoice)) :
    (AdminApi.run parseHost digest fromSlice state calls).db =
      (adminRun parseHost digest (asCalls fromSlice state calls)).2 := by
  induction calls using List.reverseRecOn with
  | nil => rfl
  | append_singleton calls call ih =>
    rw [run_concat, AdminApi.serve, adminEffect_eq, asCalls, List.filterMap_append, adminRun]
    cases hop : call.1.asOp fromSlice state with
    | none => simp [hop, ih, adminRun, asCalls]
    | some op => simp [hop, ih, adminRun, asCalls, adminStep]

theorem asPatch_name {req : AdminRequest} {patch : LimitsPatch}
    (h : req.asPatch fromSlice state = some patch) : validName req.tenant = true := by
  unfold AdminRequest.asPatch at h
  split at h
  · rename_i hmay
    exact hmay.2.2.1
  · cases h

theorem asked_request {req : AdminRequest} {op : AdminOp}
    (h : (AdminEvent.request req).asOp fromSlice state = some op) :
    op.tenant = req.tenant ∧
      ∃ token, state.adminToken = some token ∧ bearerFrom req.headers = some token := by
  obtain ⟨patch, hpatch, rfl⟩ := Option.map_eq_some_iff.1 h
  refine ⟨rfl, ?_⟩
  unfold AdminRequest.asPatch at hpatch
  split at hpatch
  · rename_i hmay
    obtain ⟨token, htoken⟩ := Option.isSome_iff_exists.1 hmay.1
    exact ⟨token, htoken, hmay.2.1.trans htoken⟩
  · cases hpatch

end

theorem outcome_row (row : AuthRow) (tenant : Str) : outcome (Cached.ofRow (some row)) tenant =
    if row.tenant ≠ tenant then .wrongTenant else .authorized row.limits := rfl

/-- What an outcome of the authenticator, for a token's hash and a tenant, says about the keys. -/
def AdminApi.Vouches (parseHost : Str → Option Str) (digest : Bytes → Str) (s : AdminApi)
    (history : AdminHistory) (keyHash tenant : Str) : AuthOutcome → Prop
  | .authorized limits => s.IssuedTo digest keyHash tenant ∧
      limits = lastWritten parseHost tenant history ∧ validateLimits limits = .ok ()
  | .wrongTenant => ¬s.IssuedTo digest keyHash tenant ∧ ∃ other, s.IssuedTo digest keyHash other
  | .missingOrUnknownKey => ∀ other, ¬s.IssuedTo digest keyHash other

/-! ## Replies -/

section
variable {parseHost : Str → Option Str} {digest : Bytes → Str}
  {fromSlice : List UInt8 → Except Str AdminConfigBody} {state : AdminState}

/-- What a request needs for its key: the admin token, a valid name and a body that makes sense, and
random bytes of which no key has been made before. -/
structure AdminRequest.Grantable (parseHost : Str → Option Str) (digest : Bytes → Str)
    (fromSlice : List UInt8 → Except Str AdminConfigBody) (state : AdminState) (req : AdminRequest)
    (ch : AdminChoice) (db : AdminDb) : Prop where
  asked : ∃ patch, req.asPatch fromSlice state = some patch ∧
    ∃ limits, checkPatch parseHost patch = .ok limits
  fresh : ∃ keyBytes, ch.keyBytes = some keyBytes ∧
    digest (Bytes.ofStr ("wl_".toList ++ hexEncode keyBytes)) ∉ db.apiKeys.map Prod.fst

/-- What a request has done to the keys and the tables, by its reply. -/
inductive AdminApi.Replied (s s' : AdminApi) (ch : AdminChoice) (req : AdminRequest) :
    HttpReply → Prop
  /-- The reply gives away the key that has been added. -/
  | told (apiKey : Str) (hissued : s'.issued = (.request req, ⟨req.tenant, apiKey⟩) :: s.issued) :
    s.Replied s' ch req
      ⟨201, .json [("tenant".toList, req.tenant), ("api_key".toList, apiKey)]⟩
  | refused (reply : HttpReply) (hstatus : reply.status ≠ 201) (hdb : s'.db = s.db)
    (hissued : s'.issued = s.issued) : s.Replied s' ch req reply
  /-- A key has been added, and the commit been reported as failed. -/
  | untold (apiKey : Str) (hfails : ch.dbFails = true) (htook : ch.tookEffect = true)
    (hissued : s'.issued = (.request req, ⟨req.tenant, apiKey⟩) :: s.issued) :
    s.Replied s' ch req ⟨500, .text "internal error".toList⟩

theorem AdminRequest.Grantable.patch_ok {req : AdminRequest} {ch : AdminChoice} {db : AdminDb}
    (h : req.Grantable parseHost digest fromSlice state ch db) (hs : SoundRows db)
    (hworks : ch.dbFails = false) {patch : LimitsPatch}
    (hpatch : req.asPatch fromSlice state = some patch) :
    ∃ key, (patchTenant parseHost digest ch.settled req.tenant patch db).1 = .ok key := by
  obtain ⟨patch', hpatch', hlimits⟩ := h.asked
  obtain ⟨keyBytes, hbytes, hfresh⟩ := h.fresh
  rw [hpatch, Option.some.injEq] at hpatch'
  subst hpatch'
  have hstops : ch.stops = false := by rw [AdminChoice.stops, hworks, Bool.false_and]
  have haccepted : AcceptedPatch parseHost digest ch.settled req.tenant patch _ _ :=
    ⟨asPatch_name hpatch, hlimits, ⟨keyBytes, hbytes, rfl, rfl⟩, settled_stops.trans hstops⟩
  rw [patchTenant_of_accepted hs haccepted hfresh, settled_reported hstops]
  exact ⟨_, rfl⟩

theorem settles_error {ch : AdminChoice} {α : Type} {r : Except AdminError α × AdminDb}
    {e : AdminError} {db : AdminDb} (h : Settles ch r (.error e, db)) :
    ∃ e', r = (.error e', db) := by
  obtain rfl | ⟨-, -, rfl⟩ := h
  · exact ⟨_, rfl⟩
  · exact ⟨_, rfl⟩

/-- A request, what it has done, and when it is answered with a key. -/
theorem KeyInv.replied {s : AdminApi} (h : KeyInv digest fromSlice state s) (ch : AdminChoice)
    (req : AdminRequest) :
    s.Replied (s.serve parseHost digest fromSlice state (.request req, ch)) ch req
        (adminCreateTenant parseHost digest fromSlice state ch req s.db).1 ∧
      ((adminCreateTenant parseHost digest fromSlice state ch req s.db).1.status = 201 ↔
        req.Grantable parseHost digest fromSlice state ch s.db ∧ ch.dbFails = false) := by
  obtain ⟨hnone, reply, hstatus, hq⟩ | ⟨patch, hsome, hq⟩ :=
    adminCreateTenant_cases parseHost digest fromSlice state req
  · rw [hq]
    refine ⟨.refused _ hstatus ?_ ?_, fun h => absurd h hstatus, fun h => ?_⟩
    · simp [AdminApi.serve, adminEffect, hq]
    · simp [AdminApi.serve, adminEffect, hq]
    · obtain ⟨patch, hpatch, -⟩ := h.1.asked
      rw [hnone] at hpatch
      cases hpatch
  · have hsettles := patchTenant_settles parseHost digest s.db ch req.tenant patch
    have hserve : s.serve parseHost digest fromSlice state (.request req, ch) =
        ⟨(patchTenant parseHost digest ch req.tenant patch s.db).2,
          (((patchTenant parseHost digest ch.settled req.tenant patch s.db).1.toOption).map
            fun key => (AdminEvent.request req, key)).toList ++ s.issued,
          (patchTenant parseHost digest ch req.tenant patch s.db).2 :: s.past⟩ := by
      simp [AdminApi.serve, adminEffect, hq]
    rw [hserve, hq]
    obtain ⟨e, he⟩ | ⟨keyHash, apiKey, haccepted, hnew⟩ :=
      patchTenant_cases parseHost digest s.db ch.settled req.tenant patch
    · rw [he] at hsettles ⊢
      obtain ⟨e', he'⟩ := settles_error hsettles
      rw [he']
      refine ⟨.refused _ (patchReply_error e') rfl rfl, fun h => absurd h (patchReply_error e'),
        fun ⟨hgrant, hworks⟩ => ?_⟩
      have hok := hgrant.patch_ok h.rows hworks hsome
      rw [he] at hok
      obtain ⟨key, hkey⟩ := hok
      cases hkey
    · have hok := patchTenant_of_accepted h.rows haccepted hnew
      rw [settled_reported (settled_stops ▸ haccepted.db)] at hok
      rw [hok] at hsettles ⊢
      obtain heq | ⟨hfails, htook, heq⟩ := hsettles
      · obtain ⟨_, hdone, -⟩ := patchTenant_eq_ok h.rows heq
        obtain ⟨keyBytes, hbytes, rfl, rfl⟩ := haccepted.issued
        rw [heq]
        exact ⟨.told _ rfl, fun _ => ⟨⟨⟨patch, hsome, haccepted.checked⟩, keyBytes, hbytes, hnew⟩,
          hdone.works⟩, fun _ => rfl⟩
      · rw [heq]
        refine ⟨.untold apiKey hfails htook rfl, fun h => absurd h (patchReply_error .db), fun h => ?_⟩
        rw [h.2] at hfails
        cases hfails

end

/-- **The admin API issues the keys that authenticate.** After any sequence of requests and calls:
every key stored for a request has been asked for with the admin token, and for that tenant; the
next request is answered 201 exactly if it has the token and makes sense, its random bytes are new
and the database works, and then with the key that has been stored; otherwise nothing changes, or
the commit has taken effect though it is reported as failed; and the authenticator's query
authorizes a token for a tenant, with the limits last set for it, exactly if a key of that hash has
been stored for that tenant. -/
theorem admin_api_exact (parseHost : Str → Option Str) (digest : Bytes → Str)
    (fromSlice : List UInt8 → Except Str AdminConfigBody) (state : AdminState)
    (calls : List (AdminEvent × AdminChoice)) :
    let s := AdminApi.run parseHost digest fromSlice state calls
    let history := (adminRun parseHost digest (asCalls fromSlice state calls)).1
    (∀ req key, (.request req, key) ∈ s.issued → key.tenant = req.tenant ∧
        ∃ token, state.adminToken = some token ∧ bearerFrom req.headers = some token) ∧
      (∀ ch req,
        s.Replied (AdminApi.run parseHost digest fromSlice state (calls ++ [(.request req, ch)])) ch
            req (adminCreateTenant parseHost digest fromSlice state ch req s.db).1 ∧
          ((adminCreateTenant parseHost digest fromSlice state ch req s.db).1.status = 201 ↔
            req.Grantable parseHost digest fromSlice state ch s.db ∧ ch.dbFails = false)) ∧
      ∀ token tenant, s.Vouches parseHost digest history (digest (Bytes.ofStr token)) tenant
        (outcome (Cached.ofRow (s.db.authDb.select (digest (Bytes.ofStr token)))) tenant) := by
  intro s history
  have h : KeyInv digest fromSlice state s := keyInv_run calls
  have hlimits := (adminInv_run parseHost digest (asCalls fromSlice state calls)).limits
  refine ⟨fun req key hm => ?_, fun ch req => ?_, fun token tenant => ?_⟩
  · obtain ⟨op, hop, htenant⟩ := h.asked _ hm
    obtain ⟨hreq, htoken⟩ := asked_request hop
    exact ⟨htenant.symm.trans hreq, htoken⟩
  · rw [run_concat]
    exact h.replied ch req
  · obtain ⟨hsel, hnone⟩ | ⟨row, hsel, hissued, hl⟩ := select_issued h (digest (Bytes.ofStr token))
    · rw [hsel]
      exact hnone
    · rw [hsel, outcome_row]
      by_cases htenant : row.tenant = tenant
      · subst htenant
        rw [if_neg (not_not.2 rfl)]
        refine ⟨(hissued _).2 rfl, hlimits _ _ ?_, valid_limits h hl⟩
        rw [← run_db]
        exact hl
      · rw [if_pos htenant]
        exact ⟨fun hi => htenant ((hissued _).1 hi).symm, row.tenant, (hissued _).2 rfl⟩

/-- A request for a key, with the admin token and a memory cap. -/
def issueRequest : AdminRequest :=
  ⟨['t'], [("authorization".toList, Str.utf8 "bearer s".toList)], [0]⟩

def capBody : List UInt8 → Except Str AdminConfigBody := fun _ => .ok ⟨none, none, some 1048576⟩

/-- A key is issued, and another one stored with a commit that is reported as failed. -/
def issueCalls : List (AdminEvent × AdminChoice) :=
  [(.request issueRequest, ⟨some [1], false, false⟩),
    (.request { issueRequest with tenant := ['u'] }, ⟨some [2], true, true⟩)]

def issuedApi (calls : List (AdminEvent × AdminChoice)) : AdminApi :=
  AdminApi.run some Bytes.toStringLossy capBody ⟨some ['s'], true⟩ calls

def issueReply (calls : List (AdminEvent × AdminChoice)) (req : AdminRequest) (ch : AdminChoice) :
    HttpReply :=
  (adminCreateTenant some Bytes.toStringLossy capBody ⟨some ['s'], true⟩ ch req
    (issuedApi calls).db).1

def plainHash (token : Str) : Str := Bytes.toStringLossy (Bytes.ofStr token)

/-- What the authenticator says of a token for a tenant. -/
def AdminApi.outcomeOf (s : AdminApi) (token tenant : Str) : AuthOutcome :=
  outcome (Cached.ofRow (s.db.authDb.select (plainHash token))) tenant

/-- The first request is answered with its key, the second is not, and both keys authenticate. The
random bytes of the first are not answered with a key again. -/
theorem admin_api_exact_issued :
    issueReply [] issueRequest ⟨some [1], false, false⟩ =
        ⟨201, .json [("tenant".toList, ['t']), ("api_key".toList, "wl_01".toList)]⟩ ∧
      (issueReply (issueCalls.take 1) { issueRequest with tenant := ['u'] }
        ⟨some [2], true, true⟩).status = 500 ∧
      ((issuedApi issueCalls).outcomeOf "wl_01".toList ['t'] = .authorized ⟨100, 1048576, []⟩ ∧
        (issuedApi issueCalls).IssuedTo Bytes.toStringLossy (plainHash "wl_01".toList) ['t']) ∧
      ((issuedApi issueCalls).outcomeOf "wl_02".toList ['u'] = .authorized ⟨100, 1048576, []⟩ ∧
        (issuedApi issueCalls).IssuedTo Bytes.toStringLossy (plainHash "wl_02".toList) ['u']) ∧
      ¬issueRequest.Grantable some Bytes.toStringLossy capBody ⟨some ['s'], true⟩
        ⟨some [1], false, false⟩ (issuedApi issueCalls).db := by
  obtain ⟨-, hreplies, hvouches⟩ :=
    admin_api_exact some Bytes.toStringLossy capBody ⟨some ['s'], true⟩ issueCalls
  have hvouches : ∀ token tenant, (issuedApi issueCalls).Vouches some Bytes.toStringLossy _
      (plainHash token) tenant ((issuedApi issueCalls).outcomeOf token tenant) := hvouches
  have hfirst : (issuedApi issueCalls).outcomeOf "wl_01".toList ['t'] =
      .authorized ⟨100, 1048576, []⟩ := by decide +kernel
  have hsecond : (issuedApi issueCalls).outcomeOf "wl_02".toList ['u'] =
      .authorized ⟨100, 1048576, []⟩ := by decide +kernel
  have hagain : (issueReply issueCalls issueRequest ⟨some [1], false, false⟩).status ≠ 201 := by
    decide +kernel
  refine ⟨by decide +kernel, by decide +kernel, ⟨hfirst, ?_⟩, ⟨hsecond, ?_⟩, fun hgrant => ?_⟩
  · have hv := hvouches "wl_01".toList ['t']
    rw [hfirst] at hv
    exact hv.1
  · have hv := hvouches "wl_02".toList ['u']
    rw [hsecond] at hv
    exact hv.1
  · exact hagain ((hreplies ⟨some [1], false, false⟩ issueRequest).2.2 ⟨hgrant, rfl⟩)

end Warpline
