import Warpline.Core.Invoke
import Warpline.Pg.Admin

/-!
# Patches merge field by field

`merged p old` is what a patch makes of limits. `patchTenant_cases` and `setLimits_cases` say of each
call that it fails and changes nothing, or merges its patch into its tenant's limits;
`applyAdmin_cases` is both, and `applyAdmin_settles` says that a call takes effect as it does when no
commit is only reported as failed. Over a run, `written t f` lists the values that successful calls have
set for one field of one tenant, and `AdminInv` says that the field holds the last of them.
`tenant_patches_merge` is the main result.
-/

set_option autoImplicit false

namespace Warpline

/-! ## The columns -/

theorem toInt32_eq {x : UInt64} : x.toUInt32.toInt32 = Int32.ofNat x.toNat := by
  have hx : x.toUInt32 = UInt32.ofNat x.toNat := by
    rw [← UInt32.toNat_inj]
    simp
  rw [hx, UInt32.toInt32_ofNat']

/-- The limits that `validate_limits` accepts. -/
theorem validateLimits_iff {l : Limits} : validateLimits l = .ok () ↔
    validateCpuBudgetMs (i64OfUsize l.cpuBudgetMs) = .ok () ∧
      validateMemCapBytes (i64OfUsize l.memCapBytes) = .ok () := by
  simp only [validateLimits, bind, Except.bind]
  cases validateCpuBudgetMs (i64OfUsize l.cpuBudgetMs) <;> simp

section
variable {l : Limits}

/-- Valid limits come back from the columns as they were. -/
theorem limits_cols (h : validateLimits l = .ok ()) : (cols l).limits = l := by
  obtain ⟨-, hcpu⟩ := cpuBudget_of_valid (validateLimits_iff.1 h).1
  have hmax : (l.cpuBudgetMs.toNat : Int) ≤ Int32.maxValue.toInt := by
    simp [Int32.maxValue]
    omega
  have hback : l.cpuBudgetMs.toUInt32.toInt32.toInt64.toUInt64 = l.cpuBudgetMs := by
    rw [toInt32_eq, Int32.toInt64_ofNat' hmax]
    simp
  have hmem : l.memCapBytes.toInt64.toUInt64 = l.memCapBytes := rfl
  rw [cols, TenantRow.limits, hback, hmem]

/-- Valid limits pass the checks of the table. -/
theorem check_cols (h : validateLimits l = .ok ()) : (cols l).check = true := by
  obtain ⟨hcpu, hcpu'⟩ := cpuBudget_of_valid (validateLimits_iff.1 h).1
  obtain ⟨hmem, hmem'⟩ := memCap_of_valid (validateLimits_iff.1 h).2
  have hcpuInt : (cols l).cpuBudgetMs.toInt = l.cpuBudgetMs.toNat := by
    rw [cols, toInt32_eq]
    exact Int32.toInt_ofNat_of_lt (by omega)
  have hmemInt : (cols l).memCapBytes.toInt = l.memCapBytes.toNat := by
    have hx : l.memCapBytes.toInt64 = Int64.ofNat l.memCapBytes.toNat := by
      conv_lhs => rw [← UInt64.ofNat_toNat (x := l.memCapBytes)]
      exact UInt64.toInt64_ofNat'
    rw [cols, hx]
    exact Int64.toInt_ofNat_of_lt (by omega)
  simp only [TenantRow.check, Bool.and_eq_true, decide_eq_true_eq, Int32.le_iff_toInt_le,
    Int64.le_iff_toInt_le, hcpuInt, hmemInt]
  refine ⟨⟨⟨?_, ?_⟩, ?_⟩, ?_⟩
  · show (1 : Int) ≤ _
    omega
  · show _ ≤ (10000 : Int)
    omega
  · show (1048576 : Int) ≤ _
    omega
  · show _ ≤ (536870912 : Int)
    omega

end

/-- Every row is what valid limits are stored as. -/
def SoundRows (db : AdminDb) : Prop :=
  ∀ name row, db.tenants name = some row → ∃ l, validateLimits l = .ok () ∧ row = cols l

theorem sound_new : SoundRows .new := fun _ _ h => by cases h

/-! ## The checks -/

section
variable (parseHost : Str → Option Str) (digest : Bytes → Str)

/-- The normalised hosts of a patch. -/
def LimitsPatch.hosts (p : LimitsPatch) : Option (List Str) :=
  p.allowedHosts.bind fun hosts => (validateAllowedHosts parseHost hosts).toOption

/-- The limits `old` with the fields of `p`. -/
def merged (p : LimitsPatch) (old : Limits) : Limits where
  cpuBudgetMs := p.cpuBudgetMs.getD old.cpuBudgetMs
  memCapBytes := p.memCapBytes.getD old.memCapBytes
  allowedHosts := (p.hosts parseHost).getD old.allowedHosts

variable {parseHost digest} {patch : LimitsPatch} {checked l : Limits} {db : AdminDb}
  {name : Str} {ch : AdminChoice}

theorem new_eq_ok {cpu : UInt64} {mem : Usize} (h : Limits.new cpu mem = .ok l) :
    l = ⟨cpu, mem, []⟩ ∧ validateCpuBudgetMs (i64OfUsize cpu) = .ok () ∧
      validateMemCapBytes (i64OfUsize mem) = .ok () := by
  simp only [Limits.new, bind, Except.bind] at h
  cases hcpu : validateCpuBudgetMs (i64OfUsize cpu) with
  | error e =>
    rw [hcpu] at h
    cases h
  | ok u =>
    cases hmem : validateMemCapBytes (i64OfUsize mem) with
    | error e =>
      rw [hcpu, hmem] at h
      cases h
    | ok v =>
      rw [hcpu, hmem] at h
      cases h
      exact ⟨rfl, rfl, rfl⟩

/-- `Limits::new(cpu, mem)?.with_allowed_hosts(hosts)?`. -/
theorem checked_eq_ok {cpu : UInt64} {mem : Usize} {hosts : List Str}
    (h : (Limits.new cpu mem >>= fun l => l.withAllowedHosts parseHost hosts) = .ok checked) :
    checked.cpuBudgetMs = cpu ∧ checked.memCapBytes = mem ∧
      validateAllowedHosts parseHost hosts = .ok checked.allowedHosts ∧
        validateLimits checked = .ok () := by
  cases hnew : Limits.new cpu mem with
  | error e =>
    rw [hnew] at h
    cases h
  | ok l =>
    obtain ⟨rfl, hcpu, hmem⟩ := new_eq_ok hnew
    rw [hnew] at h
    simp only [Limits.withAllowedHosts, bind, Except.bind] at h
    cases hhosts : validateAllowedHosts parseHost hosts with
    | error e =>
      rw [hhosts] at h
      cases h
    | ok allowedHosts =>
      rw [hhosts] at h
      cases h
      exact ⟨rfl, rfl, rfl, validateLimits_iff.2 ⟨hcpu, hmem⟩⟩

/-- The checked limits are the patch merged into the defaults. -/
theorem checkPatch_eq_ok (h : checkPatch parseHost patch = .ok checked) :
    checked = merged parseHost patch .default ∧ validateLimits checked = .ok () := by
  obtain ⟨hcpu, hmem, hhosts, hvalid⟩ := checked_eq_ok h
  refine ⟨?_, hvalid⟩
  have hallowed : checked.allowedHosts = (patch.hosts parseHost).getD [] := by
    cases hp : patch.allowedHosts with
    | none =>
      rw [hp] at hhosts
      simp only [LimitsPatch.hosts, hp, Option.bind_none, Option.getD_none]
      exact (Except.ok.inj hhosts).symm
    | some hosts =>
      rw [hp, Option.getD_some] at hhosts
      simp only [LimitsPatch.hosts, hp, Option.bind_some, hhosts, Except.toOption,
        Option.getD_some]
  cases checked
  simp only [merged, Limits.mk.injEq] at *
  exact ⟨hcpu, hmem, hallowed⟩

theorem checkLimits_eq_ok (h : checkLimits parseHost l = .ok checked) (old : Limits) :
    checked = merged parseHost (.ofLimits l) old ∧ validateLimits checked = .ok () := by
  obtain ⟨hcpu, hmem, hhosts, hvalid⟩ := checked_eq_ok h
  refine ⟨?_, hvalid⟩
  cases checked
  simp only [merged, LimitsPatch.ofLimits, LimitsPatch.hosts, Option.bind_some, hhosts,
    Except.toOption, Option.getD_some, Limits.mk.injEq] at *
  exact ⟨hcpu, hmem, trivial⟩

/-- The hosts of an accepted patch are all normalised. -/
theorem hosts_isSome (h : checkPatch parseHost patch = .ok checked) :
    patch.allowedHosts.isSome = (patch.hosts parseHost).isSome := by
  obtain ⟨-, -, hhosts, -⟩ := checked_eq_ok h
  cases hp : patch.allowedHosts with
  | none => simp [LimitsPatch.hosts, hp]
  | some hosts =>
    rw [hp, Option.getD_some] at hhosts
    simp [LimitsPatch.hosts, hp, hhosts, Except.toOption]

/-! ## The upsert -/

/-- A column of the merged row: the patch's own field, or the old one. -/
theorem ite_isSome_getD {α β : Type} (o : Option α) (f : α → β) (a b : α) :
    (if o.isSome then f (o.getD a) else f b) = f (o.getD b) := by
  cases o <;> rfl

theorem mergedRow_cols (h : checkPatch parseHost patch = .ok checked) (old : Option Limits) :
    AdminDb.mergedRow (old.map cols) (cols checked) patch.allowedHosts.isSome
        patch.cpuBudgetMs.isSome patch.memCapBytes.isSome =
      cols (merged parseHost patch (old.getD .default)) := by
  obtain ⟨hchecked, -⟩ := checkPatch_eq_ok h
  cases old with
  | none => rw [hchecked]; rfl
  | some old =>
    rw [hosts_isSome h, hchecked]
    have hcpu := ite_isSome_getD patch.cpuBudgetMs (fun cpu => cpu.toUInt32.toInt32)
      Limits.default.cpuBudgetMs old.cpuBudgetMs
    have hmem := ite_isSome_getD patch.memCapBytes (fun mem => mem.toInt64)
      Limits.default.memCapBytes old.memCapBytes
    have hhosts := ite_isSome_getD (patch.hosts parseHost) id
      Limits.default.allowedHosts old.allowedHosts
    simp only [id_eq] at hhosts
    simp only [Option.map_some, Option.getD_some, AdminDb.mergedRow, cols, merged, hcpu, hmem,
      hhosts]

theorem validateLimits_merged (h : checkPatch parseHost patch = .ok checked) {old : Limits}
    (hold : validateLimits old = .ok ()) :
    validateLimits (merged parseHost patch old) = .ok () := by
  obtain ⟨hchecked, hvalid⟩ := checkPatch_eq_ok h
  rw [hchecked, validateLimits_iff] at hvalid
  rw [validateLimits_iff] at hold ⊢
  constructor
  · cases hp : patch.cpuBudgetMs with
    | none => simpa [merged, hp] using hold.1
    | some cpu => simpa [merged, hp] using hvalid.1
  · cases hp : patch.memCapBytes with
    | none => simpa [merged, hp] using hold.2
    | some mem => simpa [merged, hp] using hvalid.2

theorem validateLimits_default : validateLimits .default = .ok () := rfl

theorem SoundRows.tenants_eq (hs : SoundRows db) (name : Str) :
    db.tenants name = (db.tenantLimits name).map cols ∧
      ∀ l, db.tenantLimits name = some l → validateLimits l = .ok () := by
  cases hrow : db.tenants name with
  | none => simp [AdminDb.tenantLimits, hrow]
  | some row =>
    obtain ⟨l, hl, rfl⟩ := hs name row hrow
    simp only [AdminDb.tenantLimits, hrow, Option.map_some, limits_cols hl, Option.some.injEq,
      true_and]
    rintro l' rfl
    exact hl

/-- The database after `name` has got the limits `l`, and `issued` been added to the keys. -/
def AdminDb.withLimits (db : AdminDb) (name : Str) (l : Limits) (issued : List (Str × Str)) :
    AdminDb :=
  ⟨Function.update db.tenants name (some (cols l)), issued ++ db.apiKeys⟩

@[simp] theorem withLimits_self (issued : List (Str × Str)) :
    (db.withLimits name l issued).tenants name = some (cols l) := Function.update_self ..

theorem withLimits_of_ne {t : Str} (h : t ≠ name) (issued : List (Str × Str)) :
    (db.withLimits name l issued).tenants t = db.tenants t := Function.update_of_ne h ..

theorem SoundRows.withLimits (hs : SoundRows db) (name : Str) (hl : validateLimits l = .ok ())
    (issued : List (Str × Str)) : SoundRows (db.withLimits name l issued) := by
  intro name' row hrow
  rcases eq_or_ne name' name with rfl | hne
  · rw [withLimits_self] at hrow
    exact ⟨l, hl, (Option.some.inj hrow).symm⟩
  · rw [withLimits_of_ne hne] at hrow
    exact hs name' row hrow

theorem tenantLimits_withLimits (hl : validateLimits l = .ok ()) (issued : List (Str × Str))
    (t : Str) : (db.withLimits name l issued).tenantLimits t =
      if t = name then some l else db.tenantLimits t := by
  rcases eq_or_ne t name with rfl | hne
  · rw [if_pos rfl, AdminDb.tenantLimits, withLimits_self, Option.map_some, limits_cols hl]
  · rw [if_neg hne, AdminDb.tenantLimits, withLimits_of_ne hne, AdminDb.tenantLimits]

/-! ## The calls -/

theorem reported_of_works {α : Type} (h : ch.dbFails = false) (r : Except AdminError α) :
    ch.reported r = r := by
  rw [AdminChoice.reported, h, if_neg Bool.false_ne_true]

theorem reported_eq_ok {α : Type} {r : Except AdminError α} {a : α} (h : ch.reported r = .ok a) :
    ch.dbFails = false ∧ r = .ok a := by
  cases hfails : ch.dbFails with
  | true =>
    rw [AdminChoice.reported, if_pos hfails] at h
    cases h
  | false =>
    rw [reported_of_works hfails] at h
    exact ⟨rfl, h⟩

theorem reported_error {α : Type} (ch : AdminChoice) (e : AdminError) :
    ∃ e', ch.reported (.error e : Except AdminError α) = .error e' := by
  unfold AdminChoice.reported
  split
  · exact ⟨_, rfl⟩
  · exact ⟨_, rfl⟩

/-- What a patch needs to take effect, whatever is stored, and the key it then issues. -/
structure AcceptedPatch (parseHost : Str → Option Str) (digest : Bytes → Str) (ch : AdminChoice)
    (name : Str) (patch : LimitsPatch) (keyHash apiKey : Str) : Prop where
  name : validName name = true
  checked : ∃ l, checkPatch parseHost patch = .ok l
  issued : ∃ keyBytes, ch.keyBytes = some keyBytes ∧ apiKey = "wl_".toList ++ hexEncode keyBytes ∧
    keyHash = digest (Bytes.ofStr apiKey)
  db : ch.stops = false

/-- A patch takes effect when it is accepted and its key is new: then it merges, and adds the key. -/
theorem patchTenant_of_accepted (hs : SoundRows db) {keyHash apiKey : Str}
    (h : AcceptedPatch parseHost digest ch name patch keyHash apiKey)
    (hnew : keyHash ∉ db.apiKeys.map Prod.fst) :
    patchTenant parseHost digest ch name patch db =
      (ch.reported (.ok ⟨name, apiKey⟩), db.withLimits name
        (merged parseHost patch ((db.tenantLimits name).getD .default)) [(keyHash, name)]) := by
  obtain ⟨checked, hchecked⟩ := h.checked
  obtain ⟨keyBytes, hbytes, rfl, rfl⟩ := h.issued
  have hrow := mergedRow_cols hchecked (db.tenantLimits name)
  rw [← (hs.tenants_eq name).1] at hrow
  have hcheck : (cols (merged parseHost patch ((db.tenantLimits name).getD .default))).check
      = true := by
    apply check_cols
    apply validateLimits_merged hchecked
    cases hl : db.tenantLimits name with
    | none => exact validateLimits_default
    | some l => exact (hs.tenants_eq name).2 l hl
  simp only [patchTenant, h.name, hchecked, hbytes, h.db, hrow, AdminDb.putTenant, hcheck,
    Bool.not_true, Bool.false_eq_true, if_false, if_true, Option.bind_some, AdminDb.insertKey,
    hnew]
  rfl

theorem insertKey_of_mem {keyHash : Str} (h : keyHash ∈ db.apiKeys.map Prod.fst)
    (row : TenantRow) : (db.putTenant name row).bind (·.insertKey keyHash name) = none := by
  unfold AdminDb.putTenant
  split
  · rw [Option.bind_some, AdminDb.insertKey, if_pos h]
  · rfl

/-- Otherwise it fails, and changes nothing. -/
theorem patchTenant_cases (parseHost : Str → Option Str) (digest : Bytes → Str) (db : AdminDb)
    (ch : AdminChoice) (name : Str) (patch : LimitsPatch) :
    (∃ e, patchTenant parseHost digest ch name patch db = (.error e, db)) ∨
      ∃ keyHash apiKey, AcceptedPatch parseHost digest ch name patch keyHash apiKey ∧
        keyHash ∉ db.apiKeys.map Prod.fst := by
  cases hname : validName name with
  | false => exact .inl ⟨.invalidName, by simp [patchTenant, hname]⟩
  | true =>
    cases hchecked : checkPatch parseHost patch with
    | error e => exact .inl ⟨.config e, by simp [patchTenant, hname, hchecked]⟩
    | ok checked =>
      cases hbytes : ch.keyBytes with
      | none => exact .inl ⟨.rng, by simp [patchTenant, hname, hchecked, hbytes]⟩
      | some keyBytes =>
        cases hdb : ch.stops with
        | true => exact .inl ⟨.db, by simp [patchTenant, hname, hchecked, hbytes, hdb]⟩
        | false =>
          by_cases hnew : digest (Bytes.ofStr ("wl_".toList ++ hexEncode keyBytes)) ∈
              db.apiKeys.map Prod.fst
          · left
            refine ⟨.db, ?_⟩
            simp only [patchTenant, hname, hchecked, hbytes, hdb, insertKey_of_mem hnew,
              Bool.not_true, Bool.false_eq_true, if_false]
          · exact .inr ⟨_, _, ⟨hname, ⟨checked, hchecked⟩, ⟨keyBytes, hbytes, rfl, rfl⟩, hdb⟩, hnew⟩

/-- `set_limits` fails and changes nothing, or merges all the fields. -/
theorem setLimits_cases (parseHost : Str → Option Str) (db : AdminDb) (ch : AdminChoice)
    (name : Str) (l : Limits) :
    (∃ e, setLimits parseHost ch name l db = (.error e, db)) ∨
      ∃ old, db.tenantLimits name = some old ∧ ch.stops = false ∧
        validateLimits (merged parseHost (.ofLimits l) old) = .ok () ∧
          setLimits parseHost ch name l db =
            (ch.reported (.ok ()), db.withLimits name (merged parseHost (.ofLimits l) old) []) := by
  cases hchecked : checkLimits parseHost l with
  | error e => exact .inl ⟨.config e, by simp [setLimits, hchecked]⟩
  | ok checked =>
    cases hdb : ch.stops with
    | true => exact .inl ⟨.db, by simp [setLimits, hchecked, hdb]⟩
    | false =>
      cases hrow : db.tenants name with
      | none =>
        obtain ⟨e, he⟩ := reported_error ch (.noSuchTenant name)
        exact .inl ⟨e, by rw [← he]; simp [setLimits, hchecked, hdb, hrow]⟩
      | some row =>
        obtain ⟨hmerged, hvalid⟩ := checkLimits_eq_ok hchecked row.limits
        refine .inr ⟨row.limits, by rw [AdminDb.tenantLimits, hrow]; rfl, rfl, ?_⟩
        rw [← hmerged]
        refine ⟨hvalid, ?_⟩
        simp only [setLimits, hchecked, hdb, hrow, AdminDb.putTenant, check_cols hvalid,
          Bool.false_eq_true, if_false, if_true]
        rfl

/-! ## The outcome in the database -/

/-- A call has the outcome of the settled one, or takes effect like it and is reported as failed. -/
def Settles {α : Type} (ch : AdminChoice) (q q' : Except AdminError α × AdminDb) : Prop :=
  q = q' ∨ ch.dbFails = true ∧ ch.tookEffect = true ∧ q = (.error .db, q'.2)

theorem settled_stops : ch.settled.stops = ch.stops := by
  simp [AdminChoice.stops, AdminChoice.settled]

theorem settled_reported {α : Type} (hstops : ch.stops = false) (r : Except AdminError α) :
    ch.settled.reported r = r := reported_of_works hstops r

theorem settles_reported {α : Type} (hstops : ch.stops = false) (r : Except AdminError α)
    (db : AdminDb) : Settles ch (ch.reported r, db) (ch.settled.reported r, db) := by
  rw [settled_reported hstops]
  cases hfails : ch.dbFails with
  | false =>
    rw [reported_of_works hfails]
    exact .inl rfl
  | true =>
    rw [AdminChoice.stops, hfails, Bool.true_and, Bool.not_eq_false'] at hstops
    rw [AdminChoice.reported, if_pos hfails]
    exact .inr ⟨hfails, hstops, rfl⟩

variable (parseHost digest ch db) in
theorem patchTenant_settles (name : Str) (patch : LimitsPatch) :
    Settles ch (patchTenant parseHost digest ch name patch db)
      (patchTenant parseHost digest ch.settled name patch db) := by
  have hkey : ch.settled.keyBytes = ch.keyBytes := rfl
  unfold patchTenant
  rw [settled_stops, hkey]
  cases validName name with
  | false => exact .inl rfl
  | true =>
    cases checkPatch parseHost patch with
    | error e => exact .inl rfl
    | ok checked =>
      cases ch.keyBytes with
      | none => exact .inl rfl
      | some keyBytes =>
        cases hstops : ch.stops with
        | true => exact .inl rfl
        | false =>
          simp only [Bool.not_true, Bool.false_eq_true, if_false]
          split
          · exact .inl rfl
          · exact settles_reported hstops _ _

variable (parseHost ch db) in
theorem setLimits_settles (name : Str) (l : Limits) :
    Settles ch (setLimits parseHost ch name l db) (setLimits parseHost ch.settled name l db) := by
  unfold setLimits
  rw [settled_stops]
  cases checkLimits parseHost l with
  | error e => exact .inl rfl
  | ok checked =>
    cases hstops : ch.stops with
    | true => exact .inl rfl
    | false =>
      simp only [Bool.false_eq_true, if_false]
      cases db.tenants name with
      | none => exact settles_reported hstops _ _
      | some row =>
        simp only
        split
        · exact .inl rfl
        · exact settles_reported hstops _ _

namespace Settles
variable {α : Type} {q q' : Except AdminError α × AdminDb}

theorem snd (h : Settles ch q q') : q.2 = q'.2 := by
  obtain rfl | ⟨-, -, rfl⟩ := h <;> rfl

theorem map {β : Type} (f : α → β) (h : Settles ch q q') :
    Settles ch (q.1.map f, q.2) (q'.1.map f, q'.2) := by
  obtain rfl | ⟨hfails, htook, rfl⟩ := h
  · exact .inl rfl
  · exact .inr ⟨hfails, htook, rfl⟩

end Settles

end

/-! ## Any operation -/

def AdminOp.tenant : AdminOp → Str
  | .patchTenant name _ | .createTenant name _ | .setLimits name _ => name

/-- The fields an operation sets. -/
def AdminOp.patch : AdminOp → LimitsPatch
  | .patchTenant _ patch => patch
  | .createTenant _ limits => (limits.map LimitsPatch.ofLimits).getD .default
  | .setLimits _ limits => .ofLimits limits

section
variable {parseHost : Str → Option Str} {digest : Bytes → Str} {db : AdminDb} {ch : AdminChoice}

/-- What a successful operation does to the limits. -/
structure Merges (parseHost : Str → Option Str) (op : AdminOp) (db db' : AdminDb) : Prop where
  sound : SoundRows db'
  limits : ∀ t, db'.tenantLimits t =
    if t = op.tenant then
      some (merged parseHost op.patch ((db.tenantLimits op.tenant).getD .default))
    else db.tenantLimits t

theorem patchTenant_merges (parseHost : Str → Option Str) (digest : Bytes → Str) (hs : SoundRows db)
    (ch : AdminChoice) (name : Str) (patch : LimitsPatch) :
    (∃ e, patchTenant parseHost digest ch.settled name patch db = (.error e, db)) ∨
      ∃ key db', patchTenant parseHost digest ch.settled name patch db = (.ok key, db') ∧
        Merges parseHost (.patchTenant name patch) db db' := by
  rcases patchTenant_cases parseHost digest db ch.settled name patch with
    herr | ⟨keyHash, apiKey, haccepted, hnew⟩
  · exact .inl herr
  · obtain ⟨checked, hchecked⟩ := haccepted.checked
    have hstops : ch.stops = false := settled_stops ▸ haccepted.db
    have hok := patchTenant_of_accepted hs haccepted hnew
    rw [settled_reported hstops] at hok
    refine .inr ⟨_, _, hok, ?_⟩
    have hvalid : validateLimits (merged parseHost patch ((db.tenantLimits name).getD .default))
        = .ok () := by
      apply validateLimits_merged hchecked
      cases hl : db.tenantLimits name with
      | none => exact validateLimits_default
      | some l => exact (hs.tenants_eq name).2 l hl
    exact ⟨hs.withLimits name hvalid _, fun t => tenantLimits_withLimits hvalid _ t⟩

/-- In the database every operation fails and changes nothing, or merges its fields into its tenant's
limits. -/
theorem applyAdmin_cases (parseHost : Str → Option Str) (digest : Bytes → Str) (hs : SoundRows db)
    (op : AdminOp) (ch : AdminChoice) :
    (∃ e, applyAdmin parseHost digest op ch.settled db = (.error e, db)) ∨
      ∃ db', applyAdmin parseHost digest op ch.settled db = (.ok (), db') ∧
        Merges parseHost op db db' := by
  cases op with
  | patchTenant name patch =>
    rcases patchTenant_merges parseHost digest hs ch name patch with
      ⟨e, he⟩ | ⟨key, db', hok, hmerges⟩
    · exact .inl ⟨e, by simp only [applyAdmin, he, Except.map]⟩
    · exact .inr ⟨db', by simp only [applyAdmin, hok, Except.map], hmerges⟩
  | createTenant name limits =>
    rcases patchTenant_merges parseHost digest hs ch name
        ((limits.map LimitsPatch.ofLimits).getD .default) with
      ⟨e, he⟩ | ⟨key, db', hok, hmerges⟩
    · exact .inl ⟨e, by simp only [applyAdmin, createTenant, he, Except.map]⟩
    · exact .inr ⟨db', by simp only [applyAdmin, createTenant, hok, Except.map],
        hmerges.sound, hmerges.limits⟩
  | setLimits name l =>
    rcases setLimits_cases parseHost db ch.settled name l with
      ⟨e, he⟩ | ⟨old, hold, hstops, hvalid, hok⟩
    · exact .inl ⟨e, he⟩
    · rw [settled_stops] at hstops
      rw [settled_reported hstops] at hok
      refine .inr ⟨_, hok, hs.withLimits name hvalid _, fun t => ?_⟩
      rw [tenantLimits_withLimits hvalid]
      simp only [AdminOp.tenant, AdminOp.patch, hold, Option.getD_some]

variable (parseHost digest ch db) in
theorem applyAdmin_settles (op : AdminOp) :
    Settles ch (applyAdmin parseHost digest op ch db)
      (applyAdmin parseHost digest op ch.settled db) := by
  cases op with
  | patchTenant name patch => exact (patchTenant_settles parseHost digest db ch name patch).map _
  | createTenant name limits =>
    exact (patchTenant_settles parseHost digest db ch name
      ((limits.map LimitsPatch.ofLimits).getD .default)).map _
  | setLimits name l => exact setLimits_settles parseHost db ch name l

end

/-! ## Runs -/

/-- The values that successful calls have set for a field of a tenant. -/
def written {α : Type} (t : Str) (field : LimitsPatch → Option α) (history : AdminHistory) : List α :=
  history.filterMap fun e => if e.1.tenant = t ∧ e.2.toBool then field e.1.patch else none

/-- A successful call has been made for the tenant. -/
def Called (t : Str) (history : AdminHistory) : Prop := ∃ e ∈ history, e.1.tenant = t ∧ e.2 = .ok ()

section
variable {parseHost : Str → Option Str} {digest : Bytes → Str} {history : AdminHistory}
  {db : AdminDb} {op : AdminOp} {t : Str}

theorem written_error {α : Type} (field : LimitsPatch → Option α) (e : AdminError) :
    written t field (history ++ [(op, .error e)]) = written t field history := by
  simp [written, List.filterMap_append, Except.toBool]

theorem written_other {α : Type} (field : LimitsPatch → Option α) (h : op.tenant ≠ t) :
    written t field (history ++ [(op, .ok ())]) = written t field history := by
  simp [written, List.filterMap_append, h]

/-- The value of the last call that sets the field. -/
theorem last_written_ok {α : Type} (field : LimitsPatch → Option α) (d : α) :
    ((written op.tenant field (history ++ [(op, .ok ())])).getLast?).getD d =
      (field op.patch).getD ((written op.tenant field history).getLast?.getD d) := by
  cases hfield : field op.patch with
  | none => simp [written, List.filterMap_append, hfield]
  | some v => simp [written, List.filterMap_append, hfield, Except.toBool]

/-- Each tenant has the last value set for each field, or the default. -/
def lastWritten (parseHost : Str → Option Str) (t : Str) (history : AdminHistory) : Limits where
  cpuBudgetMs := (written t LimitsPatch.cpuBudgetMs history).getLast?.getD Limits.default.cpuBudgetMs
  memCapBytes := (written t LimitsPatch.memCapBytes history).getLast?.getD Limits.default.memCapBytes
  allowedHosts := (written t (LimitsPatch.hosts parseHost) history).getLast?.getD
    Limits.default.allowedHosts

theorem lastWritten_error (e : AdminError) :
    lastWritten parseHost t (history ++ [(op, .error e)]) = lastWritten parseHost t history := by
  simp only [lastWritten, written_error]

theorem lastWritten_other (h : op.tenant ≠ t) :
    lastWritten parseHost t (history ++ [(op, .ok ())]) = lastWritten parseHost t history := by
  simp only [lastWritten, written_other _ h]

theorem lastWritten_ok : lastWritten parseHost op.tenant (history ++ [(op, .ok ())]) =
    merged parseHost op.patch (lastWritten parseHost op.tenant history) := by
  simp only [lastWritten, last_written_ok, merged]

theorem written_uncalled {α : Type} (field : LimitsPatch → Option α) (h : ¬Called t history) :
    written t field history = [] := by
  rw [written, List.filterMap_eq_nil_iff]
  intro e he
  apply if_neg
  rintro ⟨htenant, hok⟩
  refine h ⟨e, he, htenant, ?_⟩
  cases hres : e.2 with
  | error err =>
    rw [hres] at hok
    cases hok
  | ok u => rfl

theorem lastWritten_uncalled (h : ¬Called t history) :
    lastWritten parseHost t history = .default := by
  simp only [lastWritten, written_uncalled _ h]
  rfl

theorem called_append (r : Except AdminError Unit) :
    Called t (history ++ [(op, r)]) ↔ Called t history ∨ op.tenant = t ∧ r = .ok () := by
  simp only [Called, List.mem_append, List.mem_singleton, or_and_right, exists_or,
    exists_eq_left]

/-- The tables against the calls so far. -/
structure AdminInv (parseHost : Str → Option Str) (s : AdminHistory × AdminDb) : Prop where
  sound : SoundRows s.2
  called : ∀ t, (s.2.tenantLimits t).isSome ↔ Called t s.1
  limits : ∀ t l, s.2.tenantLimits t = some l → l = lastWritten parseHost t s.1

theorem AdminInv.getD (h : AdminInv parseHost (history, db)) (t : Str) :
    (db.tenantLimits t).getD .default = lastWritten parseHost t history := by
  cases hl : db.tenantLimits t with
  | some l => exact h.limits t l hl
  | none =>
    have hnot : ¬Called t history := by
      rw [← h.called, hl]
      exact Bool.false_ne_true
    rw [lastWritten_uncalled hnot]
    rfl

theorem AdminInv.step (h : AdminInv parseHost (history, db)) (call : AdminOp × AdminChoice) :
    AdminInv parseHost (adminStep parseHost digest (history, db) call) := by
  obtain ⟨op, ch⟩ := call
  have hsettles := (applyAdmin_settles parseHost digest db ch op).snd
  rcases applyAdmin_cases parseHost digest h.sound op ch with
    ⟨e, he⟩ | ⟨db', hok, hmerges⟩
  · simp only [adminStep, hsettles, he]
    refine ⟨h.sound, fun t => ?_, fun t l hl => ?_⟩
    · rw [called_append, h.called]
      simp
    · rw [lastWritten_error]
      exact h.limits t l hl
  · simp only [adminStep, hsettles, hok]
    refine ⟨hmerges.sound, fun t => ?_, fun t l hl => ?_⟩
    · rw [called_append, hmerges.limits]
      split
      · rename_i ht
        simp [ht]
      · rename_i ht
        rw [h.called]
        simp [Ne.symm ht]
    · rw [hmerges.limits] at hl
      split at hl
      · rename_i ht
        subst ht
        rw [lastWritten_ok, ← h.getD]
        exact (Option.some.inj hl).symm
      · rename_i ht
        rw [lastWritten_other (Ne.symm ht)]
        exact h.limits t l hl

/-- What every call keeps, a run keeps. -/
theorem adminRun_keeps {P : AdminHistory × AdminDb → Prop} (hnew : P ([], .new))
    (hstep : ∀ s call, P s → P (adminStep parseHost digest s call))
    (calls : List (AdminOp × AdminChoice)) : P (adminRun parseHost digest calls) := by
  unfold adminRun
  generalize (([], .new) : AdminHistory × AdminDb) = s at hnew
  induction calls generalizing s with
  | nil => exact hnew
  | cons call calls ih => exact ih _ (hstep s call hnew)

theorem adminInv_run (parseHost : Str → Option Str) (digest : Bytes → Str)
    (calls : List (AdminOp × AdminChoice)) :
    AdminInv parseHost (adminRun parseHost digest calls) := by
  refine adminRun_keeps ⟨sound_new, fun t => ?_, fun t l hl => by cases hl⟩
    (fun _ call h => h.step call) calls
  simp [Called, AdminDb.tenantLimits, AdminDb.new]

/-! ## Two patches -/

/-- No field is set by both. -/
structure DisjointFields (p q : LimitsPatch) : Prop where
  allowedHosts : p.allowedHosts = none ∨ q.allowedHosts = none
  cpuBudgetMs : p.cpuBudgetMs = none ∨ q.cpuBudgetMs = none
  memCapBytes : p.memCapBytes = none ∨ q.memCapBytes = none

theorem getD_getD_comm {α : Type} {o o' : Option α} (h : o = none ∨ o' = none) (a : α) :
    o'.getD (o.getD a) = o.getD (o'.getD a) := by
  rcases h with rfl | rfl <;> rfl

theorem merged_comm {p q : LimitsPatch} (h : DisjointFields p q) (l : Limits) :
    merged parseHost q (merged parseHost p l) = merged parseHost p (merged parseHost q l) := by
  have hhosts : p.hosts parseHost = none ∨ q.hosts parseHost = none := by
    rcases h.allowedHosts with hp | hp
    · left
      rw [LimitsPatch.hosts, hp]
      rfl
    · right
      rw [LimitsPatch.hosts, hp]
      rfl
  simp only [merged, Limits.mk.injEq]
  exact ⟨getD_getD_comm h.cpuBudgetMs _, getD_getD_comm h.memCapBytes _, getD_getD_comm hhosts _⟩

/-- A patch that succeeds. -/
structure PatchDone (parseHost : Str → Option Str) (digest : Bytes → Str) (ch : AdminChoice)
    (name : Str) (patch : LimitsPatch) (db : AdminDb) (key : IssuedKey) (keyHash : Str) : Prop where
  accepted : AcceptedPatch parseHost digest ch name patch keyHash key.apiKey
  works : ch.dbFails = false
  tenant : key.tenant = name
  fresh : keyHash ∉ db.apiKeys.map Prod.fst
  valid : validateLimits (merged parseHost patch ((db.tenantLimits name).getD .default)) = .ok ()

theorem patchTenant_eq_ok (hs : SoundRows db) {ch : AdminChoice} {name : Str} {patch : LimitsPatch}
    {key : IssuedKey} {db' : AdminDb}
    (h : patchTenant parseHost digest ch name patch db = (.ok key, db')) :
    ∃ keyHash, PatchDone parseHost digest ch name patch db key keyHash ∧ db' = db.withLimits name
      (merged parseHost patch ((db.tenantLimits name).getD .default)) [(keyHash, name)] := by
  rcases patchTenant_cases parseHost digest db ch name patch with
    ⟨e, he⟩ | ⟨keyHash, apiKey, haccepted, hnew⟩
  · rw [he] at h
    cases h
  · rw [patchTenant_of_accepted hs haccepted hnew] at h
    obtain ⟨hreported, hdb⟩ := Prod.mk.inj h
    obtain ⟨hworks, hkey⟩ := reported_eq_ok hreported
    obtain rfl := Except.ok.inj hkey
    obtain ⟨checked, hchecked⟩ := haccepted.checked
    refine ⟨keyHash, ⟨haccepted, hworks, rfl, hnew, ?_⟩, hdb.symm⟩
    apply validateLimits_merged hchecked
    cases hl : db.tenantLimits name with
    | none => exact validateLimits_default
    | some l => exact (hs.tenants_eq name).2 l hl

theorem PatchDone.eq_ok (hs : SoundRows db) {ch : AdminChoice} {name : Str} {patch : LimitsPatch}
    {key : IssuedKey} {keyHash : Str} (haccepted : AcceptedPatch parseHost digest ch name patch
      keyHash key.apiKey) (hworks : ch.dbFails = false) (htenant : key.tenant = name)
    (hfresh : keyHash ∉ db.apiKeys.map Prod.fst) :
    patchTenant parseHost digest ch name patch db = (.ok key, db.withLimits name
      (merged parseHost patch ((db.tenantLimits name).getD .default)) [(keyHash, name)]) := by
  rw [patchTenant_of_accepted hs haccepted hfresh, reported_of_works hworks, ← htenant]

/-- Two patches of one tenant that succeed one after the other do so in the other order, with the
same keys issued and the same limits. -/
theorem patches_commute (hs : SoundRows db) {ch ch' : AdminChoice} {name : Str} {p q : LimitsPatch}
    (hdisjoint : DisjointFields p q) {key key' : IssuedKey} {db₁ db₂ : AdminDb}
    (h₁ : patchTenant parseHost digest ch name p db = (.ok key, db₁))
    (h₂ : patchTenant parseHost digest ch' name q db₁ = (.ok key', db₂)) :
    ∃ db₃ db₄, patchTenant parseHost digest ch' name q db = (.ok key', db₃) ∧
      patchTenant parseHost digest ch name p db₃ = (.ok key, db₄) ∧
        (∀ t, db₄.tenantLimits t = db₂.tenantLimits t) ∧ db₄.apiKeys.Perm db₂.apiKeys := by
  obtain ⟨keyHash, hp, rfl⟩ := patchTenant_eq_ok hs h₁
  obtain ⟨keyHash', hq, rfl⟩ := patchTenant_eq_ok (hs.withLimits name hp.valid [(keyHash, name)]) h₂
  have hkeys : keyHash' ≠ keyHash ∧ keyHash' ∉ db.apiKeys.map Prod.fst := by
    simpa [AdminDb.withLimits] using hq.fresh
  have hfirst := PatchDone.eq_ok hs hq.accepted hq.works hq.tenant hkeys.2
  obtain ⟨_, hq', -⟩ := patchTenant_eq_ok hs hfirst
  have hs₃ := hs.withLimits name hq'.valid [(keyHash', name)]
  have hfresh : keyHash ∉ (db.withLimits name
      (merged parseHost q ((db.tenantLimits name).getD .default))
        [(keyHash', name)]).apiKeys.map Prod.fst := by
    simpa [AdminDb.withLimits, Ne.symm hkeys.1] using hp.fresh
  have hsecond := PatchDone.eq_ok hs₃ hp.accepted hp.works hp.tenant hfresh
  obtain ⟨_, hp', -⟩ := patchTenant_eq_ok hs₃ hsecond
  refine ⟨_, _, hfirst, hsecond, fun t => ?_, ?_⟩
  · rw [tenantLimits_withLimits hp'.valid, tenantLimits_withLimits hq.valid]
    split
    · rw [tenantLimits_withLimits hq'.valid, tenantLimits_withLimits hp.valid, if_pos rfl,
        if_pos rfl, Option.getD_some, Option.getD_some, merged_comm hdisjoint]
    · rename_i ht
      rw [tenantLimits_withLimits hq'.valid, tenantLimits_withLimits hp.valid, if_neg ht, if_neg ht]
  · exact List.Perm.swap _ _ _

end

/-! ## The main result -/

/-- After any sequence of calls: each field of a tenant has the last value that a successful call
set, or its default; the next call, if it fails, changes nothing (unless its commit is only reported
as failed), and if it is a patch that succeeds adds one key; patches of disjoint fields commute; and
every row is what valid limits are stored as. -/
theorem tenant_patches_merge (parseHost : Str → Option Str) (digest : Bytes → Str)
    (calls : List (AdminOp × AdminChoice)) :
    let history := (adminRun parseHost digest calls).1
    let db := (adminRun parseHost digest calls).2
    (∀ t, ((db.tenantLimits t).isSome ↔ Called t history) ∧
        ∀ l, db.tenantLimits t = some l → l = lastWritten parseHost t history) ∧
      (∀ op ch e, (applyAdmin parseHost digest op ch db).1 = .error e →
        e ≠ .db ∨ ch.dbFails = false ∨ ch.tookEffect = false →
          (applyAdmin parseHost digest op ch db).2 = db) ∧
      (∀ ch name patch key, (patchTenant parseHost digest ch name patch db).1 = .ok key →
        ∃ keyHash, (patchTenant parseHost digest ch name patch db).2.apiKeys =
          (keyHash, name) :: db.apiKeys) ∧
      (∀ ch ch' name p q key key' db₁ db₂, DisjointFields p q →
        patchTenant parseHost digest ch name p db = (.ok key, db₁) →
        patchTenant parseHost digest ch' name q db₁ = (.ok key', db₂) →
        ∃ db₃ db₄, patchTenant parseHost digest ch' name q db = (.ok key', db₃) ∧
          patchTenant parseHost digest ch name p db₃ = (.ok key, db₄) ∧
            (∀ t, db₄.tenantLimits t = db₂.tenantLimits t) ∧ db₄.apiKeys.Perm db₂.apiKeys) ∧
      ∀ name row, db.tenants name = some row →
        validateLimits row.limits = .ok () ∧ cols row.limits = row := by
  intro history db
  have hinv := adminInv_run parseHost digest calls
  have hs : SoundRows db := hinv.sound
  refine ⟨fun t => ⟨hinv.called t, hinv.limits t⟩, ?_, ?_, ?_, ?_⟩
  · intro op ch e he hatomic
    rcases applyAdmin_settles parseHost digest db ch op with hsettled | ⟨hfails, htook, hdb⟩
    · rw [hsettled] at he ⊢
      rcases applyAdmin_cases parseHost digest hs op ch with ⟨e', he'⟩ | ⟨db', hok, -⟩
      · rw [he']
      · rw [hok] at he
        cases he
    · rw [hdb] at he
      rcases hatomic with hne | hnot | hnot
      · exact absurd (Except.error.inj he).symm hne
      · rw [hfails] at hnot
        cases hnot
      · rw [htook] at hnot
        cases hnot
  · intro ch name patch key hkey
    have hok : patchTenant parseHost digest ch name patch db =
        (.ok key, (patchTenant parseHost digest ch name patch db).2) := by
      rw [← hkey]
    obtain ⟨keyHash, -, hdb⟩ := patchTenant_eq_ok hs hok
    exact ⟨keyHash, by rw [hdb]; rfl⟩
  · intro ch ch' name p q key key' db₁ db₂ hdisjoint h₁ h₂
    exact patches_commute hs hdisjoint h₁ h₂
  · intro name row hrow
    obtain ⟨l, hl, rfl⟩ := hs name row hrow
    rw [limits_cols hl]
    exact ⟨hl, rfl⟩

/-- A tenant is created with a cap, gets a budget with a commit that is reported as failed, and then
has its limits set; a host in capitals and with a dot is added, and another tenant is created. -/
def fiveCalls : List (AdminOp × AdminChoice) :=
  [(.createTenant ['t'] (some ⟨5, 1048576, []⟩), ⟨some [1], false, false⟩),
    (.patchTenant ['t'] ⟨none, some 7, none⟩, ⟨some [2], true, true⟩),
    (.setLimits ['t'] ⟨9, 2097152, [['b']]⟩, ⟨none, false, false⟩),
    (.patchTenant ['t'] ⟨some [['A', '.']], none, none⟩, ⟨some [3], false, false⟩),
    (.createTenant ['u'] none, ⟨some [4], false, false⟩)]

theorem tenant_patches_merge_two :
    (adminRun some Bytes.toStringLossy fiveCalls).2.tenantLimits ['t'] =
        some ⟨9, 2097152, [['a']]⟩ ∧
      lastWritten some ['t'] (adminRun some Bytes.toStringLossy fiveCalls).1 =
        ⟨9, 2097152, [['a']]⟩ ∧
      (adminRun some Bytes.toStringLossy fiveCalls).2.apiKeys.length = 4 ∧
      (applyAdmin some Bytes.toStringLossy (.setLimits ['x'] .default) ⟨none, false, false⟩
        (adminRun some Bytes.toStringLossy fiveCalls).2).2 =
          (adminRun some Bytes.toStringLossy fiveCalls).2 := by
  have hmerge := tenant_patches_merge some Bytes.toStringLossy fiveCalls
  have hlimits : (adminRun some Bytes.toStringLossy fiveCalls).2.tenantLimits ['t'] =
      some ⟨9, 2097152, [['a']]⟩ := by decide +kernel
  have hlast := (hmerge.1 ['t']).2 _ hlimits
  have hnone : (applyAdmin some Bytes.toStringLossy (.setLimits ['x'] .default)
      ⟨none, false, false⟩ (adminRun some Bytes.toStringLossy fiveCalls).2).1 =
        .error (.noSuchTenant ['x']) := by decide +kernel
  exact ⟨hlimits, hlast.symm, by decide +kernel, hmerge.2.1 _ _ _ hnone (.inr (.inl rfl))⟩

end Warpline
