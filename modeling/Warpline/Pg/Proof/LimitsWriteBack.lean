import Warpline.Core.Proof.HostsKept
import Warpline.Pg.Proof.AdminMerge

/-!
# Writing stored limits back

The stored hosts of a tenant are what `validate_allowed_hosts` made of those the last successful
call gave for it (`validate_givenHosts`), so writing the limits back succeeds and changes nothing
exactly when these were storable. `limits_write_back_iff` is the main result; `plainHosts` is a host
parser under which it can be computed.
-/

set_option autoImplicit false

namespace Warpline

/-- The hosts that the last successful call with hosts gave for `t`, as it gave them. -/
def givenHosts (t : Str) (history : AdminHistory) : List Str :=
  (written t LimitsPatch.allowedHosts history).getLast?.getD []

section
variable {parseHost : Str → Option Str} {digest : Bytes → Str} {history : AdminHistory}
  {db : AdminDb} {op : AdminOp} {ch : AdminChoice} {name t : Str} {l : Limits}

/-! ## Accepted hosts -/

theorem patch_accepted {patch : LimitsPatch} {key : IssuedKey}
    (h : (patchTenant parseHost digest ch name patch db).1 = .ok key) :
    ∃ stored, validateAllowedHosts parseHost (patch.allowedHosts.getD []) = .ok stored := by
  obtain ⟨e, he⟩ | ⟨keyHash, apiKey, haccepted, -⟩ :=
    patchTenant_cases parseHost digest db ch name patch
  · rw [he] at h
    cases h
  · obtain ⟨checked, hchecked⟩ := haccepted.checked
    exact ⟨_, (checked_eq_ok hchecked).2.2.1⟩

theorem set_accepted (h : (setLimits parseHost ch name l db).1 = .ok ()) :
    ∃ stored, validateAllowedHosts parseHost l.allowedHosts = .ok stored := by
  cases hchecked : checkLimits parseHost l with
  | error e =>
    rw [setLimits, hchecked] at h
    cases h
  | ok checked => exact ⟨_, (checked_eq_ok hchecked).2.2.1⟩

/-- The hosts of a call that succeeds have been accepted. -/
theorem hosts_accepted (h : (applyAdmin parseHost digest op ch db).1 = .ok ()) :
    ∃ stored, validateAllowedHosts parseHost (op.patch.allowedHosts.getD []) = .ok stored := by
  cases op with
  | patchTenant name patch =>
    cases hr : (patchTenant parseHost digest ch name patch db).1 with
    | error e => simp [applyAdmin, hr, Except.map] at h
    | ok key => exact patch_accepted hr
  | createTenant name limits =>
    cases hr : (createTenant parseHost digest ch name limits db).1 with
    | error e => simp [applyAdmin, hr, Except.map] at h
    | ok key => exact patch_accepted hr
  | setLimits name l => exact set_accepted h

/-! ## Runs -/

theorem givenHosts_ok : givenHosts op.tenant (history ++ [(op, .ok ())]) =
    op.patch.allowedHosts.getD (givenHosts op.tenant history) := last_written_ok _ _

/-- The stored hosts are what has been made of the given ones. -/
def Normalised (parseHost : Str → Option Str) (s : AdminHistory × AdminDb) : Prop :=
  ∀ t, validateAllowedHosts parseHost (givenHosts t s.1) =
    .ok (lastWritten parseHost t s.1).allowedHosts

theorem Normalised.step (h : Normalised parseHost (history, db)) (call : AdminOp × AdminChoice) :
    Normalised parseHost (adminStep parseHost digest (history, db) call) := by
  obtain ⟨op, ch⟩ := call
  intro t
  simp only [adminStep]
  cases hr : (applyAdmin parseHost digest op ch.settled db).1 with
  | error e =>
    rw [givenHosts, written_error, lastWritten_error]
    exact h t
  | ok u =>
    by_cases ht : op.tenant = t
    · subst ht
      rw [givenHosts_ok, lastWritten_ok]
      obtain ⟨stored, hstored⟩ := hosts_accepted hr
      cases hp : op.patch.allowedHosts with
      | none => simpa [merged, LimitsPatch.hosts, hp] using h op.tenant
      | some hosts =>
        rw [hp, Option.getD_some] at hstored
        simp [merged, LimitsPatch.hosts, hp, hstored, Except.toOption]
    · rw [givenHosts, written_other _ ht, lastWritten_other ht]
      exact h t

theorem normalised_run (parseHost : Str → Option Str) (digest : Bytes → Str)
    (calls : List (AdminOp × AdminChoice)) :
    Normalised parseHost (adminRun parseHost digest calls) :=
  adminRun_keeps (fun _ => rfl) (fun _ call h => h.step call) calls

/-- A run records its calls. -/
theorem adminRun_ops (parseHost : Str → Option Str) (digest : Bytes → Str)
    (calls : List (AdminOp × AdminChoice)) :
    (adminRun parseHost digest calls).1.map Prod.fst = calls.map Prod.fst := by
  have hfold : ∀ s : AdminHistory × AdminDb,
      (calls.foldl (adminStep parseHost digest) s).1.map Prod.fst =
        s.1.map Prod.fst ++ calls.map Prod.fst := by
    induction calls with
    | nil => simp
    | cons call calls ih =>
      intro s
      rw [List.foldl_cons, ih]
      simp [adminStep]
  simpa [adminRun] using hfold ([], .new)

/-- Hosts that were given were given by some call. -/
theorem givenHosts_of_call (t : Str) (history : AdminHistory) : givenHosts t history = [] ∨
    ∃ e ∈ history, e.1.patch.allowedHosts = some (givenHosts t history) := by
  unfold givenHosts
  cases hlast : (written t LimitsPatch.allowedHosts history).getLast? with
  | none => exact .inl rfl
  | some hosts =>
    right
    have hmem := List.mem_of_getLast? hlast
    obtain ⟨e, he, hfield⟩ := List.mem_filterMap.1 hmem
    refine ⟨e, he, ?_⟩
    split at hfield
    · exact hfield
    · cases hfield

/-! ## Writing back -/

theorem checkLimits_self (hvalid : validateLimits l = .ok ())
    (hhosts : validateAllowedHosts parseHost l.allowedHosts = .ok l.allowedHosts) :
    checkLimits parseHost l = .ok l := by
  obtain ⟨hcpu, hmem⟩ := validateLimits_iff.1 hvalid
  simp only [checkLimits, Limits.new, Limits.withAllowedHosts, hcpu, hmem, hhosts, bind,
    Except.bind]
  rfl

theorem setLimits_self_iff (hs : SoundRows db) (hl : db.tenantLimits t = some l) :
    (∀ ch : AdminChoice, ch.dbFails = false → setLimits parseHost ch t l db = (.ok (), db)) ↔
      validateAllowedHosts parseHost l.allowedHosts = .ok l.allowedHosts := by
  have hrow := (hs.tenants_eq t).1
  rw [hl, Option.map_some] at hrow
  have hvalid := (hs.tenants_eq t).2 l hl
  constructor
  · intro h
    have hback := h ⟨none, false, false⟩ rfl
    obtain ⟨stored, hstored⟩ := set_accepted (congrArg Prod.fst hback)
    obtain ⟨e, he⟩ | ⟨old, hold, -, hmerged, hset⟩ :=
      setLimits_cases parseHost db ⟨none, false, false⟩ t l
    · rw [he] at hback
      cases hback
    · rw [hset] at hback
      have hsame : (db.withLimits t (merged parseHost (.ofLimits l) old) []).tenantLimits t =
          some (merged parseHost (.ofLimits l) old) := by
        rw [tenantLimits_withLimits hmerged, if_pos rfl]
      rw [(Prod.mk.inj hback).2, hl, Option.some.injEq] at hsame
      have hhosts := congrArg Limits.allowedHosts hsame
      simp only [merged, LimitsPatch.ofLimits, LimitsPatch.hosts, Option.bind_some, hstored,
        Except.toOption, Option.getD_some] at hhosts
      rw [hstored, ← hhosts]
  · intro hhosts ch hdb
    have hput : db.putTenant t (cols l) = some db := by
      rw [AdminDb.putTenant, if_pos (check_cols hvalid), ← hrow, Function.update_eq_self]
    have hstops : ch.stops = false := by rw [AdminChoice.stops, hdb, Bool.false_and]
    simp only [setLimits, checkLimits_self hvalid hhosts, hstops, reported_of_works hdb, hrow, hput,
      Bool.false_eq_true, if_false]

end

/-- Hosts that are accepted are stored as what is stored as itself exactly when they are storable.
In every state that calls reach, writing a tenant's limits back succeeds and changes nothing exactly
when the hosts that were given for it last are storable; so it does in all runs that are given
storable hosts only. -/
theorem limits_write_back_iff (H : HostCrate) (hH : H.Whatwg) (digest : Bytes → Str) :
    (∀ hosts stored, validateAllowedHosts H.parseHost hosts = .ok stored →
      (validateAllowedHosts H.parseHost stored = .ok stored ↔ H.Storable hosts)) ∧
    ∀ calls : List (AdminOp × AdminChoice),
      let history := (adminRun H.parseHost digest calls).1
      let db := (adminRun H.parseHost digest calls).2
      (∀ t l, db.tenantLimits t = some l →
        ((∀ ch : AdminChoice, ch.dbFails = false →
            setLimits H.parseHost ch t l db = (.ok (), db)) ↔
          H.Storable (givenHosts t history))) ∧
      ((∀ call ∈ calls, ∀ hosts, call.1.patch.allowedHosts = some hosts → H.Storable hosts) →
        ∀ t l, db.tenantLimits t = some l → ∀ ch : AdminChoice, ch.dbFails = false →
          setLimits H.parseHost ch t l db = (.ok (), db)) := by
  refine ⟨fun hosts stored h => validate_again_iff hH h, fun calls => ?_⟩
  intro history db
  have hinv : AdminInv H.parseHost (history, db) := adminInv_run H.parseHost digest calls
  have hiff : ∀ t l, db.tenantLimits t = some l →
      ((∀ ch : AdminChoice, ch.dbFails = false →
          setLimits H.parseHost ch t l db = (.ok (), db)) ↔
        H.Storable (givenHosts t history)) := by
    intro t l hl
    have hgiven := normalised_run H.parseHost digest calls t
    rw [← hinv.limits t l hl] at hgiven
    rw [setLimits_self_iff hinv.sound hl]
    exact validate_again_iff hH hgiven
  refine ⟨hiff, fun hstorable t l hl => (hiff t l hl).2 ?_⟩
  obtain hnone | ⟨e, he, hgave⟩ := givenHosts_of_call t history
  · intro host hhost
    rw [hnone] at hhost
    cases hhost
  · have hcall : e.1 ∈ calls.map Prod.fst := by
      rw [← adminRun_ops H.parseHost digest calls]
      exact List.mem_map_of_mem he
    obtain ⟨call, hmem, hop⟩ := List.mem_map.1 hcall
    exact hstorable call hmem _ (by rw [hop, hgave])

/-! ## A parser of plain hosts

Dotted IPv4 addresses, and domains in lower case. -/

namespace PlainHosts

def octetStr (b : UInt8) : Str := Nat.toDigits 10 b.toNat

def readOctet (label : Str) : Option UInt8 :=
  let n := label.foldl (fun n c => 10 * n + (c.toNat - '0'.toNat)) 0
  if n < 256 ∧ Nat.toDigits 10 n = label then some (.ofNat n) else none

def dotted (ip : Ipv4Addr) : Str := ['.'].intercalate (ip.octets.map octetStr)

def readDotted (host : Str) : Option Ipv4Addr :=
  match (host.splitOn '.').map readOctet with
  | [some a, some b, some c, some d] => some ⟨a, b, c, d⟩
  | _ => none

def isPlain (c : Char) : Bool := c.isLower || c.isDigit || c == '-' || c == '.'

def plainHosts : HostCrate where
  parse := fun host =>
    if host = [] then none
    else if endsInNumber host then (readDotted host).map .ipv4
    else if host.all isPlain then some (.domain host)
    else none
  display := fun
    | .domain name => name
    | .ipv4 ip => dotted ip
    | .ipv6 _ => "[]".toList

/-- Each octet is digits, and read back. -/
theorem octetStr_spec (b : UInt8) : octetStr b ≠ [] ∧ (octetStr b).all Char.isDigit = true ∧
    readOctet (octetStr b) = some b := by
  have hall : ∀ n < 256, Nat.toDigits 10 n ≠ [] ∧ (Nat.toDigits 10 n).all Char.isDigit = true ∧
      readOctet (Nat.toDigits 10 n) = some (.ofNat n) := by
    decide +kernel
  have hb := hall b.toNat b.toNat_lt
  rwa [UInt8.ofNat_toNat] at hb

theorem digit_of_octet {b : UInt8} {c : Char} (h : c ∈ octetStr b) : c.isDigit = true :=
  List.all_eq_true.1 (octetStr_spec b).2.1 c h

theorem not_dot_of_digit {c : Char} (h : c.isDigit = true) : c ≠ '.' := by
  rintro rfl
  cases h

/-- The last octet comes after a dot. -/
theorem dotted_eq (ip : Ipv4Addr) : ∃ front, dotted ip = front ++ ['.'] ++ octetStr ip.d := by
  refine ⟨['.'].intercalate ([ip.a, ip.b, ip.c].map octetStr), ?_⟩
  simp [dotted, Ipv4Addr.octets, List.intercalate]

theorem dotted_plain {ip : Ipv4Addr} {c : Char} (h : c ∈ dotted ip) :
    c.isDigit = true ∨ c = '.' := by
  simp only [dotted, Ipv4Addr.octets, List.intercalate, List.map_cons, List.map_nil,
    List.intersperse_cons_cons, List.intersperse_singleton, List.flatten_cons, List.flatten_nil,
    List.append_nil, List.mem_append, List.mem_singleton] at h
  obtain h | h | h | h | h | h | h := h
  · exact .inl (digit_of_octet h)
  · exact .inr h
  · exact .inl (digit_of_octet h)
  · exact .inr h
  · exact .inl (digit_of_octet h)
  · exact .inr h
  · exact .inl (digit_of_octet h)

theorem last_dotted (ip : Ipv4Addr) : ¬['.'] <:+ dotted ip := by
  intro h
  obtain ⟨front, hfront⟩ := dotted_eq ip
  rw [hfront] at h
  have hdot : '.' ∈ octetStr ip.d := by
    have hsuffix := (List.suffix_append (front ++ ['.']) (octetStr ip.d))
    obtain hin | hin := List.suffix_or_suffix_of_suffix h hsuffix
    · exact hin.subset (by simp)
    · have hlen := hin.length_le
      have hpos := List.length_pos_iff.2 (octetStr_spec ip.d).1
      have heq : octetStr ip.d = ['.'] := hin.eq_of_length (by simp at hlen ⊢; omega)
      rw [heq]
      simp
  exact not_dot_of_digit (digit_of_octet hdot) rfl

theorem readDotted_dotted (ip : Ipv4Addr) : readDotted (dotted ip) = some ip := by
  have hsplit : (dotted ip).splitOn '.' = ip.octets.map octetStr := by
    apply List.splitOn_intercalate
    · intro label hlabel hdot
      obtain ⟨b, -, rfl⟩ := List.mem_map.1 hlabel
      exact not_dot_of_digit (digit_of_octet hdot) rfl
    · simp [Ipv4Addr.octets]
  rw [readDotted, hsplit, List.map_map]
  simp [Ipv4Addr.octets, Function.comp, (octetStr_spec _).2.2]

theorem isIpv4Number_of_digits {label : Str} (hne : label ≠ [])
    (h : label.all Char.isDigit = true) : isIpv4Number label = true := by
  unfold isIpv4Number
  rw [Bool.or_eq_true]
  left
  simp [hne, h]

theorem endsInNumber_dotted (ip : Ipv4Addr) : endsInNumber (dotted ip) = true := by
  have hstrip : Str.stripSuffix (dotted ip) ['.'] = none := by
    rw [Str.stripSuffix, if_neg (last_dotted ip)]
  obtain ⟨front, hfront⟩ := dotted_eq ip
  have hlabel : (dotted ip).rtakeWhile (· ≠ '.') = octetStr ip.d := by
    have hnot : ∀ c ∈ (octetStr ip.d).reverse, decide (c ≠ '.') = true := by
      intro c hc
      simpa using not_dot_of_digit (digit_of_octet (List.mem_reverse.1 hc))
    rw [hfront, List.rtakeWhile, List.reverse_append, List.takeWhile_append_of_pos hnot]
    simp
  rw [endsInNumber, hstrip, Option.getD_none, hlabel]
  exact isIpv4Number_of_digits (octetStr_spec ip.d).1 (octetStr_spec ip.d).2.1

/-- What is parsed: a domain as it is written, or an address. -/
theorem parse_cases {host : Str} {parsed : UrlHost} (h : plainHosts.parse host = some parsed) :
    (parsed = .domain host ∧ host ≠ [] ∧ host.all isPlain = true ∧ endsInNumber host = false) ∨
      (endsInNumber host = true ∧ ∃ ip, parsed = .ipv4 ip) := by
  simp only [plainHosts] at h
  split at h
  · cases h
  · rename_i hne
    split at h
    · rename_i hnumber
      obtain ⟨ip, -, rfl⟩ := Option.map_eq_some_iff.1 h
      exact .inr ⟨hnumber, ip, rfl⟩
    · rename_i hnumber
      split at h
      · rename_i hplain
        exact .inl ⟨(Option.some.inj h).symm, hne, hplain, by simpa using hnumber⟩
      · cases h

theorem parse_domain {host : Str} (hne : host ≠ []) (hplain : host.all isPlain = true)
    (hnumber : endsInNumber host = false) : plainHosts.parse host = some (.domain host) := by
  simp only [plainHosts, if_neg hne, hnumber, hplain, Bool.false_eq_true, if_false, if_true]

theorem parse_dotted (ip : Ipv4Addr) : plainHosts.parse (dotted ip) = some (.ipv4 ip) := by
  have hne : dotted ip ≠ [] := by
    obtain ⟨front, hfront⟩ := dotted_eq ip
    rw [hfront]
    simp
  simp [plainHosts, hne, endsInNumber_dotted, readDotted_dotted]

theorem toLower_of_plain {c : Char} (h : isPlain c = true) : c.toLower = c := by
  unfold Char.toLower
  split
  · rename_i hupper
    exfalso
    simp only [isPlain, Char.isLower, Char.isDigit, Bool.or_eq_true, Bool.and_eq_true,
      decide_eq_true_eq, beq_iff_eq, ge_iff_le, UInt32.le_iff_toNat_le] at h hupper
    obtain ((hlower | hdigit) | rfl) | rfl := h
    · have hz : 'Z'.val.toNat < 'a'.val.toNat := by decide
      omega
    · have hnine : '9'.val.toNat < 'A'.val.toNat := by decide
      omega
    · exact absurd hupper (by decide)
    · exact absurd hupper (by decide)
  · rfl

theorem map_toLower {host : Str} (h : ∀ c ∈ host, isPlain c = true) :
    host.map Char.toLower = host := by
  rw [List.map_congr_left fun c hc => toLower_of_plain (h c hc)]
  exact List.map_id' host

theorem endsInNumber_replicate (n : Nat) : endsInNumber (List.replicate n '.') = false := by
  have hempty : ¬['.'] <:+ ([] : Str) := by simp
  have hnil : endsInNumber [] = false := by decide +kernel
  cases hdots : endsInNumber (List.replicate n '.') with
  | false => rfl
  | true =>
    rw [← List.nil_append (List.replicate n '.')] at hdots
    rw [endsInNumber_dots hempty hdots] at hnil
    cases hnil

theorem plainHosts_whatwg : plainHosts.Whatwg where
  empty := rfl
  dots n := by
    apply parse_domain
    · simp
    · simp [isPlain]
    · exact endsInNumber_replicate (n + 1)
  domain _ := rfl
  again host parsed h := by
    obtain ⟨rfl, -, -, -⟩ | ⟨-, ip, rfl⟩ := parse_cases h
    · exact h
    · exact parse_dotted ip
  lowercase host parsed h := by
    obtain ⟨rfl, -, hplain, -⟩ | ⟨-, ip, rfl⟩ := parse_cases h
    · exact map_toLower (List.all_eq_true.1 hplain)
    · apply map_toLower
      intro c hc
      obtain hdigit | rfl := dotted_plain hc
      · simp [isPlain, hdigit]
      · rfl
  ipv4 := parse_dotted
  ipv4Dot := last_dotted
  ipv6Dot _ := by
    show ¬['.'] <:+ "[]".toList
    decide
  number host parsed hnumber h := by
    obtain ⟨-, -, -, hno⟩ | ⟨-, hip⟩ := parse_cases h
    · rw [hnumber] at hno
      cases hno
    · exact hip
  root host name h hne hnumber := by
    obtain ⟨heq, -, hplain, -⟩ | ⟨-, ip, heq⟩ := parse_cases h
    · obtain rfl := UrlHost.domain.inj heq
      rw [List.all_append, Bool.and_eq_true] at hplain
      exact parse_domain hne hplain.1 hnumber
    · cases heq

end PlainHosts

open PlainHosts

/-- A domain with a dot, and an address that two dots make a domain. -/
def dottedHosts : List Str := ["a.com.".toList, "1.2.3.4..".toList]

theorem dottedHosts_storable : plainHosts.Storable dottedHosts := by
  have hdomain : plainHosts.parse "a.com.".toList = some (.domain "a.com.".toList) := by
    decide +kernel
  have haddress : plainHosts.parse "1.2.3.4..".toList = some (.domain "1.2.3.4..".toList) := by
    decide +kernel
  intro host hhost name hname
  rw [dottedHosts, List.mem_pair] at hhost
  obtain rfl | rfl := hhost
  · rw [hdomain] at hname
    cases hname
    refine ⟨"a.com".toList, 1, rfl, by decide, by decide, fun hnumber => ?_⟩
    exact absurd hnumber (by decide +kernel)
  · rw [haddress] at hname
    cases hname
    refine ⟨"1.2.3.4".toList, 2, rfl, by decide, by decide, fun _ => ?_⟩
    exact ⟨⟨1, 2, 3, 4⟩, by decide +kernel⟩

/-- A tenant with these hosts. -/
def dottedCalls : List (AdminOp × AdminChoice) :=
  [(.patchTenant ['t'] ⟨some dottedHosts, none, none⟩, ⟨some [1], false, false⟩)]

theorem limits_write_back_dotted :
    validateAllowedHosts plainHosts.parseHost ["a.com".toList, "1.2.3.4".toList] =
        .ok ["a.com".toList, "1.2.3.4".toList] ∧
      ∃ l, (adminRun plainHosts.parseHost Bytes.toStringLossy dottedCalls).2.tenantLimits ['t'] =
          some l ∧
        ∀ ch : AdminChoice, ch.dbFails = false →
          setLimits plainHosts.parseHost ch ['t'] l
              (adminRun plainHosts.parseHost Bytes.toStringLossy dottedCalls).2 =
            (.ok (), (adminRun plainHosts.parseHost Bytes.toStringLossy dottedCalls).2) := by
  obtain ⟨hlist, hruns⟩ :=
    limits_write_back_iff plainHosts plainHosts_whatwg Bytes.toStringLossy
  constructor
  · exact (hlist dottedHosts _ (by decide +kernel)).2 dottedHosts_storable
  · have hl : (adminRun plainHosts.parseHost Bytes.toStringLossy dottedCalls).2.tenantLimits
        ['t'] = some ⟨100, 64 * 1024 * 1024, ["a.com".toList, "1.2.3.4".toList]⟩ := by
      decide +kernel
    refine ⟨_, hl, ((hruns dottedCalls).1 ['t'] _ hl).2 ?_⟩
    have hgiven : givenHosts ['t']
        (adminRun plainHosts.parseHost Bytes.toStringLossy dottedCalls).1 = dottedHosts := by
      decide +kernel
    rw [hgiven]
    exact dottedHosts_storable

/-- A tenant with the root as its host. -/
def rootCalls : List (AdminOp × AdminChoice) :=
  [(.patchTenant ['t'] ⟨some [['.']], none, none⟩, ⟨some [1], false, false⟩)]

/-- The root is accepted and stored as the empty text, which is not accepted. -/
theorem stored_root_refused :
    (validateAllowedHosts plainHosts.parseHost [['.']] = .ok [[]] ∧
      validateAllowedHosts plainHosts.parseHost [[]] = .error (.invalidHost [])) ∧
    (∃ l, (adminRun plainHosts.parseHost Bytes.toStringLossy rootCalls).2.tenantLimits ['t'] =
        some l ∧
      (setLimits plainHosts.parseHost ⟨none, false, false⟩ ['t'] l
        (adminRun plainHosts.parseHost Bytes.toStringLossy rootCalls).2).1 =
          .error (.config (.invalidHost []))) ∧
    ¬∀ (H : HostCrate) (digest : Bytes → Str), H.Whatwg →
      (∀ hosts stored, validateAllowedHosts H.parseHost hosts = .ok stored →
        validateAllowedHosts H.parseHost stored = .ok stored) ∧
      ∀ calls t l, (adminRun H.parseHost digest calls).2.tenantLimits t = some l →
        ∀ ch : AdminChoice, ch.dbFails = false →
          setLimits H.parseHost ch t l (adminRun H.parseHost digest calls).2 =
            (.ok (), (adminRun H.parseHost digest calls).2) := by
  have hroot : validateAllowedHosts plainHosts.parseHost [['.']] = .ok [[]] := by decide +kernel
  have hempty : validateAllowedHosts plainHosts.parseHost [[]] = .error (.invalidHost []) := by
    decide +kernel
  refine ⟨⟨hroot, hempty⟩, ⟨⟨100, 64 * 1024 * 1024, [[]]⟩, ?_, ?_⟩, ?_⟩
  · decide +kernel
  · decide +kernel
  intro h
  have hagain := (h plainHosts Bytes.toStringLossy plainHosts_whatwg).1 _ _ hroot
  rw [hempty] at hagain
  cases hagain

end Warpline
