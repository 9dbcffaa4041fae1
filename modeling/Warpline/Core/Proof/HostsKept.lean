import Warpline.Core.HostParser

/-!
# Which hosts are stored as what they are stored as again

A host is stored as its rendering without trailing dots (`StoredAs`), and that text is parsed again
when the limits are written back. `storedAs_self_iff` says for which hosts it is then stored as
itself, and `validate_again_iff` the same of a list.
-/

set_option autoImplicit false

namespace Warpline

/-! ## Trailing dots -/

section
variable {host name : Str}

theorem trimDots_trimDots (host : Str) : trimDots (trimDots host) = trimDots host :=
  List.rdropWhile_idempotent _ _

/-- A host is what `trimDots` leaves, and dots. -/
theorem eq_trimDots_append (host : Str) :
    ∃ n, host = trimDots host ++ List.replicate n '.' := by
  refine ⟨(host.rtakeWhile (· = '.')).length, ?_⟩
  have hdots : host.rtakeWhile (· = '.') =
      List.replicate (host.rtakeWhile (· = '.')).length '.' := by
    apply List.eq_replicate_of_mem
    intro c hc
    simpa using List.mem_rtakeWhile_imp hc
  rw [← hdots]
  exact (List.rdropWhile_append_rtakeWhile (l := host) (p := (· = '.'))).symm

theorem trimDots_of_not_dot (h : ¬['.'] <:+ host) : trimDots host = host := by
  apply List.rdropWhile_eq_self_iff.2
  intro hne hlast
  apply h
  refine ⟨host.dropLast, ?_⟩
  have hdot : host.getLast hne = '.' := by simpa using hlast
  rw [← hdot]
  exact List.dropLast_append_getLast hne

theorem not_dot_trimDots (host : Str) : ¬['.'] <:+ trimDots host := by
  intro h
  obtain ⟨name, hname⟩ := h
  have hself := trimDots_trimDots host
  rw [← hname, trimDots, List.rdropWhile_concat_pos _ _ _ (by simp)] at hself
  have hle := (List.rdropWhile_prefix (fun c => decide (c = '.')) (l := name)).length_le
  rw [hself] at hle
  simp at hle

theorem trimDots_dots (h : ¬['.'] <:+ name) (n : Nat) :
    trimDots (name ++ List.replicate n '.') = name := by
  induction n with
  | zero => simpa using trimDots_of_not_dot h
  | succ n ih =>
    rw [List.replicate_succ', ← List.append_assoc, trimDots,
      List.rdropWhile_concat_pos _ _ _ (by simp)]
    exact ih

/-- More than one dot at the end hides a number, and dots do not make one. -/
theorem endsInNumber_dots {n : Nat} (h : ¬['.'] <:+ name)
    (hdots : endsInNumber (name ++ List.replicate n '.') = true) : endsInNumber name = true := by
  have hname : Str.stripSuffix name ['.'] = none := by
    rw [Str.stripSuffix, if_neg h]
  match n with
  | 0 => simpa using hdots
  | 1 =>
    have hstrip : Str.stripSuffix (name ++ ['.']) ['.'] = some name :=
      Str.stripSuffix_eq_some.2 rfl
    rw [List.replicate_one, endsInNumber, hstrip] at hdots
    rw [endsInNumber, hname]
    exact hdots
  | n + 2 =>
    have hsplit : name ++ List.replicate (n + 2) '.' =
        name ++ List.replicate n '.' ++ ['.'] ++ ['.'] := by
      rw [List.replicate_succ', List.replicate_succ']
      simp
    have hstrip : Str.stripSuffix (name ++ List.replicate n '.' ++ ['.'] ++ ['.']) ['.'] =
        some (name ++ List.replicate n '.' ++ ['.']) := Str.stripSuffix_eq_some.2 rfl
    rw [hsplit, endsInNumber, hstrip, Option.getD_some,
      List.rtakeWhile_concat_neg _ _ _ (by simp)] at hdots
    cases hdots

end

/-! ## One host -/

section
variable {H : HostCrate}

/-- What `validate_allowed_hosts` makes of one host. -/
def StoredAs (H : HostCrate) (host stored : Str) : Prop :=
  ∃ parsed, H.parse host = some parsed ∧ stored = trimDots (H.display parsed)

namespace HostCrate.Whatwg

variable {host name stored : Str}

theorem trimDots_ipv4 (hH : H.Whatwg) (ip : Ipv4Addr) :
    trimDots (H.display (.ipv4 ip)) = H.display (.ipv4 ip) := trimDots_of_not_dot (hH.ipv4Dot ip)

theorem trimDots_ipv6 (hH : H.Whatwg) (ip : Ipv6Addr) :
    trimDots (H.display (.ipv6 ip)) = H.display (.ipv6 ip) := trimDots_of_not_dot (hH.ipv6Dot ip)

/-- A domain is one without its trailing dots too, unless that is empty or ends in a number. -/
theorem parse_trimmed (hH : H.Whatwg) {n : Nat} (hne : name ≠ []) (hdot : ¬['.'] <:+ name)
    (hnumber : endsInNumber name = false)
    (h : H.parse host = some (.domain (name ++ List.replicate n '.'))) :
    H.parse name = some (.domain name) := by
  induction n generalizing host with
  | zero =>
    have hagain := hH.again _ _ h
    rwa [hH.domain, List.replicate_zero, List.append_nil] at hagain
  | succ n ih =>
    rw [List.replicate_succ', ← List.append_assoc] at h
    refine ih (hH.root host _ h ?_ ?_)
    · simp [hne]
    · cases hdots : endsInNumber (name ++ List.replicate n '.') with
      | false => rfl
      | true =>
        rw [endsInNumber_dots hdot hdots] at hnumber
        cases hnumber

/-- `Survives`, of what the trailing dots leave. -/
theorem survives_iff : H.Survives name ↔ trimDots name ≠ [] ∧
    (endsInNumber (trimDots name) = true → ∃ ip, H.display (.ipv4 ip) = trimDots name) := by
  constructor
  · intro h
    obtain ⟨stem, n, rfl, hdot, hne, haddress⟩ := h
    rw [trimDots_dots hdot]
    exact ⟨hne, haddress⟩
  · intro h
    obtain ⟨n, hn⟩ := eq_trimDots_append name
    exact ⟨trimDots name, n, hn, not_dot_trimDots name, h.1, h.2⟩

/-- The stored form of a domain is stored as itself exactly when the domain survives. -/
theorem domain_again_iff (hH : H.Whatwg) (h : H.parse host = some (.domain name)) :
    StoredAs H (trimDots name) (trimDots name) ↔ H.Survives name := by
  rw [survives_iff]
  constructor
  · intro hstored
    obtain ⟨parsed, hparsed, heq⟩ := hstored
    constructor
    · intro hempty
      rw [hempty, hH.empty] at hparsed
      cases hparsed
    · intro hnumber
      obtain ⟨ip, rfl⟩ := hH.number _ _ hnumber hparsed
      exact ⟨ip, (heq.trans (hH.trimDots_ipv4 ip)).symm⟩
  · intro hsurvives
    obtain ⟨hne, haddress⟩ := hsurvives
    cases hnumber : endsInNumber (trimDots name) with
    | true =>
      obtain ⟨ip, hip⟩ := haddress hnumber
      refine ⟨.ipv4 ip, ?_, ?_⟩
      · rw [← hip]
        exact hH.ipv4 ip
      · rw [hip, trimDots_trimDots]
    | false =>
      obtain ⟨n, hn⟩ := eq_trimDots_append name
      rw [hn] at h
      refine ⟨.domain (trimDots name), hH.parse_trimmed hne (not_dot_trimDots name) hnumber h, ?_⟩
      rw [hH.domain, trimDots_trimDots]

/-- Addresses are always stored as themselves again. -/
theorem storedAs_self_iff (hH : H.Whatwg) (h : StoredAs H host stored) :
    StoredAs H stored stored ↔
      ∀ name, H.parse host = some (.domain name) → H.Survives name := by
  obtain ⟨parsed, hparsed, rfl⟩ := h
  cases parsed with
  | domain name =>
    rw [hH.domain, hH.domain_again_iff hparsed, hparsed]
    constructor
    · intro hsurvives name' heq
      cases heq
      exact hsurvives
    · intro hall
      exact hall name rfl
  | ipv4 ip =>
    rw [hH.trimDots_ipv4, hparsed]
    constructor
    · intro _ name heq
      cases heq
    · intro _
      exact ⟨_, hH.ipv4 ip, (hH.trimDots_ipv4 ip).symm⟩
  | ipv6 ip =>
    rw [hH.trimDots_ipv6, hparsed]
    constructor
    · intro _ name heq
      cases heq
    · intro _
      exact ⟨_, hH.again _ _ hparsed, (hH.trimDots_ipv6 ip).symm⟩

end HostCrate.Whatwg

end

/-! ## A list of hosts -/

theorem mapM_eq_ok_iff {α β ε : Type} {f : α → Except ε β} {l : List α} {l' : List β} :
    l.mapM f = .ok l' ↔ List.Forall₂ (fun a b => f a = .ok b) l l' := by
  induction l generalizing l' with
  | nil =>
    rw [List.mapM_nil, List.forall₂_nil_left_iff]
    constructor
    · intro h
      exact (Except.ok.inj h).symm
    · intro h
      rw [h]
      rfl
  | cons a l ih =>
    rw [List.mapM_cons, List.forall₂_cons_left_iff]
    cases ha : f a with
    | error e => simp [bind, Except.bind]
    | ok b =>
      constructor
      · intro h
        cases hl : l.mapM f with
        | error e => simp [hl, bind, Except.bind] at h
        | ok bs =>
          simp only [hl, bind, Except.bind, pure, Except.pure, Except.ok.injEq] at h
          exact ⟨b, bs, rfl, ih.1 hl, h.symm⟩
      · intro h
        obtain ⟨b', bs, hb, hbs, rfl⟩ := h
        obtain rfl := Except.ok.inj hb
        simp only [ih.2 hbs, bind, Except.bind]
        rfl

section
variable {H : HostCrate} {hosts stored : List Str}

/-- `validate_allowed_hosts`, host by host. -/
theorem validate_iff (hH : H.Whatwg) :
    validateAllowedHosts H.parseHost hosts = .ok stored ↔
      hosts.length ≤ MAX_ALLOWED_HOSTS ∧ List.Forall₂ (StoredAs H) hosts stored := by
  unfold validateAllowedHosts
  split
  · rename_i hmany
    constructor
    · intro h
      cases h
    · intro h
      omega
  · rename_i hfew
    rw [mapM_eq_ok_iff]
    constructor
    · intro h
      refine ⟨Nat.not_lt.1 hfew, h.imp fun host n hn => ?_⟩
      unfold HostCrate.parseHost at hn
      cases hparsed : H.parse host with
      | none => simp [hparsed] at hn
      | some parsed =>
        simp only [hparsed, Option.map_some, hH.lowercase host parsed hparsed,
          Except.ok.injEq] at hn
        exact ⟨parsed, hparsed, hn.symm⟩
    · intro h
      refine h.2.imp fun host n hn => ?_
      obtain ⟨parsed, hparsed, rfl⟩ := hn
      simp only [HostCrate.parseHost, hparsed, Option.map_some, hH.lowercase host parsed hparsed]

/-- The stored hosts are stored as themselves exactly when the given ones were storable. -/
theorem validate_again_iff (hH : H.Whatwg)
    (h : validateAllowedHosts H.parseHost hosts = .ok stored) :
    validateAllowedHosts H.parseHost stored = .ok stored ↔ H.Storable hosts := by
  obtain ⟨hlen, hall⟩ := (validate_iff hH).1 h
  have hlen' : stored.length ≤ MAX_ALLOWED_HOSTS := by
    rw [← hall.length_eq]
    exact hlen
  rw [validate_iff hH, List.forall₂_same]
  have heach : (∀ n ∈ stored, StoredAs H n n) ↔ H.Storable hosts := by
    unfold HostCrate.Storable
    clear h hlen hlen'
    induction hall with
    | nil => simp
    | cons hone _ ih =>
      rw [List.forall_mem_cons, List.forall_mem_cons, hH.storedAs_self_iff hone, ih]
  rw [heach]
  exact ⟨fun h => h.2, fun h => ⟨hlen', h⟩⟩

end

end Warpline
