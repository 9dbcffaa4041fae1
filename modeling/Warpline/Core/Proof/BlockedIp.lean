import Warpline.Core.Egress

/-!
# The blocked addresses

`blockedNets4`, `blockedNets6`: the networks that are documented to be blocked. `Spells a ip`: the
IPv6 address `ip` embeds the IPv4 address `a`, in one of the four forms. `blocked_ip_exact` is the
main result: `is_blocked_ip` decides membership in those networks, and judges an embedded address
by itself.
-/

set_option autoImplicit false

namespace Warpline

/-- Network and length of its prefix. -/
def blockedNets4 : List (Ipv4Addr × Nat) :=
  [(⟨0, 0, 0, 0⟩, 8), (⟨10, 0, 0, 0⟩, 8), (⟨100, 64, 0, 0⟩, 10), (⟨127, 0, 0, 0⟩, 8),
   (⟨169, 254, 0, 0⟩, 16), (⟨172, 16, 0, 0⟩, 12), (⟨192, 0, 0, 0⟩, 24), (⟨192, 168, 0, 0⟩, 16),
   (⟨198, 18, 0, 0⟩, 15), (⟨224, 0, 0, 0⟩, 4), (⟨240, 0, 0, 0⟩, 4)]

/-- `64:ff9b:1::/48`, `fc00::/7`, `fe80::/10` and `ff00::/8`. -/
def blockedNets6 : List (Ipv6Addr × Nat) :=
  [(⟨0x64, 0xff9b, 1, 0, 0, 0, 0, 0⟩, 48), (⟨0xfc00, 0, 0, 0, 0, 0, 0, 0⟩, 7),
   (⟨0xfe80, 0, 0, 0, 0, 0, 0, 0⟩, 10), (⟨0xff00, 0, 0, 0, 0, 0, 0, 0⟩, 8)]

/-- `ip` is `::ffff:a`, `::a`, `64:ff9b::a`, or in `2002:a::/48`. -/
def Spells (a : Ipv4Addr) (ip : Ipv6Addr) : Prop :=
  ip.toNat = 0xffff * 2 ^ 32 + a.toNat ∨ ip.toNat = a.toNat ∨
    ip.toNat = 0x64ff9b * 2 ^ 96 + a.toNat ∨ ip.toNat / 2 ^ 80 = 0x2002 * 2 ^ 32 + a.toNat

/-! ## IPv4 -/

/-- The networks, by the octets. -/
theorem blockedNets4_iff (a : Ipv4Addr) :
    (∃ net ∈ blockedNets4, Ipv4Addr.InNet net.1 net.2 a) ↔
      a.a.toNat = 0 ∨ a.a.toNat = 10 ∨ (a.a.toNat = 100 ∧ a.b.toNat / 64 = 1) ∨ a.a.toNat = 127 ∨
        (a.a.toNat = 169 ∧ a.b.toNat = 254) ∨ (a.a.toNat = 172 ∧ a.b.toNat / 16 = 1) ∨
        (a.a.toNat = 192 ∧ a.b.toNat = 0 ∧ a.c.toNat = 0) ∨
        (a.a.toNat = 192 ∧ a.b.toNat = 168) ∨ (a.a.toNat = 198 ∧ a.b.toNat / 2 = 9) ∨
        a.a.toNat / 16 = 14 ∨ a.a.toNat / 16 = 15 := by
  have hb := a.b.toNat_lt
  have hc := a.c.toNat_lt
  simp only [blockedNets4, List.mem_cons, List.not_mem_nil, or_false, exists_eq_or_imp,
    exists_eq_left]
  rw [Ipv4Addr.inNet_octet (by decide), Ipv4Addr.inNet_octet (by decide),
    Ipv4Addr.inNet_two (by decide), Ipv4Addr.inNet_octet (by decide),
    Ipv4Addr.inNet_two (by decide), Ipv4Addr.inNet_two (by decide), Ipv4Addr.inNet_three,
    Ipv4Addr.inNet_two (by decide), Ipv4Addr.inNet_two (by decide),
    Ipv4Addr.inNet_octet (by decide), Ipv4Addr.inNet_octet (by decide)]
  refine or_congr ?_ (or_congr ?_ (or_congr ?_ (or_congr ?_ (or_congr ?_ (or_congr ?_
    (or_congr ?_ (or_congr ?_ (or_congr ?_ (or_congr ?_ ?_)))))))))
  all_goals
    simp only [UInt8.reduceToNat, Nat.reduceSub, Nat.reducePow, Nat.reduceMul, Nat.reduceAdd,
      Nat.reduceDiv] <;> omega

theorem isBlockedIpv4_iff (a : Ipv4Addr) :
    isBlockedIpv4 a = true ↔ ∃ net ∈ blockedNets4, Ipv4Addr.InNet net.1 net.2 a := by
  have ha := a.a.toNat_lt
  have hcgnat : (a.b &&& 0xc0).toNat = a.b.toNat / 2 ^ 6 * 2 ^ 6 :=
    UInt8.toNat_and_highMask (by decide) (by decide)
  have hbench : (a.b &&& 0xfe).toNat = a.b.toNat / 2 ^ 1 * 2 ^ 1 :=
    UInt8.toNat_and_highMask (by decide) (by decide)
  rw [blockedNets4_iff]
  simp only [isBlockedIpv4, Ipv4Addr.isLoopback, Ipv4Addr.isPrivate, Ipv4Addr.isLinkLocal,
    Ipv4Addr.isUnspecified, Ipv4Addr.isBroadcast, Ipv4Addr.isMulticast, Ipv4Addr.octets,
    Bool.or_eq_true, Bool.and_eq_true, beq_iff_eq, decide_eq_true_eq, List.take_succ_cons,
    List.take_zero, List.cons.injEq, and_true, ← UInt8.toNat_inj, UInt8.le_iff_toNat_le, hcgnat,
    hbench, UInt8.reduceToNat, or_assoc]
  clear hcgnat hbench
  generalize a.a.toNat = x at ha ⊢
  generalize a.b.toNat = y
  generalize a.c.toNat = z
  generalize a.d.toNat = w
  constructor
  · intro h
    rcases h with h | h | h | h | h | h | h | h | h | h | h | h | h
    · exact .inr (.inr (.inr (.inl h)))
    · exact .inr (.inl h)
    · have hnet : x = 172 ∧ y / 16 = 1 := by omega
      simp [hnet]
    · simp [h]
    · simp [h]
    · simp [h]
    · have hnet : x / 16 = 15 := by omega
      simp [hnet]
    · have hnet : x / 16 = 14 := by omega
      simp [hnet]
    · have hnet : x = 100 ∧ y / 64 = 1 := by omega
      simp [hnet]
    · simp [h]
    · simp [h]
    · have hnet : x = 198 ∧ y / 2 = 9 := by omega
      simp [hnet]
    · have hnet : x / 16 = 15 := by omega
      simp [hnet]
  · intro h
    rcases h with h | h | h | h | h | h | h | h | h | h | h
    · simp [h]
    · simp [h]
    · simp [h]
    · simp [h]
    · simp [h]
    · have hnet : x = 172 ∧ 16 ≤ y ∧ y ≤ 31 := by omega
      simp [hnet]
    · simp [h]
    · simp [h]
    · simp [h]
    · have hnet : 224 ≤ x ∧ x ≤ 239 := by omega
      simp [hnet]
    · have hnet : 240 ≤ x := by omega
      simp [hnet]

/-! ## IPv6 -/

/-- The first six segments of the addresses that embed an IPv4 address in the last two. -/
def embeddingPrefixes : List (List UInt16) :=
  [[0, 0, 0, 0, 0, 0xffff], [0, 0, 0, 0, 0, 0], [0x64, 0xff9b, 0, 0, 0, 0]]

/-- An address that ends in `a`, by its first six segments. -/
theorem toNat_eq_iff_take (ip : Ipv6Addr) (a : Ipv4Addr) {n : Nat} {pre : List UInt16}
    (hlen : pre.length = 6) (hn : pre.foldl (fun n s => n * 2 ^ 16 + s.toNat) 0 = n) :
    ip.toNat = n * 2 ^ 32 + a.toNat ↔
      ip.segments.take 6 = pre ∧ Ipv4Addr.ofSegments ip.s6 ip.s7 = a := by
  have ha := a.toNat_lt
  have hlow := (Ipv4Addr.ofSegments ip.s6 ip.s7).toNat_lt
  rw [Ipv6Addr.toNat_split, ← hn]
  constructor
  · intro h
    have hup : (ip.segments.take 6).foldl (fun n s => n * 2 ^ 16 + s.toNat) 0 =
        pre.foldl (fun n s => n * 2 ^ 16 + s.toNat) 0 := by omega
    refine ⟨(Ipv6Addr.foldl_inj ?_ hup).2, Ipv4Addr.toNat_inj.1 (by omega)⟩
    rw [hlen]
    rfl
  · rintro ⟨hpre, rfl⟩
    rw [hpre]

theorem sixToFour_iff {ip : Ipv6Addr} {a : Ipv4Addr} :
    ip.toNat / 2 ^ 80 = 0x2002 * 2 ^ 32 + a.toNat ↔
      ip.s0 = 0x2002 ∧ Ipv4Addr.ofSegments ip.s1 ip.s2 = a := by
  have ha := a.toNat_lt
  have hdiv : ip.toNat / 2 ^ 80 =
      ip.s0.toNat * 2 ^ 32 + (Ipv4Addr.ofSegments ip.s1 ip.s2).toNat := by
    have h3 := ip.s3.toNat_lt
    have h4 := ip.s4.toNat_lt
    have h5 := ip.s5.toNat_lt
    have h6 := ip.s6.toNat_lt
    have h7 := ip.s7.toNat_lt
    rw [Ipv6Addr.toNat_eq, Ipv4Addr.toNat_ofSegments]
    omega
  have hlow := (Ipv4Addr.ofSegments ip.s1 ip.s2).toNat_lt
  rw [hdiv, ← UInt16.toNat_inj, ← Ipv4Addr.toNat_inj]
  have h2002 : (0x2002 : UInt16).toNat = 0x2002 := rfl
  rw [h2002]
  omega

theorem spells_iff {a : Ipv4Addr} {ip : Ipv6Addr} :
    Spells a ip ↔
      (ip.segments.take 6 ∈ embeddingPrefixes ∧ Ipv4Addr.ofSegments ip.s6 ip.s7 = a) ∨
        (ip.s0 = 0x2002 ∧ Ipv4Addr.ofSegments ip.s1 ip.s2 = a) := by
  have hmapped : ip.toNat = 0xffff * 2 ^ 32 + a.toNat ↔
      ip.segments.take 6 = [0, 0, 0, 0, 0, 0xffff] ∧ Ipv4Addr.ofSegments ip.s6 ip.s7 = a :=
    toNat_eq_iff_take ip a rfl rfl
  have hcompat : ip.toNat = 0 * 2 ^ 32 + a.toNat ↔
      ip.segments.take 6 = [0, 0, 0, 0, 0, 0] ∧ Ipv4Addr.ofSegments ip.s6 ip.s7 = a :=
    toNat_eq_iff_take ip a rfl rfl
  have hnat64 : ip.toNat = 0x64ff9b * 2 ^ 64 * 2 ^ 32 + a.toNat ↔
      ip.segments.take 6 = [0x64, 0xff9b, 0, 0, 0, 0] ∧ Ipv4Addr.ofSegments ip.s6 ip.s7 = a :=
    toNat_eq_iff_take ip a rfl rfl
  rw [Nat.zero_mul, Nat.zero_add] at hcompat
  rw [Spells, hmapped, hcompat, sixToFour_iff]
  have hpow : 0x64ff9b * 2 ^ 96 = 0x64ff9b * 2 ^ 64 * 2 ^ 32 := by norm_num
  rw [hpow, hnat64]
  simp only [embeddingPrefixes, List.mem_cons, List.not_mem_nil, or_false, or_and_right, or_assoc]

/-- The embedded address decides: for `::` and `::1`, by being in `0.0.0.0/8`. -/
theorem isBlockedIp_embedding {ip : Ipv6Addr} (h : ip.segments.take 6 ∈ embeddingPrefixes) :
    isBlockedIp (.v6 ip) = isBlockedIpv4 (.ofSegments ip.s6 ip.s7) := by
  obtain ⟨s0, s1, s2, s3, s4, s5, s6, s7⟩ := ip
  simp only [embeddingPrefixes, Ipv6Addr.segments, List.take_succ_cons, List.take_zero,
    List.mem_cons, List.cons.injEq, and_true, List.not_mem_nil, or_false] at h
  rcases h with ⟨rfl, rfl, rfl, rfl, rfl, rfl⟩ | ⟨rfl, rfl, rfl, rfl, rfl, rfl⟩ |
    ⟨rfl, rfl, rfl, rfl, rfl, rfl⟩
  · simp [isBlockedIp, Ipv6Addr.toIpv4Mapped, Ipv6Addr.segments]
  · by_cases hone : s6 = 0 ∧ s7 = 1
    · obtain ⟨rfl, rfl⟩ := hone
      rfl
    · by_cases hzero : s6 = 0 ∧ s7 = 0
      · obtain ⟨rfl, rfl⟩ := hzero
        rfl
      · simp [isBlockedIp, Ipv6Addr.toIpv4Mapped, Ipv6Addr.segments, Ipv6Addr.isLoopback,
          Ipv6Addr.isUnspecified, hone, hzero]
  · simp [isBlockedIp, Ipv6Addr.toIpv4Mapped, Ipv6Addr.segments]

theorem isBlockedIp_sixToFour {ip : Ipv6Addr} (h : ip.s0 = 0x2002) :
    isBlockedIp (.v6 ip) = isBlockedIpv4 (.ofSegments ip.s1 ip.s2) := by
  obtain ⟨s0, s1, s2, s3, s4, s5, s6, s7⟩ := ip
  obtain rfl : s0 = 0x2002 := h
  simp [isBlockedIp, Ipv6Addr.toIpv4Mapped, Ipv6Addr.segments]

/-- The networks, by the segments. -/
theorem blockedNets6_iff (ip : Ipv6Addr) :
    (∃ net ∈ blockedNets6, Ipv6Addr.InNet net.1 net.2 ip) ↔
      (ip.s0.toNat = 0x64 ∧ ip.s1.toNat = 0xff9b ∧ ip.s2.toNat = 1) ∨
        ip.s0.toNat / 2 ^ 9 = 0x7e ∨ ip.s0.toNat / 2 ^ 6 = 0x3fa ∨
          ip.s0.toNat / 2 ^ 8 = 0xff := by
  simp only [blockedNets6, List.mem_cons, List.not_mem_nil, or_false, exists_eq_or_imp,
    exists_eq_left]
  rw [Ipv6Addr.inNet_three, Ipv6Addr.inNet_segment (by decide), Ipv6Addr.inNet_segment (by decide),
    Ipv6Addr.inNet_segment (by decide)]
  simp only [← UInt16.toNat_inj]
  rfl

theorem isBlockedIp_other {ip : Ipv6Addr} (h : ip.segments.take 6 ∉ embeddingPrefixes)
    (h2002 : ip.s0 ≠ 0x2002) :
    isBlockedIp (.v6 ip) = true ↔ ∃ net ∈ blockedNets6, Ipv6Addr.InNet net.1 net.2 ip := by
  simp only [embeddingPrefixes, List.mem_cons, List.not_mem_nil, or_false, not_or] at h
  obtain ⟨hmapped, hcompat, hnat64⟩ := h
  have htake : ∀ last, ip.segments ≠ [0, 0, 0, 0, 0, 0, 0, last] := by
    intro last hseg
    rw [hseg] at hcompat
    exact hcompat rfl
  have hlocal : (ip.s0 &&& 0xfe00).toNat = ip.s0.toNat / 2 ^ 9 * 2 ^ 9 :=
    UInt16.toNat_and_highMask (by decide) (by decide)
  have hlink : (ip.s0 &&& 0xffc0).toNat = ip.s0.toNat / 2 ^ 6 * 2 ^ 6 :=
    UInt16.toNat_and_highMask (by decide) (by decide)
  have hmulti : (ip.s0 &&& 0xff00).toNat = ip.s0.toNat / 2 ^ 8 * 2 ^ 8 :=
    UInt16.toNat_and_highMask (by decide) (by decide)
  rw [blockedNets6_iff]
  simp only [isBlockedIp, Ipv6Addr.toIpv4Mapped, hmapped, if_false, Ipv6Addr.isLoopback,
    Ipv6Addr.isUnspecified, Ipv6Addr.isMulticast, beq_eq_false_iff_ne.2 (htake _),
    beq_eq_false_iff_ne.2 hcompat, beq_eq_false_iff_ne.2 hnat64, beq_eq_false_iff_ne.2 h2002,
    Bool.false_and, Bool.or_false, Bool.false_eq_true, Bool.or_eq_true, Bool.and_eq_true,
    beq_iff_eq, ← UInt16.toNat_inj, hlocal, hlink, hmulti, UInt16.reduceToNat]
  omega

/-! ## The two together -/

/-- Which addresses are blocked. -/
theorem blocked_ip_exact :
    (∀ a, isBlockedIp (.v4 a) = true ↔ ∃ net ∈ blockedNets4, Ipv4Addr.InNet net.1 net.2 a) ∧
      (∀ a ip, Spells a ip → (isBlockedIp (.v6 ip) = true ↔ isBlockedIp (.v4 a) = true)) ∧
        ∀ ip, (¬∃ a, Spells a ip) →
          (isBlockedIp (.v6 ip) = true ↔
            ∃ net ∈ blockedNets6, Ipv6Addr.InNet net.1 net.2 ip) := by
  refine ⟨isBlockedIpv4_iff, ?_, ?_⟩
  · intro a ip hspells
    rcases spells_iff.1 hspells with ⟨hpre, rfl⟩ | ⟨h2002, rfl⟩
    · rw [isBlockedIp_embedding hpre, isBlockedIp]
    · rw [isBlockedIp_sixToFour h2002, isBlockedIp]
  · intro ip hnone
    apply isBlockedIp_other
    · intro hpre
      exact hnone ⟨_, spells_iff.2 (.inl ⟨hpre, rfl⟩)⟩
    · intro h2002
      exact hnone ⟨_, spells_iff.2 (.inr ⟨h2002, rfl⟩)⟩

/-- `::ffff:127.0.0.1` is blocked, `2606:4700::1111` is not. -/
theorem blocked_ip_exact_mapped :
    isBlockedIp (.v6 ⟨0, 0, 0, 0, 0, 0xffff, 0x7f00, 1⟩) = true ∧
      isBlockedIp (.v6 ⟨0x2606, 0x4700, 0, 0, 0, 0, 0, 0x1111⟩) = false := by
  have hmapped : Spells ⟨127, 0, 0, 1⟩ ⟨0, 0, 0, 0, 0, 0xffff, 0x7f00, 1⟩ := .inl rfl
  have hnone : ¬∃ a, Spells a ⟨0x2606, 0x4700, 0, 0, 0, 0, 0, 0x1111⟩ := by
    rintro ⟨a, ha⟩
    rcases spells_iff.1 ha with ⟨hpre, -⟩ | ⟨h2002, -⟩
    · revert hpre
      decide
    · revert h2002
      decide
  refine ⟨(blocked_ip_exact.2.1 _ _ hmapped).2 (by decide), ?_⟩
  rw [← Bool.not_eq_true, blocked_ip_exact.2.2 _ hnone]
  decide

end Warpline
