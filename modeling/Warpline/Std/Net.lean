import Mathlib

/-!
# IP addresses

Addresses as Rust's `std::net` gives them out, IPv4 as four octets and IPv6 as eight segments, with
its predicates at their documented ranges. The lemmas read both through `toNat`, the address as a
number, in which a prefix of `len` bits is a range (`InNet`).
-/

set_option autoImplicit false

structure Ipv4Addr where
  a : UInt8
  b : UInt8
  c : UInt8
  d : UInt8
  deriving DecidableEq, Repr

namespace Ipv4Addr

def octets (ip : Ipv4Addr) : List UInt8 := [ip.a, ip.b, ip.c, ip.d]

def isLoopback (ip : Ipv4Addr) : Bool := ip.a == 127

def isPrivate (ip : Ipv4Addr) : Bool :=
  ip.a == 10 || (ip.a == 172 && 16 ≤ ip.b && ip.b ≤ 31) || (ip.a == 192 && ip.b == 168)

def isLinkLocal (ip : Ipv4Addr) : Bool := ip.a == 169 && ip.b == 254

def isUnspecified (ip : Ipv4Addr) : Bool := ip.octets == [0, 0, 0, 0]

def isBroadcast (ip : Ipv4Addr) : Bool := ip.octets == [255, 255, 255, 255]

def isMulticast (ip : Ipv4Addr) : Bool := 224 ≤ ip.a && ip.a ≤ 239

def toNat (ip : Ipv4Addr) : Nat :=
  ((ip.a.toNat * 2 ^ 8 + ip.b.toNat) * 2 ^ 8 + ip.c.toNat) * 2 ^ 8 + ip.d.toNat

/-- The address that two segments of an IPv6 address spell. -/
def ofSegments (s t : UInt16) : Ipv4Addr :=
  ⟨(s >>> 8).toUInt8, s.toUInt8, (t >>> 8).toUInt8, t.toUInt8⟩

/-- `ip` is in the network of the first `len` bits of `net`. -/
def InNet (net : Ipv4Addr) (len : Nat) (ip : Ipv4Addr) : Prop :=
  ip.toNat / 2 ^ (32 - len) = net.toNat / 2 ^ (32 - len)

instance (net : Ipv4Addr) (len : Nat) (ip : Ipv4Addr) : Decidable (InNet net len ip) := by
  unfold InNet
  infer_instance

/-! A short prefix is read off the first octets. -/

theorem inNet_octet {net ip : Ipv4Addr} {len : Nat} (h : len ≤ 8) :
    InNet net len ip ↔ ip.a.toNat / 2 ^ (8 - len) = net.a.toNat / 2 ^ (8 - len) := by
  have hlen : 2 ^ (32 - len) = 2 ^ 24 * 2 ^ (8 - len) := by
    rw [← Nat.pow_add]
    congr 1
    omega
  have hdiv : ∀ ip : Ipv4Addr, ip.toNat / 2 ^ 24 = ip.a.toNat := by
    intro ip
    have hb := ip.b.toNat_lt
    have hc := ip.c.toNat_lt
    have hd := ip.d.toNat_lt
    simp only [toNat]
    omega
  rw [InNet, hlen, ← Nat.div_div_eq_div_mul, ← Nat.div_div_eq_div_mul, hdiv, hdiv]

theorem inNet_two {net ip : Ipv4Addr} {len : Nat} (h : len ≤ 16) :
    InNet net len ip ↔ (ip.a.toNat * 2 ^ 8 + ip.b.toNat) / 2 ^ (16 - len) =
      (net.a.toNat * 2 ^ 8 + net.b.toNat) / 2 ^ (16 - len) := by
  have hlen : 2 ^ (32 - len) = 2 ^ 16 * 2 ^ (16 - len) := by
    rw [← Nat.pow_add]
    congr 1
    omega
  have hdiv : ∀ ip : Ipv4Addr, ip.toNat / 2 ^ 16 = ip.a.toNat * 2 ^ 8 + ip.b.toNat := by
    intro ip
    have hc := ip.c.toNat_lt
    have hd := ip.d.toNat_lt
    simp only [toNat]
    omega
  rw [InNet, hlen, ← Nat.div_div_eq_div_mul, ← Nat.div_div_eq_div_mul, hdiv, hdiv]

theorem inNet_three {net ip : Ipv4Addr} : InNet net 24 ip ↔
    (ip.a.toNat * 2 ^ 8 + ip.b.toNat) * 2 ^ 8 + ip.c.toNat =
      (net.a.toNat * 2 ^ 8 + net.b.toNat) * 2 ^ 8 + net.c.toNat := by
  have hdiv : ∀ ip : Ipv4Addr, ip.toNat / 2 ^ (32 - 24) =
      (ip.a.toNat * 2 ^ 8 + ip.b.toNat) * 2 ^ 8 + ip.c.toNat := by
    intro ip
    have hd := ip.d.toNat_lt
    simp only [toNat]
    omega
  rw [InNet, hdiv, hdiv]

theorem toNat_lt (ip : Ipv4Addr) : ip.toNat < 2 ^ 32 := by
  have ha := ip.a.toNat_lt
  have hb := ip.b.toNat_lt
  have hc := ip.c.toNat_lt
  have hd := ip.d.toNat_lt
  simp only [toNat]
  omega

theorem toNat_inj {ip ip' : Ipv4Addr} : ip.toNat = ip'.toNat ↔ ip = ip' := by
  constructor
  · intro h
    obtain ⟨a, b, c, d⟩ := ip
    obtain ⟨a', b', c', d'⟩ := ip'
    simp only [toNat] at h
    have ha := a.toNat_lt
    have hb := b.toNat_lt
    have hc := c.toNat_lt
    have hd := d.toNat_lt
    have ha' := a'.toNat_lt
    have hb' := b'.toNat_lt
    have hc' := c'.toNat_lt
    have hd' := d'.toNat_lt
    simp only [mk.injEq, ← UInt8.toNat_inj]
    omega
  · intro h
    rw [h]

theorem toNat_ofSegments (s t : UInt16) : (ofSegments s t).toNat = s.toNat * 2 ^ 16 + t.toNat := by
  have hs := s.toNat_lt
  have ht := t.toNat_lt
  have h8 : (8 : UInt16).toNat % 16 = 8 := rfl
  simp only [toNat, ofSegments, UInt16.toNat_toUInt8, UInt16.toNat_shiftRight, h8,
    Nat.shiftRight_eq_div_pow]
  omega

end Ipv4Addr

structure Ipv6Addr where
  s0 : UInt16
  s1 : UInt16
  s2 : UInt16
  s3 : UInt16
  s4 : UInt16
  s5 : UInt16
  s6 : UInt16
  s7 : UInt16
  deriving DecidableEq, Repr

namespace Ipv6Addr

def segments (ip : Ipv6Addr) : List UInt16 :=
  [ip.s0, ip.s1, ip.s2, ip.s3, ip.s4, ip.s5, ip.s6, ip.s7]

def isLoopback (ip : Ipv6Addr) : Bool := ip.segments == [0, 0, 0, 0, 0, 0, 0, 1]

def isUnspecified (ip : Ipv6Addr) : Bool := ip.segments == [0, 0, 0, 0, 0, 0, 0, 0]

def isMulticast (ip : Ipv6Addr) : Bool := ip.s0 &&& 0xff00 == 0xff00

/-- `::ffff:a.b.c.d`. -/
def toIpv4Mapped (ip : Ipv6Addr) : Option Ipv4Addr :=
  if ip.segments.take 6 = [0, 0, 0, 0, 0, 0xffff] then some (.ofSegments ip.s6 ip.s7) else none

def toNat (ip : Ipv6Addr) : Nat := ip.segments.foldl (fun n s => n * 2 ^ 16 + s.toNat) 0

/-- `ip` is in the network of the first `len` bits of `net`. -/
def InNet (net : Ipv6Addr) (len : Nat) (ip : Ipv6Addr) : Prop :=
  ip.toNat / 2 ^ (128 - len) = net.toNat / 2 ^ (128 - len)

instance (net : Ipv6Addr) (len : Nat) (ip : Ipv6Addr) : Decidable (InNet net len ip) := by
  unfold InNet
  infer_instance

theorem toNat_eq (ip : Ipv6Addr) : ip.toNat =
    ip.s0.toNat * 2 ^ 112 + ip.s1.toNat * 2 ^ 96 + ip.s2.toNat * 2 ^ 80 + ip.s3.toNat * 2 ^ 64 +
      ip.s4.toNat * 2 ^ 48 + ip.s5.toNat * 2 ^ 32 + ip.s6.toNat * 2 ^ 16 + ip.s7.toNat := by
  simp only [toNat, segments, List.foldl_cons, List.foldl_nil]
  omega

/-! A short prefix is read off the first segments. -/

theorem inNet_segment {net ip : Ipv6Addr} {len : Nat} (h : len ≤ 16) :
    InNet net len ip ↔ ip.s0.toNat / 2 ^ (16 - len) = net.s0.toNat / 2 ^ (16 - len) := by
  have hlen : 2 ^ (128 - len) = 2 ^ 112 * 2 ^ (16 - len) := by
    rw [← Nat.pow_add]
    congr 1
    omega
  have hdiv : ∀ ip : Ipv6Addr, ip.toNat / 2 ^ 112 = ip.s0.toNat := by
    intro ip
    have h1 := ip.s1.toNat_lt
    have h2 := ip.s2.toNat_lt
    have h3 := ip.s3.toNat_lt
    have h4 := ip.s4.toNat_lt
    have h5 := ip.s5.toNat_lt
    have h6 := ip.s6.toNat_lt
    have h7 := ip.s7.toNat_lt
    rw [toNat_eq]
    omega
  rw [InNet, hlen, ← Nat.div_div_eq_div_mul, ← Nat.div_div_eq_div_mul, hdiv, hdiv]

theorem inNet_three {net ip : Ipv6Addr} :
    InNet net 48 ip ↔ ip.s0 = net.s0 ∧ ip.s1 = net.s1 ∧ ip.s2 = net.s2 := by
  have hdiv : ∀ ip : Ipv6Addr, ip.toNat / 2 ^ (128 - 48) =
      (ip.s0.toNat * 2 ^ 16 + ip.s1.toNat) * 2 ^ 16 + ip.s2.toNat := by
    intro ip
    have h3 := ip.s3.toNat_lt
    have h4 := ip.s4.toNat_lt
    have h5 := ip.s5.toNat_lt
    have h6 := ip.s6.toNat_lt
    have h7 := ip.s7.toNat_lt
    rw [toNat_eq]
    omega
  have h1 := ip.s1.toNat_lt
  have h2 := ip.s2.toNat_lt
  have h1' := net.s1.toNat_lt
  have h2' := net.s2.toNat_lt
  rw [InNet, hdiv, hdiv]
  simp only [← UInt16.toNat_inj]
  omega

/-- The last two segments, and the number the others make. -/
theorem toNat_split (ip : Ipv6Addr) :
    ip.toNat = (ip.segments.take 6).foldl (fun n s => n * 2 ^ 16 + s.toNat) 0 * 2 ^ 32 +
      (Ipv4Addr.ofSegments ip.s6 ip.s7).toNat := by
  rw [toNat_eq, Ipv4Addr.toNat_ofSegments]
  simp only [segments, List.take_succ_cons, List.take_zero, List.foldl_cons,
    List.foldl_nil]
  omega

/-- A number of as many digits as the list has tells them. -/
theorem foldl_inj : ∀ {l l' : List UInt16} {m m' : Nat}, l.length = l'.length →
    l.foldl (fun n s => n * 2 ^ 16 + s.toNat) m = l'.foldl (fun n s => n * 2 ^ 16 + s.toNat) m' →
      m = m' ∧ l = l'
  | [], [], _, _, _, h => ⟨h, rfl⟩
  | s :: l, s' :: l', m, m', hlen, h => by
    obtain ⟨hm, hl⟩ := foldl_inj (Nat.succ.inj hlen) h
    have hs := s.toNat_lt
    have hs' := s'.toNat_lt
    simp only at hm
    have heq : s.toNat = s'.toNat := by omega
    exact ⟨by omega, by rw [UInt16.toNat_inj.1 heq, hl]⟩

end Ipv6Addr

inductive IpAddr
  | v4 (ip : Ipv4Addr)
  | v6 (ip : Ipv6Addr)
  deriving DecidableEq, Repr

/-! ## Masks -/

/-- Masking out the low `k` of `w` bits. -/
theorem Nat.and_highMask {w k n : Nat} (hn : n < 2 ^ w) (hk : k ≤ w) :
    n &&& (2 ^ w - 2 ^ k) = n / 2 ^ k * 2 ^ k := by
  have hmask : 2 ^ w - 2 ^ k = (2 ^ (w - k) - 1) * 2 ^ k := by
    rw [Nat.sub_mul, ← Nat.pow_add, Nat.sub_add_cancel hk, Nat.one_mul]
  apply Nat.eq_of_testBit_eq
  intro j
  rw [Nat.testBit_and, hmask, Nat.testBit_mul_two_pow, Nat.testBit_mul_two_pow,
    Nat.testBit_two_pow_sub_one, Nat.testBit_div_two_pow]
  by_cases hj : k ≤ j
  · rw [Nat.sub_add_cancel hj]
    by_cases hw : j - k < w - k
    · simp [hj, hw]
    · have hlt : n < 2 ^ j := Nat.lt_of_lt_of_le hn (Nat.pow_le_pow_right (by decide) (by omega))
      simp [Nat.testBit_lt_two_pow hlt]
  · simp [hj]

theorem UInt8.toNat_and_highMask {x m : UInt8} {k : Nat} (hm : m.toNat = 2 ^ 8 - 2 ^ k)
    (hk : k ≤ 8) : (x &&& m).toNat = x.toNat / 2 ^ k * 2 ^ k := by
  rw [UInt8.toNat_and, hm, Nat.and_highMask x.toNat_lt hk]

theorem UInt16.toNat_and_highMask {x m : UInt16} {k : Nat} (hm : m.toNat = 2 ^ 16 - 2 ^ k)
    (hk : k ≤ 16) : (x &&& m).toNat = x.toNat / 2 ^ k * 2 ^ k := by
  rw [UInt16.toNat_and, hm, Nat.and_highMask x.toNat_lt hk]
