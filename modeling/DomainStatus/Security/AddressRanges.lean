import DomainStatus.Lib.Cidr
import DomainStatus.Security.UrlValidation

/-!
# Refused address ranges

What `is_private_ip` of `src/security/url_validation.rs` refuses, as blocks of addresses. Read
`is_private_ip_exact` first. An IPv4 address is judged alike whether it is written as such, mapped
into IPv6 or in the deprecated compatible form.
-/

namespace DomainStatus.Security

/-- `std::net::IpAddr`. -/
inductive IpAddr where
  | v4 (ip : Ipv4Addr)
  | v6 (ip : Ipv6Addr)
  deriving DecidableEq

/-- The address is refused, by the URL validation and by the resolver. -/
def isPrivateIp : IpAddr → Bool
  | .v4 ip => isPrivateIpv4 ip
  | .v6 ip => isPrivateIpv6 ip

/-- The address as a number of 32 bits. -/
def Ipv4Addr.bits (ip : Ipv4Addr) : ℕ :=
  ip.a.toNat * 2 ^ 24 + (ip.b.toNat * 2 ^ 16 + ip.c.toNat * 2 ^ 8 + ip.d.toNat)

/-- The address as a number of 128 bits. -/
def Ipv6Addr.bits (ip : Ipv6Addr) : ℕ :=
  ip.s0.toNat * 2 ^ 112 + (ip.s1.toNat * 2 ^ 96 + ip.s2.toNat * 2 ^ 80 + ip.s3.toNat * 2 ^ 64 +
    ip.s4.toNat * 2 ^ 48 + ip.s5.toNat * 2 ^ 32 + ip.s6.toNat * 2 ^ 16 + ip.s7.toNat)

/-- The block `a.b.c.0/length`. -/
def block4 (a b c : UInt8) (length : ℕ) : Cidr 32 where
  base := Ipv4Addr.bits { a := a, b := b, c := c, d := 0 }
  length := length

/-- The block `s0:s1::/length`. -/
def block6 (s0 s1 : UInt16) (length : ℕ) : Cidr 128 where
  base := Ipv6Addr.bits { s0 := s0, s1 := s1, s2 := 0, s3 := 0, s4 := 0, s5 := 0, s6 := 0, s7 := 0 }
  length := length

/-- The ranges of IPv4 that are refused. -/
def refusedIpv4 : List (Cidr 32) :=
  [block4 0 0 0 8, block4 10 0 0 8, block4 100 64 0 10, block4 127 0 0 8, block4 169 254 0 16,
    block4 172 16 0 12, block4 192 0 0 24, block4 192 0 2 24, block4 192 168 0 16,
    block4 198 18 0 15, block4 198 51 100 24, block4 203 0 113 24, block4 224 0 0 4,
    block4 240 0 0 4]

/-- The ranges of IPv6 that are refused. -/
def refusedIpv6 : List (Cidr 128) :=
  [block6 0xfc00 0 7, block6 0xfe80 0 10, block6 0xff00 0 8, block6 0x2001 0x0db8 32]

/-- `::ffff:a.b.c.d`. -/
def Ipv6Addr.mapped (ip : Ipv4Addr) : Ipv6Addr where
  s0 := 0
  s1 := 0
  s2 := 0
  s3 := 0
  s4 := 0
  s5 := 0xffff
  s6 := ip.a.toUInt16 <<< 8 ||| ip.b.toUInt16
  s7 := ip.c.toUInt16 <<< 8 ||| ip.d.toUInt16

/-- `::a.b.c.d`. -/
def Ipv6Addr.compatible (ip : Ipv4Addr) : Ipv6Addr :=
  { Ipv6Addr.mapped ip with s5 := 0 }

/-! ## IPv4 -/

section Ipv4

variable (ip : Ipv4Addr) (a b c : UInt8)

/-- A block of at most eight bits is told by the first octet. -/
theorem Ipv4Addr.contains_first {length extra : ℕ} (hlength : length + extra = 8) :
    (block4 a b c length).Contains ip.bits ↔
      ip.a.toNat / 2 ^ extra = a.toNat / 2 ^ extra := by
  have hrest := ip.b.toNat_lt
  have hrest := ip.c.toNat_lt
  have hrest := ip.d.toNat_lt
  have hb := b.toNat_lt
  have hc := c.toNat_lt
  have hbase : a.toNat = (block4 a b c length).base / 2 ^ 24 := by
    simp only [block4, Ipv4Addr.bits, UInt8.toNat_ofNat]
    omega
  rw [hbase]
  refine Cidr.contains_iff ?_ ?_
  · show 32 - length = 24 + extra
    omega
  · omega

/-- A block of at most sixteen bits is told by the first two octets. -/
theorem Ipv4Addr.contains_second {length extra : ℕ} (hlength : length + extra = 16) :
    (block4 a b c length).Contains ip.bits ↔
      (ip.a.toNat * 2 ^ 8 + ip.b.toNat) / 2 ^ extra = (a.toNat * 2 ^ 8 + b.toNat) / 2 ^ extra := by
  have hrest := ip.c.toNat_lt
  have hrest := ip.d.toNat_lt
  have hc := c.toNat_lt
  have hbase : a.toNat * 2 ^ 8 + b.toNat = (block4 a b c length).base / 2 ^ 16 := by
    simp only [block4, Ipv4Addr.bits, UInt8.toNat_ofNat]
    omega
  have hbits : ip.bits =
      (ip.a.toNat * 2 ^ 8 + ip.b.toNat) * 2 ^ 16 + (ip.c.toNat * 2 ^ 8 + ip.d.toNat) := by
    simp only [Ipv4Addr.bits, Nat.add_mul, Nat.mul_assoc, Nat.add_assoc, ← Nat.pow_add]
  rw [hbase, hbits]
  refine Cidr.contains_iff ?_ ?_
  · show 32 - length = 16 + extra
    omega
  · omega

/-- A block of twenty-four bits is told by the first three octets. -/
theorem Ipv4Addr.contains_third :
    (block4 a b c 24).Contains ip.bits ↔ ip.a = a ∧ ip.b = b ∧ ip.c = c := by
  have hrest := ip.d.toNat_lt
  have hb := ip.b.toNat_lt
  have hc := ip.c.toNat_lt
  have hb' := b.toNat_lt
  have hc' := c.toNat_lt
  simp only [← UInt8.toNat_inj, Cidr.Contains, block4, Ipv4Addr.bits, UInt8.toNat_ofNat]
  omega

/-- The loopback range. -/
theorem Ipv4Addr.isLoopback_iff : ip.isLoopback = true ↔ (block4 127 0 0 8).Contains ip.bits := by
  rw [Ipv4Addr.contains_first ip 127 0 0 (show 8 + 0 = 8 from rfl)]
  simp [Ipv4Addr.isLoopback, ← UInt8.toNat_inj]

/-- The three private ranges. -/
theorem Ipv4Addr.isPrivate_iff :
    ip.isPrivate = true ↔ (block4 10 0 0 8).Contains ip.bits ∨
      (block4 172 16 0 12).Contains ip.bits ∨ (block4 192 168 0 16).Contains ip.bits := by
  have hb := ip.b.toNat_lt
  rw [Ipv4Addr.contains_first ip 10 0 0 (show 8 + 0 = 8 from rfl),
    Ipv4Addr.contains_second ip 172 16 0 (show 12 + 4 = 16 from rfl),
    Ipv4Addr.contains_second ip 192 168 0 (show 16 + 0 = 16 from rfl)]
  simp only [Ipv4Addr.isPrivate, Bool.or_eq_true, Bool.and_eq_true, beq_iff_eq, decide_eq_true_eq,
    ← UInt8.toNat_inj, UInt8.le_iff_toNat_le, UInt8.toNat_ofNat]
  omega

/-- The link-local range. -/
theorem Ipv4Addr.isLinkLocal_iff :
    ip.isLinkLocal = true ↔ (block4 169 254 0 16).Contains ip.bits := by
  have hb := ip.b.toNat_lt
  rw [Ipv4Addr.contains_second ip 169 254 0 (show 16 + 0 = 16 from rfl)]
  simp only [Ipv4Addr.isLinkLocal, Bool.and_eq_true, beq_iff_eq, ← UInt8.toNat_inj,
    UInt8.toNat_ofNat]
  omega

/-- The multicast range. -/
theorem Ipv4Addr.isMulticast_iff : ip.isMulticast = true ↔ (block4 224 0 0 4).Contains ip.bits := by
  rw [Ipv4Addr.contains_first ip 224 0 0 (show 4 + 4 = 8 from rfl)]
  simp only [Ipv4Addr.isMulticast, Bool.and_eq_true, decide_eq_true_eq, UInt8.le_iff_toNat_le,
    UInt8.toNat_ofNat]
  omega

/-- The three ranges for documentation. -/
theorem Ipv4Addr.isDocumentation_iff :
    ip.isDocumentation = true ↔ (block4 192 0 2 24).Contains ip.bits ∨
      (block4 198 51 100 24).Contains ip.bits ∨ (block4 203 0 113 24).Contains ip.bits := by
  simp only [Ipv4Addr.contains_third, Ipv4Addr.isDocumentation, Bool.or_eq_true, Bool.and_eq_true,
    beq_iff_eq, and_assoc, or_assoc]

/-- The block that ends with the broadcast address. -/
theorem Ipv4Addr.contains_reserved : (block4 240 0 0 4).Contains ip.bits ↔ 240 ≤ ip.a := by
  have ha := ip.a.toNat_lt
  rw [Ipv4Addr.contains_first ip 240 0 0 (show 4 + 4 = 8 from rfl)]
  simp only [UInt8.le_iff_toNat_le, UInt8.toNat_ofNat]
  omega

/-- The broadcast address is in the reserved range. -/
theorem Ipv4Addr.isBroadcast_reserved (h : ip.isBroadcast = true) :
    (block4 240 0 0 4).Contains ip.bits := by
  simp only [Ipv4Addr.isBroadcast, Bool.and_eq_true, beq_iff_eq] at h
  rw [Ipv4Addr.contains_reserved, h.1.1.1]
  decide

/-- The ranges that the standard library has no predicate for. -/
theorem Ipv4Addr.octets_iff :
    (ip.a = 0 ∨ (ip.a = 100 ∧ 64 ≤ ip.b ∧ ip.b ≤ 127) ∨
        (ip.a = 198 ∧ (ip.b = 18 ∨ ip.b = 19)) ∨ (ip.a = 192 ∧ ip.b = 0 ∧ ip.c = 0)) ↔
      (block4 0 0 0 8).Contains ip.bits ∨ (block4 100 64 0 10).Contains ip.bits ∨
        (block4 198 18 0 15).Contains ip.bits ∨ (block4 192 0 0 24).Contains ip.bits := by
  have hb := ip.b.toNat_lt
  rw [Ipv4Addr.contains_first ip 0 0 0 (show 8 + 0 = 8 from rfl),
    Ipv4Addr.contains_second ip 100 64 0 (show 10 + 6 = 16 from rfl),
    Ipv4Addr.contains_second ip 198 18 0 (show 15 + 1 = 16 from rfl), Ipv4Addr.contains_third]
  simp only [← UInt8.toNat_inj, UInt8.le_iff_toNat_le, UInt8.toNat_ofNat]
  omega

/-- An address is refused if one of the ranges has it. -/
theorem isPrivateIpv4_iff :
    isPrivateIpv4 ip = true ↔ ∃ block ∈ refusedIpv4, block.Contains ip.bits := by
  have hbroadcast := Ipv4Addr.isBroadcast_reserved ip
  have hoctets := Ipv4Addr.octets_iff ip
  simp only [isPrivateIpv4, refusedIpv4, Bool.if_true_left, Bool.or_eq_true,
    Ipv4Addr.isLoopback_iff, Ipv4Addr.isPrivate_iff, Ipv4Addr.isLinkLocal_iff,
    Ipv4Addr.isMulticast_iff, Ipv4Addr.isDocumentation_iff,
    Bool.and_eq_true, beq_iff_eq, decide_eq_true_eq, List.exists_mem_cons_iff, List.not_mem_nil,
    false_and, exists_false, or_false, ← Ipv4Addr.contains_reserved]
  grind

end Ipv4

/-! ## IPv6 -/

section Octets

/-- Two octets in one segment. -/
theorem toNat_octets (high low : UInt8) :
    (high.toUInt16 <<< 8 ||| low.toUInt16).toNat = high.toNat * 2 ^ 8 + low.toNat := by
  have hhigh := high.toNat_lt
  have hlow := low.toNat_lt
  rw [UInt16.toNat_or, UInt16.toNat_shiftLeft, UInt8.toNat_toUInt16, UInt8.toNat_toUInt16]
  rw [show (8 : UInt16).toNat % 16 = 8 from rfl, Nat.shiftLeft_eq, Nat.mod_eq_of_lt (by omega),
    ← Nat.shiftLeft_eq, ← Nat.shiftLeft_add_eq_or_of_lt hlow]

/-- The high octet of a segment. -/
theorem high_octets (high low : UInt8) :
    ((high.toUInt16 <<< 8 ||| low.toUInt16) >>> 8).toUInt8 = high := by
  have hhigh := high.toNat_lt
  have hlow := low.toNat_lt
  rw [← UInt8.toNat_inj, UInt16.toNat_toUInt8, UInt16.toNat_shiftRight, toNat_octets]
  rw [show (8 : UInt16).toNat % 16 = 8 from rfl, Nat.shiftRight_eq_div_pow]
  omega

/-- The low octet of a segment. -/
theorem low_octets (high low : UInt8) :
    (high.toUInt16 <<< 8 ||| low.toUInt16).toUInt8 = low := by
  have hlow := low.toNat_lt
  rw [← UInt8.toNat_inj, UInt16.toNat_toUInt8, toNat_octets]
  omega

/-- A segment is put together again from its octets. -/
theorem octets_of_segment (segment : UInt16) :
    (segment >>> 8).toUInt8.toUInt16 <<< 8 ||| segment.toUInt8.toUInt16 = segment := by
  have hsegment := segment.toNat_lt
  rw [← UInt16.toNat_inj, toNat_octets, UInt16.toNat_toUInt8, UInt16.toNat_toUInt8,
    UInt16.toNat_shiftRight]
  rw [show (8 : UInt16).toNat % 16 = 8 from rfl, Nat.shiftRight_eq_div_pow]
  omega

end Octets

section Ipv6

variable (ip : Ipv6Addr) (ipv4 : Ipv4Addr)

@[simp] theorem Ipv6Addr.tail_mapped : (Ipv6Addr.mapped ipv4).tail = ipv4 := by
  simp only [Ipv6Addr.tail, Ipv6Addr.mapped, high_octets, low_octets]

@[simp] theorem Ipv6Addr.tail_compatible : (Ipv6Addr.compatible ipv4).tail = ipv4 :=
  Ipv6Addr.tail_mapped ipv4

/-- The first five segments are zero. -/
theorem Ipv6Addr.leadingZeros_iff :
    ip.leadingZeros = true ↔ ip.s0 = 0 ∧ ip.s1 = 0 ∧ ip.s2 = 0 ∧ ip.s3 = 0 ∧ ip.s4 = 0 := by
  simp [Ipv6Addr.leadingZeros, and_assoc]

/-- When an address is an IPv4 address mapped. -/
theorem Ipv6Addr.eq_mapped_iff :
    ip = Ipv6Addr.mapped ip.tail ↔ ip.leadingZeros = true ∧ ip.s5 = 0xffff := by
  obtain ⟨s0, s1, s2, s3, s4, s5, s6, s7⟩ := ip
  simp only [Ipv6Addr.leadingZeros_iff, Ipv6Addr.mapped, Ipv6Addr.tail, octets_of_segment,
    Ipv6Addr.mk.injEq, and_assoc, and_true]

/-- When an address is compatible with IPv4. -/
theorem Ipv6Addr.eq_compatible_iff :
    ip = Ipv6Addr.compatible ip.tail ↔ ip.leadingZeros = true ∧ ip.s5 = 0 := by
  obtain ⟨s0, s1, s2, s3, s4, s5, s6, s7⟩ := ip
  simp only [Ipv6Addr.leadingZeros_iff, Ipv6Addr.compatible, Ipv6Addr.mapped, Ipv6Addr.tail,
    octets_of_segment, Ipv6Addr.mk.injEq, and_assoc, and_true]

/-- A block of at most sixteen bits is told by the first segment. -/
theorem Ipv6Addr.contains_segment (s0 s1 : UInt16) {length extra : ℕ}
    (hlength : length + extra = 16) :
    (block6 s0 s1 length).Contains ip.bits ↔
      ip.s0.toNat / 2 ^ extra = s0.toNat / 2 ^ extra := by
  have h1 := ip.s1.toNat_lt
  have h2 := ip.s2.toNat_lt
  have h3 := ip.s3.toNat_lt
  have h4 := ip.s4.toNat_lt
  have h5 := ip.s5.toNat_lt
  have h6 := ip.s6.toNat_lt
  have h7 := ip.s7.toNat_lt
  have hs1 := s1.toNat_lt
  have hbase : s0.toNat = (block6 s0 s1 length).base / 2 ^ 112 := by
    simp only [block6, Ipv6Addr.bits, UInt16.toNat_ofNat]
    omega
  rw [hbase]
  refine Cidr.contains_iff ?_ ?_
  · show 128 - length = 112 + extra
    omega
  · omega

/-- A block of thirty-two bits is told by the first two segments. -/
theorem Ipv6Addr.contains_segments (s0 s1 : UInt16) :
    (block6 s0 s1 32).Contains ip.bits ↔ ip.s0 = s0 ∧ ip.s1 = s1 := by
  have h1 := ip.s1.toNat_lt
  have h2 := ip.s2.toNat_lt
  have h3 := ip.s3.toNat_lt
  have h4 := ip.s4.toNat_lt
  have h5 := ip.s5.toNat_lt
  have h6 := ip.s6.toNat_lt
  have h7 := ip.s7.toNat_lt
  have hs1 := s1.toNat_lt
  simp only [← UInt16.toNat_inj, Cidr.Contains, block6, Ipv6Addr.bits, UInt16.toNat_ofNat]
  omega

/-- A masked segment is that of a block when the segments agree in the bits of the mask. -/
theorem masked_iff (segment base : UInt16) {bits low : ℕ} (hbits : low + bits = 16)
    (hbase : base.toNat % 2 ^ low = 0) :
    segment.toNat &&& (2 ^ bits - 1) <<< low = base.toNat ↔
      segment.toNat / 2 ^ low = base.toNat / 2 ^ low := by
  have hsegment := segment.toNat_lt
  rw [Cidr.and_mask (by rwa [hbits])]
  have hwhole := Nat.div_add_mod base.toNat (2 ^ low)
  rw [hbase, Nat.add_zero, Nat.mul_comm] at hwhole
  constructor
  · intro h
    rw [← h, Nat.mul_div_cancel _ (Nat.two_pow_pos low)]
  · intro h
    rw [h, hwhole]

/-- The unique local range. -/
theorem Ipv6Addr.isUniqueLocal_iff :
    ip.isUniqueLocal = true ↔ (block6 0xfc00 0 7).Contains ip.bits := by
  rw [Ipv6Addr.contains_segment ip 0xfc00 0 (show 7 + 9 = 16 from rfl),
    ← masked_iff ip.s0 0xfc00 (show 9 + 7 = 16 from rfl) (by decide)]
  simp [Ipv6Addr.isUniqueLocal, ← UInt16.toNat_inj]

/-- The link-local range of IPv6. -/
theorem Ipv6Addr.isUnicastLinkLocal_iff :
    ip.isUnicastLinkLocal = true ↔ (block6 0xfe80 0 10).Contains ip.bits := by
  rw [Ipv6Addr.contains_segment ip 0xfe80 0 (show 10 + 6 = 16 from rfl),
    ← masked_iff ip.s0 0xfe80 (show 6 + 10 = 16 from rfl) (by decide)]
  simp [Ipv6Addr.isUnicastLinkLocal, ← UInt16.toNat_inj]

/-- The multicast range of IPv6. -/
theorem Ipv6Addr.isMulticast_iff :
    ip.isMulticast = true ↔ (block6 0xff00 0 8).Contains ip.bits := by
  rw [Ipv6Addr.contains_segment ip 0xff00 0 (show 8 + 8 = 16 from rfl),
    ← masked_iff ip.s0 0xff00 (show 8 + 8 = 16 from rfl) (by decide)]
  simp [Ipv6Addr.isMulticast, ← UInt16.toNat_inj]

/-- The blocks of IPv6 itself. -/
theorem refusedIpv6_iff :
    (∃ block ∈ refusedIpv6, block.Contains ip.bits) ↔
      ip.isUniqueLocal = true ∨ ip.isUnicastLinkLocal = true ∨ ip.isMulticast = true ∨
        (ip.s0 = 0x2001 ∧ ip.s1 = 0x0db8) := by
  simp only [refusedIpv6, List.exists_mem_cons_iff, List.not_mem_nil, false_and, exists_false,
    or_false, Ipv6Addr.isUniqueLocal_iff, Ipv6Addr.isUnicastLinkLocal_iff,
    Ipv6Addr.isMulticast_iff, Ipv6Addr.contains_segments]

/-- A mapped address is refused as its IPv4 address is. -/
theorem isPrivateIpv6_mapped : isPrivateIpv6 (Ipv6Addr.mapped ipv4) = isPrivateIpv4 ipv4 := by
  have hmapped : (Ipv6Addr.mapped ipv4).toIpv4Mapped = some ipv4 := by
    rw [Ipv6Addr.toIpv4Mapped, Ipv6Addr.tail_mapped]
    rfl
  rw [isPrivateIpv6, hmapped]

/-- Addresses that start with zero are refused. -/
theorem isPrivateIpv4_of_zero (hzero : ipv4.a = 0) : isPrivateIpv4 ipv4 = true := by
  simp [isPrivateIpv4, hzero]

/-- The unspecified address and the loopback address are compatible forms of addresses that are
refused as such. -/
theorem isPrivateIpv6_compatible :
    isPrivateIpv6 (Ipv6Addr.compatible ipv4) = isPrivateIpv4 ipv4 := by
  have hmapped : (Ipv6Addr.compatible ipv4).toIpv4Mapped = none := rfl
  have hipv4 : (Ipv6Addr.compatible ipv4).toIpv4 = some ipv4 := by
    rw [Ipv6Addr.toIpv4, Ipv6Addr.tail_compatible]
    rfl
  have hlocal : (Ipv6Addr.compatible ipv4).isUniqueLocal = false ∧
      (Ipv6Addr.compatible ipv4).isUnicastLinkLocal = false ∧
      (Ipv6Addr.compatible ipv4).isMulticast = false := by
    rw [Ipv6Addr.isUniqueLocal, Ipv6Addr.isUnicastLinkLocal, Ipv6Addr.isMulticast,
      show (Ipv6Addr.compatible ipv4).s0 = 0 from rfl]
    decide
  have hdocumentation : ((Ipv6Addr.compatible ipv4).s0 == 0x2001) = false := rfl
  have hsmall : (Ipv6Addr.compatible ipv4).s6 = 0 → ipv4.a = 0 := by
    intro hs6
    rw [← Ipv6Addr.tail_compatible ipv4, Ipv6Addr.tail, hs6]
    rfl
  simp only [isPrivateIpv6, hmapped, hipv4, hlocal, hdocumentation, Bool.or_false, Bool.false_and,
    Bool.false_eq_true, if_false, Bool.if_true_left]
  by_cases hspecial : (Ipv6Addr.compatible ipv4).isUnspecified = true ∨
      (Ipv6Addr.compatible ipv4).isLoopback = true
  · have hs6 : (Ipv6Addr.compatible ipv4).s6 = 0 := by
      rcases hspecial with h | h
      · simp only [Ipv6Addr.isUnspecified, Bool.and_eq_true, beq_iff_eq] at h
        exact h.1.2
      · simp only [Ipv6Addr.isLoopback, Bool.and_eq_true, beq_iff_eq] at h
        exact h.1.2
    rw [isPrivateIpv4_of_zero ipv4 (hsmall hs6), Bool.or_true]
  · rw [← Bool.or_eq_true, Bool.not_eq_true] at hspecial
    simp [hspecial]

/-- Another address is refused if one of the ranges has it. -/
theorem isPrivateIpv6_iff (hmapped : ∀ ipv4, ip ≠ Ipv6Addr.mapped ipv4)
    (hcompatible : ∀ ipv4, ip ≠ Ipv6Addr.compatible ipv4) :
    isPrivateIpv6 ip = true ↔ ∃ block ∈ refusedIpv6, block.Contains ip.bits := by
  have hnotMapped : ¬ (ip.leadingZeros = true ∧ ip.s5 = 0xffff) :=
    fun h => hmapped _ ((Ipv6Addr.eq_mapped_iff ip).mpr h)
  have hnotCompatible : ¬ (ip.leadingZeros = true ∧ ip.s5 = 0) :=
    fun h => hcompatible _ ((Ipv6Addr.eq_compatible_iff ip).mpr h)
  rw [refusedIpv6_iff]
  have htoMapped : ip.toIpv4Mapped = none := by
    simpa [Ipv6Addr.toIpv4Mapped] using hnotMapped
  have htoIpv4 : ip.toIpv4 = none := by
    simp only [Ipv6Addr.toIpv4, Bool.and_eq_true, Bool.or_eq_true, beq_iff_eq]
    rw [if_neg fun h => h.2.elim (fun h5 => hnotCompatible ⟨h.1, h5⟩)
      (fun h5 => hnotMapped ⟨h.1, h5⟩)]
  have hunspecified : ip.isUnspecified = false := by
    by_contra h
    simp only [Ipv6Addr.isUnspecified, Bool.not_eq_false, Bool.and_eq_true, beq_iff_eq] at h
    exact hnotCompatible h.1.1
  have hloopback : ip.isLoopback = false := by
    by_contra h
    simp only [Ipv6Addr.isLoopback, Bool.not_eq_false, Bool.and_eq_true, beq_iff_eq] at h
    exact hnotCompatible h.1.1
  simp [isPrivateIpv6, htoMapped, htoIpv4, hunspecified, hloopback, or_assoc]

end Ipv6

/-- An IPv4 address is refused exactly in the refused blocks, also when it is written as an IPv6
address, and any other IPv6 address exactly in those of IPv6. -/
theorem is_private_ip_exact :
    (∀ ip : Ipv4Addr, isPrivateIp (.v4 ip) = true ↔
        ∃ block ∈ refusedIpv4, block.Contains ip.bits) ∧
      (∀ ip : Ipv4Addr, isPrivateIp (.v6 (Ipv6Addr.mapped ip)) = isPrivateIp (.v4 ip)) ∧
      (∀ ip : Ipv4Addr, isPrivateIp (.v6 (Ipv6Addr.compatible ip)) = isPrivateIp (.v4 ip)) ∧
      ∀ ip : Ipv6Addr, (∀ ipv4, ip ≠ Ipv6Addr.mapped ipv4 ∧ ip ≠ Ipv6Addr.compatible ipv4) →
        (isPrivateIp (.v6 ip) = true ↔ ∃ block ∈ refusedIpv6, block.Contains ip.bits) :=
  ⟨isPrivateIpv4_iff, isPrivateIpv6_mapped, isPrivateIpv6_compatible, fun ip hother =>
    isPrivateIpv6_iff ip (fun ipv4 => (hother ipv4).1) fun ipv4 => (hother ipv4).2⟩

/-- `2607:f8b0:4004:800::200e`. -/
def publicIpv6 : Ipv6Addr :=
  { s0 := 0x2607, s1 := 0xf8b0, s2 := 0x4004, s3 := 0x0800, s4 := 0, s5 := 0, s6 := 0,
    s7 := 0x200e }

/-- A public IPv6 address is in no refused block. -/
theorem is_private_ip_public : ¬ ∃ block ∈ refusedIpv6, block.Contains publicIpv6.bits := by
  rw [← is_private_ip_exact.2.2.2 publicIpv6 fun ipv4 =>
    ⟨fun h => absurd (congrArg Ipv6Addr.s0 h) (by decide : publicIpv6.s0 ≠ 0),
      fun h => absurd (congrArg Ipv6Addr.s0 h) (by decide : publicIpv6.s0 ≠ 0)⟩]
  decide

end DomainStatus.Security
