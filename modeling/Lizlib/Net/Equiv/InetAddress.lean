import Lizlib.Net.InetAddress

/-!
# What the constructor of an address encodes

For an IPv6 address the constructor fills in the family and the port of the `sockaddr_in6`, but it has
`inet_pton` store the address where a `sockaddr_in` has its own: four bytes too low.  The first four
bytes of the address end up as the flow information, and the others are shifted.  So
`encodes_make_iff`: the constructor encodes every IPv4 address, and of the IPv6 addresses only `::`.
-/

namespace Lizlib

namespace InetAddress

open InetImpl

/-- The bytes of the address, read through the structure of the family, say the family, the port in
network order and `addr`, and nothing else. -/
structure Encodes (e : Endian) (a : InetAddress) (ipv6 : Bool) (port : UInt16) (addr : List UInt8) :
    Prop where
  flag : a.Ipv6 = ipv6
  in4 : ipv6 = false → in4 e a.impl_ = ⟨AF_INET, e.htons port, addr, List.replicate 8 0⟩
  in6 : ipv6 = true →
    in6 e a.impl_ = ⟨AF_INET6, e.htons port, List.replicate 4 0, addr, List.replicate 4 0⟩
  network : (if ipv6 then sin6_port else sin_port).get a.impl_ = Endian.big.bytes port
  port : a.Port e = port

/-! ### The family and the port -/

/-- The union once the family and the port are filled in; they are at the same place in both
structures. -/
def header (e : Endian) (family port : UInt16) : Block UInt8 :=
  sin_port.put (sin_family.put zeroed (e.bytes family)) (e.bytes (e.htons port))

variable {e : Endian} {family port : UInt16} {addr : List UInt8}

theorem sin_family_header : sin_family.get (header e family port) = e.bytes family := by
  rw [header, Member.get_put_of_disjoint (by simp [sin_port]) (by decide)]
  exact Member.get_put (by simp [sin_family])

theorem sin_port_header : sin_port.get (header e family port) = Endian.big.bytes port := by
  rw [header, Member.get_put (by simp [sin_port]), Endian.bytes_htons]

/-- Behind the port everything is zero. -/
theorem slice_header {off n : Nat} (h : 4 ≤ off) :
    (header e family port).slice off n = List.replicate n 0 := by
  rw [header, Member.put, Member.put, Block.slice_write_after _ (by simpa [sin_port] using h),
    Block.slice_write_after _ (by simp [sin_family]; omega), zeroed, Block.slice_fill]

/-! ### The address -/

/-- The union once an address is stored where a `sockaddr_in` has its own. -/
def stored (e : Endian) (family port : UInt16) (addr : List UInt8) : Block UInt8 :=
  (header e family port).write sin_addr.offset addr

theorem sin_family_stored : sin_family.get (stored e family port addr) = e.bytes family :=
  (Block.slice_write_before _ (by decide)).trans sin_family_header

theorem sin_port_stored : sin_port.get (stored e family port addr) = Endian.big.bytes port :=
  (Block.slice_write_before _ (by decide)).trans sin_port_header

theorem value_sin_port_stored :
    e.value (sin_port.get (stored e family port addr)) = e.htons port := by
  rw [sin_port_stored, ← Endian.bytes_htons e, Endian.value_bytes]

/-- Behind the address everything is zero. -/
theorem slice_stored {off n : Nat} (h : 4 + addr.length ≤ off) :
    (stored e family port addr).slice off n = List.replicate n 0 :=
  (Block.slice_write_after _ h).trans (slice_header (by omega))

/-- The union of an IPv4 address. -/
theorem in4_stored (h : addr.length = 4) :
    in4 e (stored e family port addr) = ⟨family, e.htons port, addr, List.replicate 8 0⟩ := by
  have haddr : sin_addr.get (stored e family port addr) = addr := Member.get_put (f := sin_addr) h
  have hzero : sin_zero.get (stored e family port addr) = List.replicate 8 0 :=
    slice_stored (by rw [h]; decide)
  rw [in4, sin_family_stored, value_sin_port_stored, haddr, hzero, Endian.value_bytes]

/-- The union of an IPv6 address, which is stored four bytes too low. -/
theorem in6_stored (h : addr.length = 16) :
    in6 e (stored e family port addr) =
      ⟨family, e.htons port, addr.take 4, addr.drop 4 ++ List.replicate 4 0, List.replicate 4 0⟩ := by
  have hfamily : e.value (sin6_family.get (stored e family port addr)) = family := by
    show e.value (sin_family.get (stored e family port addr)) = family
    rw [sin_family_stored, Endian.value_bytes]
  have hport : e.value (sin6_port.get (stored e family port addr)) = e.htons port :=
    value_sin_port_stored
  have hflow : sin6_flowinfo.get (stored e family port addr) = addr.take 4 := by
    show (stored e family port addr).slice (4 + 0) 4 = (addr.drop 0).take 4
    exact Block.slice_write_within _ (by omega)
  have hshifted : (stored e family port addr).slice (4 + 4) 12 = (addr.drop 4).take 12 :=
    Block.slice_write_within _ (by omega)
  have haddr : sin6_addr.get (stored e family port addr) = addr.drop 4 ++ List.replicate 4 0 := by
    calc (stored e family port addr).slice 8 (12 + 4)
        = (stored e family port addr).slice 8 12 ++ (stored e family port addr).slice 20 4 :=
          Block.slice_add _
      _ = addr.drop 4 ++ List.replicate 4 0 := by
          rw [hshifted, slice_stored (by omega), List.take_of_length_le (by simp [h])]
  have hscope : sin6_scope_id.get (stored e family port addr) = List.replicate 4 0 :=
    slice_stored (by rw [h]; decide)
  rw [in6, hfamily, hport, hflow, haddr, hscope]

/-- A list that is shifted onto itself, with `a` moved in, is `a` all along. -/
theorem eq_replicate_of_shift {α : Type*} {l : List α} {k : Nat} {a : α} (hk : 0 < k)
    (h : l.drop k ++ List.replicate k a = l) : l = List.replicate l.length a := by
  have hall : ∀ n i, l.length - i ≤ n → i < l.length → l[i]? = some a := by
    -- from the end, in steps of `k`
    intro n
    induction n with
    | zero => intro i hn hi; omega
    | succ n ih =>
      intro i hn hi
      have hshift : l[i]? = (l.drop k ++ List.replicate k a)[i]? := by rw [h]
      by_cases hnext : i + k < l.length
      · rw [List.getElem?_append_left (by rw [List.length_drop]; omega), List.getElem?_drop] at hshift
        exact hshift.trans (ih (k + i) (by omega) (by omega))
      · rw [List.getElem?_append_right (by rw [List.length_drop]; omega), List.length_drop,
          List.getElem?_replicate, if_pos (by omega)] at hshift
        exact hshift
  refine List.eq_replicate_iff.mpr ⟨rfl, fun b hb => ?_⟩
  obtain ⟨i, hi, rfl⟩ := List.getElem_of_mem hb
  have hget := hall l.length i (by omega) hi
  rwa [List.getElem?_eq_getElem hi, Option.some.injEq] at hget

/-! ### The constructor -/

variable {pton : InetPton} {host : List Char} {ipv6 : Bool}

/-- The constructor where `inet_pton` accepts the text. -/
theorem make_of_parse (hparse : pton.parse ipv6 (c_str host) = some addr) :
    make e pton host port ipv6 =
      (⟨stored e (if ipv6 then AF_INET6 else AF_INET) port addr, host, ipv6⟩, none) := by
  cases ipv6 with
  | false => simp only [make, inet_pton, hparse, stored, header]; rfl
  | true => simp only [make, inet_pton, hparse, stored, header]; rfl

/-- `Port` converts the port back from network order. -/
theorem port_of_network {impl : Block UInt8} (h : sin_port.get impl = Endian.big.bytes port) :
    Port e ⟨impl, host, ipv6⟩ = port := by
  have hport : Port e ⟨impl, host, ipv6⟩ = e.htons (e.value (sin_port.get impl)) := by
    cases ipv6 <;> rfl
  rw [hport, h, ← Endian.bytes_htons e, Endian.value_bytes, Endian.htons_htons]

/-- **The exact condition**: an address that `inet_pton` accepts is encoded if and only if it is an
IPv4 address or the IPv6 address `::`. -/
theorem encodes_make_iff (hparse : pton.parse ipv6 (c_str host) = some addr) :
    (make e pton host port ipv6).1.Encodes e ipv6 port addr ↔
      (ipv6 = true → addr = List.replicate 16 0) := by
  have hlength := pton.length ipv6 _ addr hparse
  rw [make_of_parse hparse]
  cases ipv6 with
  | false =>
    refine iff_of_true ⟨rfl, fun _ => in4_stored hlength, by simp, sin_port_stored, ?_⟩ (by simp)
    exact port_of_network sin_port_stored
  | true =>
    have h16 : addr.length = 16 := hlength
    constructor
    · intro h _
      have hin6 := h.in6 rfl
      rw [if_pos rfl, in6_stored h16] at hin6
      have hshift : addr.drop 4 ++ List.replicate 4 0 = addr := congrArg SockaddrIn6.sin6_addr hin6
      exact h16 ▸ eq_replicate_of_shift (by omega) hshift
    · intro h
      obtain rfl := h rfl
      refine ⟨rfl, by simp, fun _ => in6_stored h16, sin_port_stored, ?_⟩
      exact port_of_network sin_port_stored

/-! ### Two addresses -/

/-- `inet_pton` on two texts. -/
def loopbackPton : InetPton where
  parse ipv6 text :=
    if ipv6 = false ∧ text = "127.0.0.1".toList then some [127, 0, 0, 1]
    else if ipv6 = true ∧ text = "::1".toList then some (List.replicate 15 0 ++ [1])
    else none
  length := by
    intro ipv6 text addr h
    split_ifs at h with h4 h6
    · obtain rfl := Option.some.inj h
      simp [addrLength, h4.1]
    · obtain rfl := Option.some.inj h
      simp [addrLength, h6.1]

theorem encodes_make_loopback :
    (make .little loopbackPton "127.0.0.1".toList 8080 false).1.Encodes .little false 8080
      [127, 0, 0, 1] :=
  (encodes_make_iff (by decide)).mpr (by simp)

/-- The loopback address of IPv6. -/
theorem not_encodes_make_loopback6 :
    loopbackPton.parse true (c_str "::1".toList) = some (List.replicate 15 0 ++ [1]) ∧
      ¬ (make .little loopbackPton "::1".toList 8080 true).1.Encodes .little true 8080
        (List.replicate 15 0 ++ [1]) := by
  refine ⟨by decide, fun h => ?_⟩
  have haddr := congrArg SockaddrIn6.sin6_addr (h.in6 rfl)
  exact absurd haddr (by decide)

end InetAddress

end Lizlib
