import Lizlib.Net.SocketAccept
import Lizlib.Net.Equiv.InetAddress

/-!
# Which peer an accepted connection reports

`accept4` is given room for a `sockaddr`, which is as long as a `sockaddr_in`.  A `sockaddr_in6` does
not fit: the kernel copies the family, the port, the flow information and the first half of the
address.  So `reports_accept_iff`: every IPv4 peer is reported, and of the IPv6 peers those whose
addresses end with eight zero bytes.
-/

namespace Lizlib

namespace Socket

open InetImpl InetAddress

/-- The bytes of the address of the family that counts. -/
def addrBytes (a : InetAddress) : List UInt8 :=
  if a.ipv6_enabled_ then sin6_addr.get a.impl_ else sin_addr.get a.impl_

/-- The address says who the peer is. -/
structure Reports (e : Endian) (ntop : InetNtop) (remote : InetAddress) (p : Peer) : Prop where
  family : remote.Ipv6 = p.ipv6
  port : remote.Port e = p.port
  addr : addrBytes remote = p.addr
  host : c_str remote.Host = ntop.text p.ipv6 p.addr

variable {e : Endian} {ntop : InetNtop} {family port : UInt16} {word rest : List UInt8} {p : Peer}

/-! ### What the kernel copies -/

/-- The union once sixteen bytes have been copied into it: the family, the port, a word of four bytes
and eight more. -/
def received (e : Endian) (family port : UInt16) (word rest : List UInt8) : Block UInt8 :=
  (stored e family port word).write 8 rest

theorem write_zeroed (h : word.length = 4) :
    zeroed.write 0 (e.bytes family ++ Endian.big.bytes port ++ word ++ rest) =
      received e family port word rest := by
  rw [← Block.write_append, ← Block.write_append, ← Block.write_append]
  simp only [List.length_append, Endian.length_bytes, h]
  rw [← Endian.bytes_htons e port]
  rfl

theorem sin_port_received :
    sin_port.get (received e family port word rest) = Endian.big.bytes port :=
  (Block.slice_write_before _ (by decide)).trans sin_port_stored

theorem sin_addr_received (h : word.length = 4) :
    sin_addr.get (received e family port word rest) = word := by
  have hword : sin_addr.get (stored e family port word) = word := Member.get_put (f := sin_addr) h
  exact (Block.slice_write_before _ (by decide)).trans hword

/-- The second half of an IPv6 address is not copied. -/
theorem sin6_addr_received (hword : word.length = 4) (hrest : rest.length = 8) :
    sin6_addr.get (received e family port word rest) = rest ++ List.replicate 8 0 := by
  have hfirst : (received e family port word rest).slice 8 8 = rest :=
    Member.get_put (f := ⟨8, 8⟩) hrest
  have hsecond : (received e family port word rest).slice 16 8 = List.replicate 8 0 :=
    (Block.slice_write_after _ (by omega)).trans (slice_stored (by omega))
  calc (received e family port word rest).slice 8 (8 + 8)
      = (received e family port word rest).slice 8 8 ++
          (received e family port word rest).slice 16 8 := Block.slice_add _
    _ = rest ++ List.replicate 8 0 := by rw [hfirst, hsecond]

/-! ### The text -/

/-- What `inet_ntop` has written is the text up to its NUL. -/
theorem c_str_inet_ntop (ipv6 : Bool) (src : List UInt8) (dst : List Char) :
    c_str (inet_ntop ntop ipv6 src dst (addrStrLen ipv6)) = ntop.text ipv6 src := by
  have hnul : ∀ c ∈ ntop.text ipv6 src, decide (c ≠ '\x00') = true := by
    intro c hc
    rw [decide_eq_true_iff]
    rintro rfl
    exact ntop.nul ipv6 src hc
  rw [inet_ntop, if_pos (ntop.fits ipv6 src), c_str, List.takeWhile_append_of_pos hnul]
  simp

/-! ### The peer -/

theorem length_sockaddr (e : Endian) (p : Peer) :
    (p.sockaddr e).length = if p.ipv6 then sizeofSockaddrIn6 else sizeofSockaddrIn := by
  have haddr := p.addr_length
  cases h : p.ipv6 with
  | false =>
    rw [h] at haddr
    simp [Peer.sockaddr, h, haddr, addrLength, sizeofSockaddrIn]
  | true =>
    rw [h] at haddr
    simp [Peer.sockaddr, h, haddr, addrLength, p.flowinfo_length, p.scope_id_length,
      sizeofSockaddrIn6]

/-- An IPv4 peer. -/
theorem accept_ipv4 (h : p.ipv6 = false) (fd : Nat) :
    Accept e ntop (.ok (fd, p)) {} =
      .ok (⟨received e AF_INET p.port p.addr (List.replicate 8 0),
        inet_ntop ntop false p.addr (resize INET_ADDRSTRLEN []) INET_ADDRSTRLEN, false⟩, fd) := by
  have haddr : p.addr.length = 4 := by rw [p.addr_length, h]; rfl
  have hlength : (p.sockaddr e).length = sizeofSockaddrIn := by rw [length_sockaddr, h]; rfl
  have hcopied : (p.sockaddr e).take (min sizeofSockaddrIn sizeofSockaddrIn) =
      e.bytes AF_INET ++ Endian.big.bytes p.port ++ p.addr ++ List.replicate 8 0 := by
    rw [List.take_of_length_le (by rw [hlength, Nat.min_self]), Peer.sockaddr, h]
    rfl
  simp only [Accept, accept4, hlength, hcopied, write_zeroed haddr, sin_addr_received haddr, if_true]

/-- An IPv6 peer. -/
theorem accept_ipv6 (h : p.ipv6 = true) (fd : Nat) :
    Accept e ntop (.ok (fd, p)) {} =
      .ok (⟨received e AF_INET6 p.port p.flowinfo (p.addr.take 8),
        inet_ntop ntop true (p.addr.take 8 ++ List.replicate 8 0) (resize INET6_ADDRSTRLEN [])
          INET6_ADDRSTRLEN, true⟩, fd) := by
  have haddr : p.addr.length = 16 := by rw [p.addr_length, h]; rfl
  have hlength : (p.sockaddr e).length = sizeofSockaddrIn6 := by rw [length_sockaddr, h]; rfl
  have hcopied : (p.sockaddr e).take (min sizeofSockaddrIn sizeofSockaddrIn6) =
      e.bytes AF_INET6 ++ Endian.big.bytes p.port ++ p.flowinfo ++ p.addr.take 8 := by
    have hfirst : (e.bytes AF_INET6 ++ Endian.big.bytes p.port ++ p.flowinfo).length = 8 := by
      simp [p.flowinfo_length]
    rw [Peer.sockaddr, h, if_pos rfl, List.append_assoc _ p.addr, List.take_append, hfirst,
      List.take_of_length_le (by rw [hfirst]; decide), List.take_append_of_le_length]
    · rfl
    · rw [haddr]
      decide
  have hrest : (p.addr.take 8).length = 8 := by simp [haddr]
  have hne : sizeofSockaddrIn6 ≠ sizeofSockaddrIn := by decide
  simp only [Accept, accept4, hlength, hcopied, write_zeroed p.flowinfo_length,
    sin6_addr_received p.flowinfo_length hrest, if_neg hne]

/-- **The exact condition**: a successful `Accept` with a new address reports the peer if and only if it
is an IPv4 peer or the second half of its IPv6 address is zero. -/
theorem reports_accept_iff (e : Endian) (ntop : InetNtop) (fd : Nat) (p : Peer) :
    (∃ remote, Accept e ntop (.ok (fd, p)) {} = .ok (remote, fd) ∧ Reports e ntop remote p) ↔
      (p.ipv6 = true → p.addr.drop 8 = List.replicate 8 0) := by
  cases h : p.ipv6 with
  | false =>
    have haddr : p.addr.length = 4 := by rw [p.addr_length, h]; rfl
    refine iff_of_true ⟨_, accept_ipv4 h fd, h.symm, port_of_network sin_port_received,
      sin_addr_received haddr, ?_⟩ (by simp)
    rw [h]
    exact c_str_inet_ntop false p.addr _
  | true =>
    have hrest : (p.addr.take 8).length = 8 := by
      rw [List.length_take, p.addr_length, h]
      rfl
    rw [accept_ipv6 h fd]
    constructor
    · rintro ⟨remote, haccept, hreports⟩ -
      obtain rfl := congrArg Prod.fst (Except.ok.inj haccept)
      have haddr := (sin6_addr_received p.flowinfo_length hrest).symm.trans hreports.addr
      rw [← List.take_append_drop 8 p.addr, List.take_left' hrest] at haddr
      exact (List.append_cancel_left haddr).symm
    · intro hzero
      have haddr : p.addr.take 8 ++ List.replicate 8 0 = p.addr := by
        rw [← hzero rfl, List.take_append_drop]
      refine ⟨_, rfl, h.symm, port_of_network sin_port_received, ?_, ?_⟩
      · exact (sin6_addr_received p.flowinfo_length hrest).trans haddr
      · rw [h]
        exact (c_str_inet_ntop true _ _).trans (congrArg (ntop.text true) haddr)

/-- `GetPeerAddress` has room for all bytes where `IsIpv6()` says the family of the peer. -/
theorem getPeerAddress_eq (e : Endian) (p : Peer) :
    GetPeerAddress e p.ipv6 p = ⟨zeroed.write 0 (p.sockaddr e), [], p.ipv6⟩ := by
  have hlength : InetAddress.Length { ipv6_enabled_ := p.ipv6 } = (p.sockaddr e).length := by
    rw [length_sockaddr]
    rfl
  rw [GetPeerAddress]
  simp only [hlength, Nat.min_self, List.take_length]

/-- **The sibling path** reads the port and all bytes of the address. -/
theorem getPeerAddress_of_family (e : Endian) (p : Peer) :
    (GetPeerAddress e p.ipv6 p).Port e = p.port ∧ addrBytes (GetPeerAddress e p.ipv6 p) = p.addr := by
  rw [getPeerAddress_eq]
  cases h : p.ipv6 with
  | false =>
    have haddr : p.addr.length = 4 := by rw [p.addr_length, h]; rfl
    have himpl : zeroed.write 0 (p.sockaddr e) =
        received e AF_INET p.port p.addr (List.replicate 8 0) := by
      rw [← write_zeroed haddr, Peer.sockaddr, h]
      rfl
    rw [himpl]
    exact ⟨port_of_network sin_port_received, sin_addr_received haddr⟩
  | true =>
    have haddr : p.addr.length = 16 := by rw [p.addr_length, h]; rfl
    have himpl : zeroed.write 0 (p.sockaddr e) =
        received e AF_INET6 p.port p.flowinfo (p.addr ++ p.scope_id) := by
      rw [← write_zeroed p.flowinfo_length, Peer.sockaddr, h, if_pos rfl, List.append_assoc _ p.addr]
    have hwithin : (received e AF_INET6 p.port p.flowinfo (p.addr ++ p.scope_id)).slice (8 + 0) 16 =
        ((p.addr ++ p.scope_id).drop 0).take 16 :=
      Block.slice_write_within _ (by simp [haddr])
    rw [himpl]
    refine ⟨port_of_network sin_port_received, hwithin.trans ?_⟩
    rw [List.drop_zero, List.take_left' haddr]

/-! ### A peer that is not reported -/

/-- `inet_ntop` on two addresses. -/
def documentationNtop : InetNtop where
  text ipv6 addr :=
    if ipv6 = true ∧ addr = [0x20, 0x01, 0x0d, 0xb8, 0, 1, 0, 2, 0, 3, 0, 4, 0, 5, 0, 6] then
      "2001:db8:1:2:3:4:5:6".toList
    else if ipv6 = true ∧ addr = [0x20, 0x01, 0x0d, 0xb8, 0, 1, 0, 2, 0, 0, 0, 0, 0, 0, 0, 0] then
      "2001:db8:1:2::".toList
    else []
  nul := by
    intro ipv6 addr
    split_ifs <;> decide
  fits := by
    intro ipv6 addr
    cases ipv6 <;> split_ifs <;> simp_all [addrStrLen, INET_ADDRSTRLEN, INET6_ADDRSTRLEN]

/-- A peer with an address out of the documentation range. -/
def documentationPeer : Peer where
  ipv6 := true
  port := 443
  addr := [0x20, 0x01, 0x0d, 0xb8, 0, 1, 0, 2, 0, 3, 0, 4, 0, 5, 0, 6]
  flowinfo := [0, 0, 0, 0]
  scope_id := [0, 0, 0, 0]
  addr_length := rfl
  flowinfo_length := rfl
  scope_id_length := rfl

/-- The last eight bytes of its address are lost; `GetPeerAddress` reads them all. -/
theorem not_reports_accept_documentation :
    (¬ ∃ remote, Accept .little documentationNtop (.ok (7, documentationPeer)) {} = .ok (remote, 7) ∧
      Reports .little documentationNtop remote documentationPeer) ∧
      addrBytes (GetPeerAddress .little true documentationPeer) = documentationPeer.addr := by
  refine ⟨?_, (getPeerAddress_of_family .little documentationPeer).2⟩
  rintro ⟨remote, haccept, hreports⟩
  obtain rfl := congrArg Prod.fst (Except.ok.inj haccept)
  exact absurd hreports.addr (by decide)

end Socket

end Lizlib
