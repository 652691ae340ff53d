import Lizlib.Net.InetAddress

/-!
# Accepting a connection

`Socket::Accept` hands the bytes of an `InetAddress` to `accept4`, with the length of a `sockaddr`.
The kernel copies as many bytes of the peer's address as fit and stores how many there are; `Accept`
tells the family by that number.  `Socket::GetPeerAddress` hands over the length of the family that
`IsIpv6` says.
-/

namespace Lizlib

/-- The address of a peer, as the kernel knows it. -/
structure Peer where
  ipv6 : Bool
  port : UInt16
  addr : List UInt8
  /-- Of an IPv6 address. -/
  flowinfo : List UInt8
  /-- Of an IPv6 address. -/
  scope_id : List UInt8
  addr_length : addr.length = addrLength ipv6
  flowinfo_length : flowinfo.length = 4
  scope_id_length : scope_id.length = 4

/-- The `sockaddr_in` or `sockaddr_in6` of the peer. -/
def Peer.sockaddr (e : Endian) (p : Peer) : List UInt8 :=
  if p.ipv6 then
    e.bytes AF_INET6 ++ Endian.big.bytes p.port ++ p.flowinfo ++ p.addr ++ p.scope_id
  else
    e.bytes AF_INET ++ Endian.big.bytes p.port ++ p.addr ++ List.replicate 8 0

/-- `accept4(fd, addr, &len, flags)`: the new descriptor, what `addr` holds, and `len`.  The kernel
answers with an error or with a descriptor and a peer. -/
def accept4 (e : Endian) (answer : Except Nat (Nat × Peer)) (addr : Block UInt8) (len : Nat) :
    Except Nat (Nat × Block UInt8 × Nat) :=
  match answer with
  | .error errno => .error errno
  | .ok (fd, p) =>
    let actual := (p.sockaddr e).length
    .ok (fd, addr.write 0 ((p.sockaddr e).take (min len actual)), actual)

namespace Socket

open InetImpl

/-- `Accept(remote, socket)`: the error, or `*remote` and the descriptor of `*socket`. -/
def Accept (e : Endian) (ntop : InetNtop) (answer : Except Nat (Nat × Peer)) (remote : InetAddress) :
    Except Nat (InetAddress × Nat) :=
  match accept4 e answer remote.impl_ sizeofSockaddrIn with
  | .error errno => .error errno
  | .ok (fd, impl, len) =>
    if len = sizeofSockaddrIn then
      let host := resize INET_ADDRSTRLEN remote.host_
      let host := inet_ntop ntop false (sin_addr.get impl) host INET_ADDRSTRLEN
      .ok (⟨impl, host, false⟩, fd)
    else
      let host := resize INET6_ADDRSTRLEN remote.host_
      let host := inet_ntop ntop true (sin6_addr.get impl) host INET6_ADDRSTRLEN
      .ok (⟨impl, host, true⟩, fd)

/-- `GetPeerAddress()` where `IsIpv6()` returns `ipv6` and `getpeername` succeeds. -/
def GetPeerAddress (e : Endian) (ipv6 : Bool) (p : Peer) : InetAddress :=
  let ret : InetAddress := { ipv6_enabled_ := ipv6 }
  let actual := (p.sockaddr e).length
  { ret with impl_ := ret.impl_.write 0 ((p.sockaddr e).take (min ret.Length actual)) }

end Socket

end Lizlib
