import Lizlib.Data.Layout

/-!
# Internet addresses

An `InetAddress` holds a `sockaddr_in` and a `sockaddr_in6` in one union, and a flag that says which
of them counts.  The union is a block of bytes, and the members of the two structures are ranges of it.

`inet_pton` and `inet_ntop` translate between addresses and texts; `InetPton` and `InetNtop` stand for
what they compute.  The bytes of a `std::string` are written as characters.
-/

namespace Lizlib

def AF_INET : UInt16 := 2

def AF_INET6 : UInt16 := 10

/-- `sizeof(sockaddr_in)`, and `sizeof(sockaddr)` as well. -/
def sizeofSockaddrIn : Nat := 16

/-- `sizeof(sockaddr_in6)` -/
def sizeofSockaddrIn6 : Nat := 28

def INET_ADDRSTRLEN : Nat := 16

def INET6_ADDRSTRLEN : Nat := 46

/-- The bytes of an address of the family. -/
def addrLength (ipv6 : Bool) : Nat := if ipv6 then 16 else 4

/-- The room for the text of an address of the family. -/
def addrStrLen (ipv6 : Bool) : Nat := if ipv6 then INET6_ADDRSTRLEN else INET_ADDRSTRLEN

/-- What `inet_pton` reads from a text. -/
structure InetPton where
  /-- The address in network order, `none` where the text is not one of the family. -/
  parse : (ipv6 : Bool) → List Char → Option (List UInt8)
  length : ∀ ipv6 text addr, parse ipv6 text = some addr → addr.length = addrLength ipv6

/-- What `inet_ntop` writes for an address. -/
structure InetNtop where
  text : (ipv6 : Bool) → List UInt8 → List Char
  nul : ∀ ipv6 addr, '\x00' ∉ text ipv6 addr
  fits : ∀ ipv6 addr, (text ipv6 addr).length < addrStrLen ipv6

/-- `inet_pton(af, src, dst)` with `dst` at an offset of a block; whether it has read an address. -/
def inet_pton (pton : InetPton) (ipv6 : Bool) (src : List Char) (dst : Nat) (b : Block UInt8) :
    Bool × Block UInt8 :=
  match pton.parse ipv6 src with
  | some addr => (true, b.write dst addr)
  | none => (false, b)

/-- `inet_ntop(af, src, dst, size)`: what `dst` holds then. -/
def inet_ntop (ntop : InetNtop) (ipv6 : Bool) (src : List UInt8) (dst : List Char) (size : Nat) :
    List Char :=
  let text := ntop.text ipv6 src
  if text.length < size then text ++ '\x00' :: dst.drop (text.length + 1) else dst

/-- `std::string::c_str`, as a function that stops at the first NUL reads it. -/
def c_str (s : List Char) : List Char := s.takeWhile (· ≠ '\x00')

/-- `std::string::resize` -/
def resize (n : Nat) (s : List Char) : List Char :=
  s.take n ++ List.replicate (n - s.length) '\x00'

/-! ### The union -/

/-- A `sockaddr_in`. -/
structure SockaddrIn where
  sin_family : UInt16
  sin_port : UInt16
  sin_addr : List UInt8
  sin_zero : List UInt8
  deriving DecidableEq

/-- A `sockaddr_in6`. -/
structure SockaddrIn6 where
  sin6_family : UInt16
  sin6_port : UInt16
  sin6_flowinfo : List UInt8
  sin6_addr : List UInt8
  sin6_scope_id : List UInt8
  deriving DecidableEq

namespace InetImpl

def sin_family : Member := ⟨0, 2⟩
def sin_port : Member := ⟨2, 2⟩
def sin_addr : Member := ⟨4, 4⟩
def sin_zero : Member := ⟨8, 8⟩

def sin6_family : Member := ⟨0, 2⟩
def sin6_port : Member := ⟨2, 2⟩
def sin6_flowinfo : Member := ⟨4, 4⟩
def sin6_addr : Member := ⟨8, 16⟩
def sin6_scope_id : Member := ⟨24, 4⟩

/-- `InetImpl impl_{}` -/
def zeroed : Block UInt8 := .fill sizeofSockaddrIn6 0

/-- The union read as a `sockaddr_in`. -/
def in4 (e : Endian) (impl : Block UInt8) : SockaddrIn where
  sin_family := e.value (sin_family.get impl)
  sin_port := e.value (sin_port.get impl)
  sin_addr := sin_addr.get impl
  sin_zero := sin_zero.get impl

/-- The union read as a `sockaddr_in6`. -/
def in6 (e : Endian) (impl : Block UInt8) : SockaddrIn6 where
  sin6_family := e.value (sin6_family.get impl)
  sin6_port := e.value (sin6_port.get impl)
  sin6_flowinfo := sin6_flowinfo.get impl
  sin6_addr := sin6_addr.get impl
  sin6_scope_id := sin6_scope_id.get impl

end InetImpl

/-- An address. -/
structure InetAddress where
  impl_ : Block UInt8 := InetImpl.zeroed
  host_ : List Char := []
  ipv6_enabled_ : Bool := false

namespace InetAddress

open InetImpl

/-- `Ipv6()` -/
def Ipv6 (a : InetAddress) : Bool := a.ipv6_enabled_

/-- `Host()` -/
def Host (a : InetAddress) : List Char := a.host_

/-- `Port()` -/
def Port (e : Endian) (a : InetAddress) : UInt16 :=
  e.htons (if a.ipv6_enabled_ then (in6 e a.impl_).sin6_port else (in4 e a.impl_).sin_port)

/-- `Length()` -/
def Length (a : InetAddress) : Nat :=
  if a.ipv6_enabled_ then sizeofSockaddrIn6 else sizeofSockaddrIn

/-- What the constructor logs where `inet_pton` fails. -/
def wrongHostFormat (host : List Char) : List Char := "wrong host format : ".toList ++ c_str host

/-- `InetAddress(host, port, ipv6)`, with what it logs. -/
def make (e : Endian) (pton : InetPton) (host : List Char) (port : UInt16) (ipv6 : Bool) :
    InetAddress × Option (List Char) :=
  if ipv6 then
    let impl := sin6_family.put zeroed (e.bytes AF_INET6)
    let impl := sin6_port.put impl (e.bytes (e.htons port))
    let (ok, impl) := inet_pton pton true (c_str host) sin_addr.offset impl
    (⟨impl, host, ipv6⟩, if ok then none else some (wrongHostFormat host))
  else
    let impl := sin_family.put zeroed (e.bytes AF_INET)
    let impl := sin_port.put impl (e.bytes (e.htons port))
    let (ok, impl) := inet_pton pton false (c_str host) sin_addr.offset impl
    (⟨impl, host, ipv6⟩, if ok then none else some (wrongHostFormat host))

end InetAddress

end Lizlib
