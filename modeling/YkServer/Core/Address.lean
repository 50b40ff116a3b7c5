import YkServer.Core.HttpConnection
import YkServer.Lib.Bits

/-!
# Addresses

The model of `CreateMask`, of `byteswapOnLittleEndian` of `yk/endian.h`, and of what
`IPv4Address` and `IPv6Address` of `yk/address.cc` do with an address: the addresses of a
subnet, what a new address is made of, and the printed form. A `sockaddr_in` has its address
as a word of the host, a `sockaddr_in6` as sixteen bytes. `sin_zero`, the flow and the
scope are left out. `inet_pton` is a function of the C library and an argument here.

The outer `Option` of a result is `none` where the behaviour is undefined: a shift by the
width of an `int` or more, an overflow of an `int`, an index out of range. The inner one
is the pointer.

## Main definitions

* `byteswapOnLittleEndian32`, `createMask`: Words.
* `IPv4Address.broadcastAddress`, `IPv4Address.networkAddress`, `IPv4Address.subnetMask`
* `IPv6Address.broadcastAddress`, `IPv6Address.networkAddress`, `IPv6Address.subnetMask`
* `IPv4Address.construct`, `IPv4Address.create`, `IPv6Address.construct`, `IPv6Address.create`:
  New addresses.
* `IPv4Address.insert`, `IPv6Address.insert`: Printing.
-/

namespace YkServer

open Lib

/-- `YK_BYTE_ORDER`. -/
inductive ByteOrder where
  | littleEndian
  | bigEndian
  deriving DecidableEq, Repr

/-- `byteswapOnLittleEndian` at `uint32_t`. -/
def byteswapOnLittleEndian32 (host : ByteOrder) (t : BitVec 32) : BitVec 32 :=
  match host with
  | .littleEndian => swap32 t
  | .bigEndian => t

/-- `byteswapOnLittleEndian` at `uint16_t`. -/
def byteswapOnLittleEndian16 (host : ByteOrder) (t : BitVec 16) : BitVec 16 :=
  match host with
  | .littleEndian => swap16 t
  | .bigEndian => t

/-- `1 << count`. -/
def shiftOne (count : Nat) : Option Int :=
  if count < 32 then some (intOfWord (2 ^ count)) else none

/-- `v - 1`. -/
def pred (v : Int) : Option Int := if -2 ^ 31 < v then some (v - 1) else none

/-- `CreateMask` for an unsigned type of `w` bits. `sizeof(T)*8 - bits` is a `size_t`. -/
def createMask (w : Nat) (bits : UInt32) : Option (BitVec w) := do
  let v ← shiftOne ((w + 2 ^ 64 - bits.toNat) % 2 ^ 64)
  let v ← pred v
  some (BitVec.ofInt w v)

/-- `AF_INET` and `AF_INET6`. -/
def afInet : BitVec 16 := 2

def afInet6 : BitVec 16 := 10

/-- `IPv4Address`, which has a `sockaddr_in`. -/
structure IPv4Address where
  family : BitVec 16
  port : BitVec 16
  addr : BitVec 32
  deriving DecidableEq, Repr

namespace IPv4Address

def broadcastAddress (host : ByteOrder) (m : IPv4Address) (prefixLen : UInt32) :
    Option (Option IPv4Address) :=
  if prefixLen > 32 then some none
  else do
    let mask ← createMask 32 prefixLen
    some (some { m with addr := m.addr ||| byteswapOnLittleEndian32 host mask })

def networkAddress (host : ByteOrder) (m : IPv4Address) (prefixLen : UInt32) :
    Option (Option IPv4Address) :=
  if prefixLen > 32 then some none
  else do
    let mask ← createMask 32 prefixLen
    some (some { m with addr := m.addr &&& ~~~byteswapOnLittleEndian32 host mask })

/-- There is no check of `prefix_len` here. -/
def subnetMask (host : ByteOrder) (prefixLen : UInt32) : Option (Option IPv4Address) := do
  let mask ← createMask 32 prefixLen
  some (some ⟨afInet, 0, ~~~byteswapOnLittleEndian32 host mask⟩)

/-- `IPv4Address(address, port)`, which does not look at the address. -/
def construct (host : ByteOrder) (_address port : BitVec 32) : IPv4Address :=
  -- The port is swapped as it comes, with 32 bits, and cut to 16 after that.
  ⟨afInet, (byteswapOnLittleEndian32 host port).setWidth 16, 0⟩

/-- `Create`. What `inet_pton` gives is the four bytes in memory, as a word of the host. -/
def create (host : ByteOrder) (inetPton : List UInt8 → Option (BitVec 32))
    (address : List UInt8) (port : BitVec 32) : Option IPv4Address :=
  let rt := { construct host 0 0 with port := (byteswapOnLittleEndian32 host port).setWidth 16 }
  match inetPton address with
  | none => none
  | some addr => some { rt with addr := addr }

def getPort (host : ByteOrder) (m : IPv4Address) : BitVec 16 := byteswapOnLittleEndian16 host m.port

def getFamily (m : IPv4Address) : BitVec 16 := m.family

def insert (host : ByteOrder) (m : IPv4Address) : List UInt8 :=
  let addr := byteswapOnLittleEndian32 host m.addr
  printed ((addr >>> 24) &&& 0xff).toNat ++ ascii "." ++ printed ((addr >>> 16) &&& 0xff).toNat ++
    ascii "." ++ printed ((addr >>> 8) &&& 0xff).toNat ++ ascii "." ++
    printed (addr &&& 0xff).toNat ++ ascii ":" ++
    printed (byteswapOnLittleEndian16 host m.port).toNat

end IPv4Address

/-- `IPv6Address`, which has a `sockaddr_in6`. -/
structure IPv6Address where
  family : BitVec 16
  port : BitVec 16
  addr : Vector (BitVec 8) 16
  deriving DecidableEq, Repr

/-- `s6_addr[i] = v`. -/
def store (addr : Vector (BitVec 8) 16) (i : Nat) (v : BitVec 8) : Option (Vector (BitVec 8) 16) :=
  if h : i < 16 then some (addr.set i v h) else none

/-- A loop that stores `v` at so many places from `i` on. -/
def fill (v : BitVec 8) : Nat → Nat → Vector (BitVec 8) 16 → Option (Vector (BitVec 8) 16)
  | 0, _, addr => some addr
  | n + 1, i, addr => do
    let addr ← store addr i v
    fill v n (i + 1) addr

namespace IPv6Address

def broadcastAddress (m : IPv6Address) (prefixLen : UInt32) : Option IPv6Address := do
  let i := (prefixLen / 8).toNat
  let mask ← createMask 8 (prefixLen % 8)
  let b ← m.addr[i]?
  let addr ← store m.addr i (b ||| mask)
  let addr ← fill 0xff (16 - (i + 1)) (i + 1) addr
  some { m with addr := addr }

def networkAddress (m : IPv6Address) (prefixLen : UInt32) : Option IPv6Address := do
  let i := (prefixLen / 8).toNat
  let mask ← createMask 8 (prefixLen % 8)
  let b ← m.addr[i]?
  let addr ← store m.addr i (b &&& mask)
  some { m with addr := addr }

def subnetMask (prefixLen : UInt32) : Option IPv6Address := do
  let i := (prefixLen / 8).toNat
  let mask ← createMask 8 (prefixLen % 8)
  let addr ← store (Vector.replicate 16 0) i (~~~mask)
  let addr ← fill 0xff i 0 addr
  some ⟨afInet6, 0, addr⟩

/-- `((uint16_t*) s6_addr)[i]`. -/
def load16 (host : ByteOrder) (addr : Vector (BitVec 8) 16) (i : Nat) : Option (BitVec 16) := do
  let first ← addr[2 * i]?
  let second ← addr[2 * i + 1]?
  match host with
  | .littleEndian => some (second ++ first)
  | .bigEndian => some (first ++ second)

/-- A number printed with `std::hex`. -/
def hex (n : Nat) : List UInt8 := (Nat.toDigits 16 n).map (fun c => UInt8.ofNat c.toNat)

/-- `i && addr[i-1] == 0`. -/
def zeroBefore (host : ByteOrder) (addr : Vector (BitVec 8) 16) (i : Nat) : Option Bool :=
  if i = 0 then some false else (load16 host addr (i - 1)).map (fun group => decide (group = 0))

/-- The loop of `insert`, with so many rounds left: what it prints, and `used_zeros`. -/
def insertLoop (host : ByteOrder) (addr : Vector (BitVec 8) 16) :
    Nat → Nat → Bool → Option (List UInt8 × Bool)
  | 0, _, usedZeros => some ([], usedZeros)
  | n + 1, i, usedZeros => do
    let group ← load16 host addr i
    if group = 0 && !usedZeros then insertLoop host addr n (i + 1) usedZeros
    else
      let zero ← zeroBefore host addr i
      let compress := zero && !usedZeros
      let (rest, used) ← insertLoop host addr n (i + 1) (usedZeros || compress)
      some ((if compress then ascii ":" else []) ++ (if i ≠ 0 then ascii ":" else []) ++
        hex (byteswapOnLittleEndian16 host group).toNat ++ rest, used)

/-- What is between the brackets. -/
def insertGroups (host : ByteOrder) (addr : Vector (BitVec 8) 16) : Option (List UInt8) := do
  let (text, usedZeros) ← insertLoop host addr 8 0 false
  let last ← load16 host addr 7
  some (if !usedZeros && last = 0 then text ++ ascii "::" else text)

def insert (host : ByteOrder) (m : IPv6Address) : Option (List UInt8) := do
  let text ← insertGroups host m.addr
  some (ascii "[" ++ text ++ ascii "] :" ++ printed (byteswapOnLittleEndian16 host m.port).toNat)

/-- `IPv6Address()`. -/
def new : IPv6Address := ⟨afInet, 0, Vector.replicate 16 0⟩

/-- `IPv6Address(address, port)`. `address` is a pointer, and `memory` are the sixteen bytes from
    the place on where the pointer is. -/
def construct (host : ByteOrder) (memory : Vector (BitVec 8) 16)
    (_address : Vector (BitVec 8) 16) (port : BitVec 32) : IPv6Address :=
  ⟨afInet, (byteswapOnLittleEndian32 host port).setWidth 16,
    -- `memcpy(&m_addr.sin6_addr.s6_addr, &address, 16)`
    memory⟩

/-- `Create`. -/
def create (host : ByteOrder) (inetPton : List UInt8 → Option (Vector (BitVec 8) 16))
    (address : List UInt8) (port : BitVec 32) : Option IPv6Address :=
  let rt := { new with port := (byteswapOnLittleEndian32 host port).setWidth 16 }
  match inetPton address with
  | none => none
  | some addr => some { rt with addr := addr }

def getPort (host : ByteOrder) (m : IPv6Address) : BitVec 16 := byteswapOnLittleEndian16 host m.port

def getFamily (m : IPv6Address) : BitVec 16 := m.family

end IPv6Address

end YkServer
