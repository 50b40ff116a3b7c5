import YkServer.Core.Util

/-!
# Looking up a Host

The model of what `Address::Lookup` of `yk/address.cc` makes of its text before it calls
`getaddrinfo`: the node and, if there is one, the service.

Pointers into the text are positions in it, and a position that is its length is the one of
the NUL behind it. The node is a string and the service a pointer, which is reused by the
second search. `getaddrinfo` reads both up to the first NUL.

## Main definitions

* `memchr`: The first place of a byte.
* `Lookup.bracket`, `Lookup.colon`: The two searches.
* `Lookup.arguments`: What is passed to `getaddrinfo`.
-/

namespace YkServer

/-- `memchr`. -/
def memchr (c : UInt8) (s : List UInt8) : Option Nat := s.findIdx? (fun b => b == c)

namespace Lookup

/-- The search for an address in brackets: `node` and `service` after it. -/
def bracket (host : List UInt8) : List UInt8 × Option Nat :=
  if host.head? = some 91 then
    match memchr 93 (host.drop 1) with
    | none => ([], none)
    | some i =>
      -- `endipv6` is the position `1 + i`.
      ((host.drop 1).take i, if host[1 + i + 1]? = some 58 then some (1 + i + 2) else none)
  else ([], none)

/-- The search for a colon. A second colon leaves `service` where it is. -/
def colon (host : List UInt8) : List UInt8 × Option Nat :=
  match memchr 58 host with
  | none => ([], none)
  | some service =>
    match memchr 58 (host.drop (service + 1)) with
    | none => (host.take service, some (service + 1))
    | some _ => ([], some service)

/-- What is passed to `getaddrinfo`, as it reads it. -/
def arguments (host : List UInt8) : List UInt8 × Option (List UInt8) :=
  let found := if (bracket host).1.isEmpty then colon host else bracket host
  let node := if found.1.isEmpty then host else found.1
  (cStr node, found.2.map (fun service => cStr (host.drop service)))

end Lookup

end YkServer
