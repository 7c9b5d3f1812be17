import Mathlib.Data.BitVec

/-!
# Addresses and destinations (`common/net.go`)

The addresses of connections, the filters that a connection passes, and the key under which it is
accounted.
-/

namespace Containers

/-- `netaddr.IP`, without zones. -/
inductive IP where
  | zero
  | v4 (a b c d : UInt8)
  | v6 (addr : BitVec 128)
  deriving DecidableEq

structure IPPrefix where
  ip : IP
  bits : Nat
  deriving DecidableEq

/-- What the agent calls of `inet.af/netaddr`. The zero `IP` has none of the properties. -/
class Netaddr where
  isLoopback : IP → Bool
  isPrivate : IP → Bool
  isLinkLocalUnicast : IP → Bool
  isUnspecified : IP → Bool
  contains : IPPrefix → IP → Bool
  isLoopback_zero : isLoopback .zero = false
  isPrivate_zero : isPrivate .zero = false
  contains_zero : ∀ p, contains p .zero = false

structure IPPort where
  ip : IP
  port : Nat
  deriving DecidableEq

section

variable [Netaddr]

open Netaddr (isLoopback isPrivate isLinkLocalUnicast)

/-- Also the shared address space 100.64.0.0/10. -/
def isIpPrivate (ip : IP) : Bool :=
  isPrivate ip ||
    match ip with
    | .v4 a b _ _ => a = 100 ∧ b &&& 0xc0 = 64
    | _ => false

def isIpExternal (ip : IP) : Bool := !isLoopback ip && !isIpPrivate ip

/-! ## Filters -/

/-- `PortFilter` and the whitelist of `ConnectionFilter`. -/
structure Filters where
  ephemeralPorts : Option (Nat × Nat)
  whitelist : List IPPrefix

def portShouldBeSkipped (f : Filters) (port : Nat) : Bool :=
  match f.ephemeralPorts with
  | none => false
  | some (lo, hi) => lo ≤ port ∧ port ≤ hi

def whitelistPrefix (f : Filters) (p : IPPrefix) : Filters :=
  if p ∈ f.whitelist then f else { f with whitelist := p :: f.whitelist }

def whitelistIP (f : Filters) (ip : IP) : Filters :=
  whitelistPrefix f ⟨ip, match ip with | .v6 _ => 128 | _ => 32⟩

/-- `connectionFilter.ShouldBeSkipped`, with the whitelist as it is afterwards. -/
def connectionShouldBeSkipped (f : Filters) (dst actualDst : IP) : Bool × Filters :=
  if isLinkLocalUnicast dst then (true, f)
  else if isIpPrivate dst || isLoopback dst then (false, f)
  else if f.whitelist.any (fun p => Netaddr.contains p dst) then (false, f)
  else if isIpPrivate actualDst || isLoopback actualDst then (false, whitelistIP f dst)
  else if f.whitelist.any (fun p => Netaddr.contains p actualDst) then (false, whitelistIP f dst)
  else (true, f)

/-! ## Destinations -/

structure HostPort where
  host : String
  ip : IP
  port : Nat
  deriving DecidableEq

def HostPort.ofIPPort (a : IPPort) : HostPort := ⟨"", a.ip, a.port⟩

def HostPort.withEmptyIP (host : String) (port : Nat) : HostPort := ⟨host, .zero, port⟩

structure DestinationKey where
  destination : HostPort
  actualDestination : HostPort
  deriving DecidableEq

structure Domain where
  fqdn : String
  specifyIP : Bool
  deriving DecidableEq

/-- A name with several addresses, all of them external, stands for its addresses. -/
def newDomain (fqdn : String) (ips : List IP) : Domain :=
  ⟨fqdn, if ips.length > 1 then ips.any (fun ip => !isIpExternal ip) else true⟩

def newDestinationKey (dst actualDst : IPPort) (domain : Option Domain) : DestinationKey :=
  match domain with
  | some d =>
    if isIpExternal actualDst.ip ∧ d.specifyIP = false then
      ⟨.withEmptyIP d.fqdn dst.port, ⟨"", .zero, 0⟩⟩
    else ⟨.ofIPPort dst, .ofIPPort actualDst⟩
  | none => ⟨.ofIPPort dst, .ofIPPort actualDst⟩

end

/-! ## Addresses of the examples -/

namespace IP

def bitLen : IP → Nat
  | .zero => 0
  | .v4 .. => 32
  | .v6 _ => 128

def toNat : IP → Nat
  | .zero => 0
  | .v4 a b c d => ((a.toNat * 256 + b.toNat) * 256 + c.toNat) * 256 + d.toNat
  | .v6 addr => addr.toNat

end IP

/-- The networks that the standards reserve. -/
instance netaddr : Netaddr where
  isLoopback
    | .zero => false
    | .v4 a _ _ _ => a = 127
    | .v6 addr => addr = 1
  isPrivate
    | .zero => false
    | .v4 a b _ _ => a = 10 ∨ (a = 172 ∧ b &&& 0xf0 = 16) ∨ (a = 192 ∧ b = 168)
    | .v6 addr => addr >>> 121 = 0xfc >>> 1
  isLinkLocalUnicast
    | .zero => false
    | .v4 a b _ _ => a = 169 ∧ b = 254
    | .v6 addr => addr >>> 118 = 0xfe80 >>> 6
  isUnspecified
    | .zero => false
    | .v4 a b c d => a = 0 ∧ b = 0 ∧ c = 0 ∧ d = 0
    | .v6 addr => addr = 0
  contains p ip :=
    p.ip.bitLen ≠ 0 ∧ p.ip.bitLen = ip.bitLen ∧ p.bits ≤ ip.bitLen ∧
      p.ip.toNat / 2 ^ (ip.bitLen - p.bits) = ip.toNat / 2 ^ (ip.bitLen - p.bits)
  isLoopback_zero := rfl
  isPrivate_zero := rfl
  contains_zero _ := decide_eq_false fun h => h.1 h.2.1

end Containers
