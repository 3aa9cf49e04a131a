import RustClash.Core.Str
import RustClash.Lib.FinMap
import RustClash.Lib.Recency
import RustClash.Net.Addr

/-!
# The fake-address pool

`FakeIpPool` answers the DNS queries of the tunnel with addresses of
`198.18.0.0/16` and remembers which host each one stands for.  A pool maps at
most `8192` hosts.  A lookup of one more host first evicts the host at the back
of the recency list, then walks the address range from the cursor on and takes
the first address that is neither mapped nor in use.  When the whole walk finds
none it answers `198.18.0.4` and maps nothing.
-/

namespace RustClash

structure FakeIpPool where
  hostToIp : FinMap String Ipv4Addr
  ipToHost : FinMap Ipv4Addr String
  lru : List String
  next : Nat

/-- `host_to_ip`: an address of the range by its last sixteen bits. -/
def hostToIp (bits : Nat) : Ipv4Addr := ⟨198, 18, UInt8.ofNat (bits / 256), UInt8.ofNat bits⟩

namespace FakeIpPool

def first : Nat := 4
def last : Nat := 0xFFFE
def max : Nat := 8192

def new : FakeIpPool where
  hostToIp := ∅
  ipToHost := ∅
  lru := []
  next := first

def isFakeIp : IpAddr → Bool
  | .v6 _ => false
  | .v4 v =>
      if v.a ≠ 198 ∨ v.b ≠ 18 then false
      else first ≤ v.c.toNat * 256 + v.d.toNat

def isFakeIpV4 (ip : Ipv4Addr) : Bool := isFakeIp (.v4 ip)

/-- The pool after a use of `host`. -/
def touch (pool : FakeIpPool) (host : String) : FakeIpPool :=
  { pool with lru := Recency.touch host pool.lru }

def evict (pool : FakeIpPool) : FakeIpPool :=
  match pool.lru.getLast? with
  | none => pool
  | some host =>
      let pool := { pool with lru := pool.lru.dropLast }
      match pool.hostToIp.lookup host with
      | none => pool
      | some ip => { pool with
          hostToIp := pool.hostToIp.erase host
          ipToHost := pool.ipToHost.erase ip }

/-- The cursor after a step: it wraps past the end of the range. -/
def advance (next : Nat) : Nat := if next + 1 > last then first else next + 1

/-- The walk of `lookup_avoiding`: at most `n` more addresses are tried, and the
one found is returned with the cursor. -/
def walk (ipToHost : FinMap Ipv4Addr String) (inUse : Ipv4Addr → Bool) :
    Nat → Nat → Option Ipv4Addr × Nat
  | 0, next => (none, next)
  | n + 1, next =>
      let ip := RustClash.hostToIp next
      let next := advance next
      if ip.d = 0 ∨ ip.d = 255 then walk ipToHost inUse n next
      else if ip ∈ ipToHost ∨ inUse ip then walk ipToHost inUse n next
      else (some ip, next)

def lookupAvoiding (idna : String → Option String) (pool : FakeIpPool) (host : String)
    (inUse : Ipv4Addr → Bool) : Ipv4Addr × FakeIpPool :=
  let host := domainToAscii idna host
  match pool.hostToIp.lookup host with
  | some ip => (ip, pool.touch host)
  | none =>
      let pool := if max ≤ FinMap.size pool.hostToIp then pool.evict else pool
      match walk pool.ipToHost inUse 65530 pool.next with
      | (some ip, next) => (ip,
          { hostToIp := pool.hostToIp.insert host ip
            ipToHost := pool.ipToHost.insert ip host
            lru := host :: pool.lru
            next })
      | (none, next) => (⟨198, 18, 0, 4⟩, { pool with next })

def lookup (idna : String → Option String) (pool : FakeIpPool) (host : String) :
    Ipv4Addr × FakeIpPool :=
  lookupAvoiding idna pool host fun _ => false

def lookback (pool : FakeIpPool) (ip : Ipv4Addr) : Option String × FakeIpPool :=
  match pool.ipToHost.lookup ip with
  | none => (none, pool)
  | some host => (some host, pool.touch host)

end FakeIpPool

end RustClash
