import SyncBack.Net.IpAddress

/-!
# What addresses are for

The networks that the registries of special addresses list, and what an address is by them:
`isMulticast`, `isReserved`, `isUnspecified`, `isPrivate` and `isGlobal` of both versions.
-/

namespace Net

/-- `address in network`: the first `len` bits are those of the network's address. -/
def inNetwork {w : ℕ} (ip network : BitVec w) (len : ℕ) : Bool :=
  ip.toNat / 2 ^ (w - len) = network.toNat / 2 ^ (w - len)

namespace IPv4Address

/-- The network `a.b.c.d/len` has the address. -/
def within (x : IPv4Address) (a b c d len : ℕ) : Bool :=
  inNetwork x.ip (BitVec.ofNat 32 (((a * 256 + b) * 256 + c) * 256 + d)) len

def isPrivate (x : IPv4Address) : Bool :=
  (x.within 0 0 0 0 8 || x.within 10 0 0 0 8 || x.within 127 0 0 0 8 || x.within 169 254 0 0 16 ||
    x.within 172 16 0 0 12 || x.within 192 0 0 0 24 || x.within 192 0 0 170 31 ||
    x.within 192 0 2 0 24 || x.within 192 168 0 0 16 || x.within 198 18 0 0 15 ||
    x.within 198 51 100 0 24 || x.within 203 0 113 0 24 || x.within 240 0 0 0 4 ||
    x.within 255 255 255 255 32) &&
  !(x.within 192 0 0 9 32 || x.within 192 0 0 10 32)

def isGlobal (x : IPv4Address) : Bool := !x.within 100 64 0 0 10 && !x.isPrivate

def isMulticast (x : IPv4Address) : Bool := x.within 224 0 0 0 4

def isReserved (x : IPv4Address) : Bool := x.within 240 0 0 0 4

def isUnspecified (x : IPv4Address) : Bool := x.ip = 0

end IPv4Address

namespace IPv6Address

/-- The network `groups::/len` has the address. -/
def within (x : IPv6Address) (groups : List ℕ) (len : ℕ) : Bool :=
  inNetwork x.ip
    (BitVec.ofNat 128 ((groups.foldl (fun ip n => ip * 65536 + n) 0) * 65536 ^ (8 - groups.length)))
    len

/-- The address of version 4 that is wrapped as `::ffff:a.b.c.d`. -/
def ipv4Mapped (x : IPv6Address) : Option IPv4Address :=
  if x.ip.toNat / 2 ^ 32 ≠ 0xffff then none else some ⟨BitVec.ofNat 32 x.ip.toNat⟩

def isPrivate (x : IPv6Address) : Bool :=
  match x.ipv4Mapped with
  | some mapped => mapped.isPrivate
  | none =>
      (x.within [0, 0, 0, 0, 0, 0, 0, 1] 128 || x.within [] 128 ||
        x.within [0, 0, 0, 0, 0, 0xffff] 96 || x.within [0x64, 0xff9b, 1] 48 ||
        x.within [0x100] 64 || x.within [0x2001] 23 || x.within [0x2001, 0xdb8] 32 ||
        x.within [0x2002] 16 || x.within [0x3fff] 20 || x.within [0xfc00] 7 ||
        x.within [0xfe80] 10) &&
      !(x.within [0x2001, 1, 0, 0, 0, 0, 0, 1] 128 || x.within [0x2001, 1, 0, 0, 0, 0, 0, 2] 128 ||
        x.within [0x2001, 3] 32 || x.within [0x2001, 4, 0x112] 48 || x.within [0x2001, 0x20] 28 ||
        x.within [0x2001, 0x30] 28)

def isGlobal (x : IPv6Address) : Bool := !x.isPrivate

def isMulticast (x : IPv6Address) : Bool := x.within [0xff00] 8

def isReserved (x : IPv6Address) : Bool :=
  x.within [] 8 || x.within [0x100] 8 || x.within [0x200] 7 || x.within [0x400] 6 ||
  x.within [0x800] 5 || x.within [0x1000] 4 || x.within [0x4000] 3 || x.within [0x6000] 3 ||
  x.within [0x8000] 3 || x.within [0xa000] 3 || x.within [0xc000] 3 || x.within [0xe000] 4 ||
  x.within [0xf000] 5 || x.within [0xf800] 6 || x.within [0xfe00] 9

def isUnspecified (x : IPv6Address) : Bool := x.ip = 0

end IPv6Address

end Net
