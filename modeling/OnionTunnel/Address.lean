import OnionTunnel.Bytes

/-!
# Socket addresses

An address names a host by a 32-bit or a 128-bit number and a port on it. On the wire every host
takes sixteen bytes: a 32-bit host travels in the mapped range `::ffff:0:0/96` and is recognised
there when it is read back, so an address has one canonical form after a round trip.
-/

namespace OnionTunnel

/-- Where a handler or a peer can be reached. The flow label and the scope of a 128-bit host are
local matters that never travel. -/
inductive Address where
  | v4 (host : BitVec 32) (port : UInt16)
  | v6 (host : BitVec 128) (port : UInt16) (flow scope : UInt32)
  deriving DecidableEq, Repr

namespace Address

/-- The address of a dotted quadruple. -/
def quad (a b c d : UInt8) (port : UInt16) : Address :=
  .v4 (BitVec.ofNat 32 (Bytes.toNat [a, b, c, d])) port

/-- The port of an address. -/
def port : Address → UInt16
  | v4 _ p => p
  | v6 _ p _ _ => p

/-- The number of 32-bit hosts. -/
def shortHosts : Nat := 0x100000000

/-- The number that marks the mapped range in the upper 96 bits of a host. -/
def mappedRange : Nat := 0xffff

/-- The sixteen-byte number of a host on the wire. -/
def wireHost : Address → Nat
  | v4 h _ => mappedRange * shortHosts + h.toNat
  | v6 h _ _ _ => h.toNat

/-- The address of a host number and a port read off the wire. -/
def ofWire (host : Nat) (port : UInt16) : Address :=
  if host / shortHosts = mappedRange then .v4 (BitVec.ofNat 32 host) port
  else .v6 (BitVec.ofNat 128 host) port 0 0

/-- An address as it arrives: mapped hosts are 32-bit hosts, flow label and scope are gone. -/
def canonical (a : Address) : Address := ofWire a.wireHost a.port

/-- A 32-bit host arrives as it left. -/
theorem canonical_v4 (h : BitVec 32) (p : UInt16) : (v4 h p).canonical = v4 h p := by
  have hd : (mappedRange * shortHosts + h.toNat) / shortHosts = mappedRange := by
    have := h.isLt
    unfold mappedRange shortHosts
    omega
  simp only [canonical, wireHost, ofWire, port, hd, if_true]
  congr 1
  apply BitVec.eq_of_toNat_eq
  have := h.isLt
  simp only [BitVec.toNat_ofNat, mappedRange, shortHosts]
  omega

/-- Every wire host fits in sixteen bytes. -/
theorem wireHost_lt (a : Address) : a.wireHost < 0x100000000000000000000000000000000 := by
  cases a with
  | v4 h p =>
    have := h.isLt
    simp only [wireHost, mappedRange, shortHosts]
    omega
  | v6 h p f s =>
    have := h.isLt
    simp only [wireHost]
    omega

end Address

end OnionTunnel
