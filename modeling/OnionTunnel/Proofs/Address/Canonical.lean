import Mathlib.Algebra.Group.Nat.Defs
import OnionTunnel.Address

/-!
# Addresses on the wire

The sixteen bytes of a host number and the port hold all of an address that travels. What is read
back is the canonical form, which travels unchanged from then on.
-/

namespace OnionTunnel.Address

/-- A 128-bit host in the mapped range arrives as a 32-bit host; any other one loses its flow
label and its scope. -/
theorem canonical_v6 (h : BitVec 128) (p : UInt16) (flow scope : UInt32) :
    (v6 h p flow scope).canonical =
      if h.toNat / 0x100000000 = 0xffff then v4 (h.setWidth 32) p else v6 h p 0 0 := by
  have hback : BitVec.ofNat 128 h.toNat = h := by
    apply BitVec.eq_of_toNat_eq
    simp
  have hlow : BitVec.ofNat 32 h.toNat = h.setWidth 32 := by
    apply BitVec.eq_of_toNat_eq
    simp
  simp only [canonical, wireHost, ofWire, port, shortHosts, mappedRange, hback, hlow]

@[simp] theorem port_ofWire (host : Nat) (p : UInt16) : (ofWire host p).port = p := by
  unfold ofWire
  split <;> rfl

/-- A host number is read back from the address that it makes. -/
theorem wireHost_ofWire {host : Nat} (h : host < 256 ^ 16) (p : UInt16) :
    (ofWire host p).wireHost = host := by
  unfold ofWire
  split
  · next hm =>
    simp only [wireHost, BitVec.toNat_ofNat, mappedRange, shortHosts] at hm ⊢
    omega
  · simp only [wireHost, BitVec.toNat_ofNat]
    exact Nat.mod_eq_of_lt (by simpa using h)

/-- An address that was read is canonical. -/
theorem canonical_ofWire {host : Nat} (h : host < 256 ^ 16) (p : UInt16) :
    (ofWire host p).canonical = ofWire host p := by
  rw [canonical, wireHost_ofWire h, port_ofWire]

@[simp] theorem port_canonical (a : Address) : a.canonical.port = a.port := port_ofWire _ _

@[simp] theorem canonical_canonical (a : Address) : a.canonical.canonical = a.canonical :=
  canonical_ofWire (by simpa using a.wireHost_lt) _

end OnionTunnel.Address
