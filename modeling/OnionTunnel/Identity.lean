import OnionTunnel.Bytes.Hex
import OnionTunnel.Cipher.Sha256

/-!
# Identities

A peer is known by the hash of its hostkey. Its text is the hexadecimal text of the 32 bytes.
-/

namespace OnionTunnel

/-- The hash that names a peer. -/
structure Identity where
  digest : Digest
  deriving DecidableEq

/-- Why a text is no identity. -/
inductive IdentityFault where
  | hex (fault : HexFault)
  | length (actual : Nat)
  deriving DecidableEq, Repr

/-- The text of a fault in an identity's text. -/
def IdentityFault.message : IdentityFault → String
  | hex fault => s!"identity error: {fault.message}"
  | length n => s!"identity error: invalid identity length: expected 32 bytes, got {n}"

namespace Identity

/-- The identity of the owner of a hostkey. -/
def ofHostkey (hostkey : Bytes) : Identity := ⟨sha256 hostkey⟩

/-- The identity with the given 32 bytes. -/
def ofBytes (b : Bytes) : Except IdentityFault Identity :=
  if h : b.length = 32 then .ok ⟨⟨b, h⟩⟩ else .error (.length b.length)

/-- The bytes of an identity. -/
def bytes (i : Identity) : Bytes := i.digest.bytes

/-- The full text of an identity. -/
def text (i : Identity) : String := Hex.encode i.bytes

/-- The first eight letters of the text. -/
def short (i : Identity) : String := Hex.encode (i.bytes.take 4)

/-- The text shown among the fields of other things. -/
def debugText (i : Identity) : String := s!"Identity({i.short})"

/-- The identity that a text names. -/
def parse (s : String) : Except IdentityFault Identity := do
  ofBytes (← (Hex.decode s).mapError .hex)

/-- The order of identities by the numbers that they spell. -/
def le (i j : Identity) : Bool := Bytes.toNat i.bytes ≤ Bytes.toNat j.bytes

end Identity

end OnionTunnel
