import OnionTunnel.Bytes
import OnionTunnel.Cipher.Error

/-!
# RSA keys

A public key is a modulus and an exponent. A private key adds the secret exponent and the two
factors of the modulus. `PublicKey.fault?` and `PrivateKey.fault?` say what is wrong with the
numbers of a key; a key is used only if nothing is.
-/

namespace OnionTunnel.Rsa

/-- The numbers of a public key. -/
structure PublicKey where
  modulus : Nat
  exponent : Nat
  deriving DecidableEq, Repr

/-- The numbers of a private key. -/
structure PrivateKey extends PublicKey where
  secret : Nat
  prime1 : Nat
  prime2 : Nat
  deriving DecidableEq, Repr

/-- The longest modulus of a key that others present, in bits. -/
def maxModulusBits : Nat := 4096

/-- The largest exponent of a key. -/
def maxExponent : Nat := 0x1ffffffff

namespace PublicKey

/-- The bytes of the modulus, and of every block sealed for the key. -/
def size (k : PublicKey) : Nat := Bytes.byteLength k.modulus

/-- What is wrong with the numbers of a public key, the length of its modulus apart. -/
def fault? (k : PublicKey) : Option RsaFault :=
  if k.modulus ≤ k.exponent ∨ k.modulus % 2 = 0 then some .invalidModulus
  else if k.exponent % 2 = 0 then some .invalidExponent
  else if k.exponent < 2 then some .exponentTooSmall
  else if maxExponent < k.exponent then some .exponentTooLarge
  else none

/-- What is wrong with a public key that another presents: its modulus is bounded, too. -/
def presentedFault? (k : PublicKey) : Option RsaFault :=
  if maxModulusBits < Bytes.bitLength k.modulus then some .modulusTooLarge else k.fault?

end PublicKey

/-- What is wrong with the numbers of a private key. -/
def PrivateKey.fault? (k : PrivateKey) : Option RsaFault :=
  let product := k.exponent * k.secret
  k.toPublicKey.fault?.or
    (if k.prime1 ≤ 1 ∨ k.prime2 ≤ 1 then some .invalidPrime
    else if k.prime1 * k.prime2 ≠ k.modulus then some .invalidModulus
    else if product % (k.prime1 - 1) ≠ 1 ∨ product % (k.prime2 - 1) ≠ 1 then some .invalidExponent
    else none)

end OnionTunnel.Rsa
