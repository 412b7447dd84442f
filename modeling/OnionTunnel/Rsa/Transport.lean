import OnionTunnel.Rsa
import OnionTunnel.Rsa.Modular

/-!
# Key transport

A message is padded to the size of the modulus with at least eight non-zero bytes and raised to
the public exponent. The owner of the private key takes the root modulo each factor and joins the
two, checks the result against the block, and strips the padding.
-/

namespace OnionTunnel.Rsa

/-- What padding adds to a message at least. -/
def minPadding : Nat := 11

/-- A message behind its padding: zero, two, filler bytes that are not zero, zero. -/
def pad (filler message : Bytes) : Bytes :=
  0 :: 2 :: (filler ++ 0 :: message)

/-- The message behind the padding of a block; the filler has at least eight bytes. -/
def unpad : Bytes → Option Bytes
  | 0 :: 2 :: body =>
    match body.dropWhile (· ≠ 0) with
    | _ :: message => if 8 ≤ (body.takeWhile (· ≠ 0)).length then some message else none
    | [] => none
  | _ => none

namespace PublicKey

/-- The filler bytes that a message needs. -/
def fillerLength (k : PublicKey) (message : Bytes) : Nat :=
  k.size - 3 - message.length

/-- The block that seals a message, padded with the filler. -/
def encrypt (k : PublicKey) (filler message : Bytes) : Except CipherError Bytes :=
  if k.size < message.length + minPadding then .error (.rsa .messageTooLong)
  else
    .ok (Bytes.ofNat k.size
      (powMod (Bytes.toNat (pad filler message)) k.exponent k.modulus))

end PublicKey

namespace PrivateKey

/-- The root of a number: joined from the roots modulo the factors if these have none in common,
and else taken modulo the modulus. -/
def root (k : PrivateKey) (c : Nat) : Nat :=
  match inverse? k.prime2 k.prime1 with
  | none => powMod c k.secret k.modulus
  | some coefficient =>
    let m1 := powMod c (k.secret % (k.prime1 - 1)) k.prime1
    let m2 := powMod c (k.secret % (k.prime2 - 1)) k.prime2
    m2 + k.prime2 * (((m1 : Int) - m2) * coefficient % k.prime1).toNat

/-- The message sealed in a block. -/
def decrypt (k : PrivateKey) (block : Bytes) : Except CipherError Bytes :=
  if block.length ≠ k.size then .error (.blockSize k.size block.length)
  else
    let c := Bytes.toNat block
    if k.modulus ≤ c then .error (.rsa .decryption)
    else
      let m := k.root c
      if powMod m k.exponent k.modulus ≠ c then .error (.rsa .internal)
      else
        match unpad (Bytes.ofNat k.size m) with
        | some message => .ok message
        | none => .error (.rsa .decryption)

end PrivateKey

end OnionTunnel.Rsa
