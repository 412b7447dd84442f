import OnionTunnel.Hostkey.Private
import OnionTunnel.Identity
import OnionTunnel.Rsa.Generate
import OnionTunnel.Rsa.Transport

/-!
# Keypairs

A node owns a private key; its hostkey, its identity and the size of every block sealed for it
follow from the numbers. The text of a private key holds the numbers and three more that can be
recomputed from them; reading ignores these, writing computes them.
-/

namespace OnionTunnel

/-- A private key with nothing wrong in its numbers. -/
structure Keypair where
  key : Rsa.PrivateKey
  sound : key.fault? = none
  deriving DecidableEq

namespace Keypair

/-- The keypair of a private key. -/
def ofKey (key : Rsa.PrivateKey) : Except RsaFault Keypair :=
  match h : key.fault? with
  | none => .ok ⟨key, h⟩
  | some fault => .error fault

/-- A new keypair whose modulus has a length. -/
def generate (bits : Nat) (tape : Tape) : Except CipherError Keypair × Tape :=
  let (key, tape) := Rsa.generate bits tape
  ((key.bind ofKey).mapError .keyGeneration, tape)

/-- The encoded public half. -/
def hostkey (k : Keypair) : Bytes := Hostkey.encode k.key.toPublicKey

/-- The identity of the owner. -/
def identity (k : Keypair) : Identity := Identity.ofHostkey k.hostkey

/-- The size of every block sealed for the owner. -/
def blockSize (k : Keypair) : Nat := k.key.size

/-- The message in a block sealed for the owner. -/
def decrypt (k : Keypair) (block : Bytes) : Except CipherError Bytes := k.key.decrypt block

/-- A text that shows nothing of the private half. -/
def debugText (k : Keypair) : String :=
  "HostKeypair \x7b identity: " ++ k.identity.debugText ++ ", bits: " ++ toString (k.blockSize * 8) ++
    ", .. \x7d"

/-! ### Texts -/

/-- The text of a private key. -/
def toPem (k : Keypair) : Except CipherError Bytes :=
  match Rsa.inverse? k.key.prime2 k.key.prime1 with
  | none => .error (.invalidPrivateKey .noCoefficient)
  | some coefficient => .ok (Pem.encode ⟨Hostkey.privateLabel, Hostkey.encodePrivate k.key coefficient⟩)

/-- The text of the public half. -/
def publicPem (k : Keypair) : Bytes := Hostkey.toPem k.key.toPublicKey

/-- The keypair that a text holds. -/
def ofPem (text : Bytes) : Except CipherError Keypair :=
  match Pem.decode? text with
  | none => .error (.invalidPrivateKey .notPem)
  | some block =>
    match Hostkey.readBlock? block with
    | none => .error (.invalidPrivateKey .notDer)
    | some key => (ofKey key).mapError fun fault => .invalidPrivateKey (.unsound fault)

end Keypair

end OnionTunnel
