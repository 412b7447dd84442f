import OnionTunnel.Der
import OnionTunnel.Rsa
import OnionTunnel.Text.Pem

/-!
# Hostkeys

A hostkey is the encoding of a public key: an algorithm identifier and a string of bits that holds
the modulus and the exponent. Reading accepts one spelling per key.
-/

namespace OnionTunnel.Hostkey

/-- The identifier of RSA keys, with its empty parameters. -/
def algorithm : Bytes :=
  [0x30, 0x0d, 0x06, 0x09, 0x2a, 0x86, 0x48, 0x86, 0xf7, 0x0d, 0x01, 0x01, 0x01, 0x05, 0x00]

/-- The modulus and the exponent of a key. -/
def encodeNumbers (k : Rsa.PublicKey) : Bytes :=
  Der.sequence (Der.integer k.modulus ++ Der.integer k.exponent)

/-- The hostkey of a public key. -/
def encode (k : Rsa.PublicKey) : Bytes :=
  Der.sequence (algorithm ++ Der.bitString (encodeNumbers k))

/-- Reads a modulus and an exponent. -/
def readNumbers? (b : Bytes) : Option Rsa.PublicKey := do
  let (modulus, rest) ← Der.readInteger (← Der.readOnly Der.sequenceTag b)
  match ← Der.readInteger rest with
  | (exponent, []) => some ⟨modulus, exponent⟩
  | _ => none

/-- Reads a hostkey without looking at its numbers. -/
def read? (der : Bytes) : Option Rsa.PublicKey := do
  let body ← Bytes.afterPrefix? algorithm (← Der.readOnly Der.sequenceTag der)
  match ← Der.readBitString body with
  | (numbers, []) => readNumbers? numbers
  | _ => none

/-- The public key that a peer presents as its hostkey. -/
def parse (der : Bytes) : Except CipherError Rsa.PublicKey :=
  match read? der with
  | none => .error (.invalidHostkey .notDer)
  | some k =>
    match k.presentedFault? with
    | none => .ok k
    | some fault => .error (.invalidHostkey (.unsound fault))

/-- The label of a public key's text. -/
def label : Bytes := Bytes.ofText "PUBLIC KEY"

/-- The text of a public key. -/
def toPem (k : Rsa.PublicKey) : Bytes :=
  Pem.encode ⟨label, encode k⟩

/-- The public key that a text holds. -/
def ofPem (text : Bytes) : Except CipherError Rsa.PublicKey :=
  match Pem.decode? text with
  | none => .error (.invalidHostkey .notPem)
  | some block =>
    if block.label = label then parse block.content
    else .error (.invalidHostkey (.wrongLabel ((Bytes.toText? block.label).getD "")))

end OnionTunnel.Hostkey
