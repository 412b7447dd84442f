import OnionTunnel.Hostkey

/-!
# Encoded private keys

The numbers of a private key are encoded with three more that follow from them, under a version.
They stand in a text alone, or in a wrapping that names the algorithm and may carry further fields.
-/

namespace OnionTunnel.Hostkey

/-- The label of a text that holds the numbers alone. -/
def privateLabel : Bytes := Bytes.ofText "RSA PRIVATE KEY"

/-- The label of a text that names the algorithm, too. -/
def wrappedLabel : Bytes := Bytes.ofText "PRIVATE KEY"

/-- The version in front of the numbers of a key with two factors. -/
def twoPrimes : Nat := 0

/-- The numbers of a private key and those that follow from them. -/
def encodePrivate (k : Rsa.PrivateKey) (coefficient : Nat) : Bytes :=
  Der.sequence
    (([twoPrimes, k.modulus, k.exponent, k.secret, k.prime1, k.prime2, k.secret % (k.prime1 - 1),
      k.secret % (k.prime2 - 1), coefficient].map Der.integer).flatten)

/-- Reads a number of whole numbers that take up all bytes. -/
def readIntegers? : Nat → Bytes → Option (List Nat)
  | 0, [] => some []
  | 0, _ :: _ => none
  | count + 1, b => do
    let (n, rest) ← Der.readInteger b
    return n :: (← readIntegers? count rest)

/-- Reads the numbers of a private key; those that follow from others are not looked at. -/
def readPrivate? (der : Bytes) : Option Rsa.PrivateKey := do
  match ← readIntegers? 9 (← Der.readOnly Der.sequenceTag der) with
  | [version, modulus, exponent, secret, prime1, prime2, _, _, _] =>
    if version = twoPrimes then some ⟨⟨modulus, exponent⟩, secret, prime1, prime2⟩ else none
  | _ => none

/-- The tag of an attached public key, a string of bits. -/
def attachedTag : UInt8 := 0x81

/-- The bytes after the fields that are numbered lower than an attached public key. -/
def skipEarlierFields (b : Bytes) : Option Bytes :=
  match b with
  | [] => some []
  | t :: more =>
    if Der.isTag t then
      if Der.fieldNumber? t = some 0 then
        match _h : Der.next? (t :: more) with
        | some (_, _, rest) => skipEarlierFields rest
        | none => none
      else some (t :: more)
    else none
termination_by b.length
decreasing_by exact Der.length_lt_of_next? _h

/-- Whether bytes are a row of fields that each wrap one element. -/
def areFields (b : Bytes) : Bool :=
  match _h : Der.next? b with
  | some (t, content, rest) => Der.isWrapping t && Der.isElement content && areFields rest
  | none => b.isEmpty
termination_by b.length
decreasing_by exact Der.length_lt_of_next? _h

/-- Whether the fields after the numbers are in order: a public key is attached exactly if the
version is one, and all others wrap one element each. -/
def acceptsFields (version : Nat) (b : Bytes) : Bool :=
  match skipEarlierFields b with
  | none => false
  | some [] => version = 0
  | some (t :: more) =>
    if Der.fieldNumber? t = some 1 then
      t = attachedTag && version = 1 &&
        match Der.next? (t :: more) with
        | some (_, 0 :: _, rest) => areFields rest
        | _ => false
    else version = 0 && areFields (t :: more)

/-- Reads the numbers of a private key out of a wrapping that names the algorithm. -/
def readWrapped? (der : Bytes) : Option Rsa.PrivateKey := do
  let (version, rest) ← Der.readInteger (← Der.readOnly Der.sequenceTag der)
  let body ← Bytes.afterPrefix? algorithm rest
  let (numbers, fields) ← Der.read Der.octetStringTag body
  if acceptsFields version fields then readPrivate? numbers else none

/-- Reads the numbers of a private key in the form that the label names. -/
def readBlock? (block : Pem) : Option Rsa.PrivateKey :=
  if block.label = privateLabel then readPrivate? block.content
  else if block.label = wrappedLabel then readWrapped? block.content
  else none

end OnionTunnel.Hostkey
