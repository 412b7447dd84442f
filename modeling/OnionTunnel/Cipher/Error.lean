import OnionTunnel.Message.Error

/-!
# Errors of keys and ciphers
-/

namespace OnionTunnel

/-- Why an operation with an RSA key failed. -/
inductive RsaFault where
  | decryption
  | messageTooLong
  | internal
  | tooFewPrimes
  | invalidPrime
  | invalidModulus
  | invalidExponent
  | modulusTooLarge
  | exponentTooSmall
  | exponentTooLarge
  | stated (text : String)
  deriving DecidableEq, Repr

/-- The text of a failure of an RSA operation. -/
def RsaFault.message : RsaFault → String
  | decryption => "decryption error"
  | messageTooLong => "message too long"
  | internal => "internal error"
  | tooFewPrimes => "too few primes of given length to generate an RSA key"
  | invalidPrime => "invalid prime value"
  | invalidModulus => "invalid modulus"
  | invalidExponent => "invalid exponent"
  | modulusTooLarge => "modulus too large"
  | exponentTooSmall => "public exponent too small"
  | exponentTooLarge => "public exponent too large"
  | stated text => text

/-- Why bytes or a text are not a key. -/
inductive KeyFault where
  | notPem
  | wrongLabel (label : String)
  | notDer
  | wrongAlgorithm
  | unsound (fault : RsaFault)
  | noCoefficient
  | stated (text : String)
  deriving DecidableEq, Repr

/-- The text of a fault of a key. -/
def KeyFault.message : KeyFault → String
  | notPem => "PEM error: malformed text"
  | wrongLabel label => s!"PEM error: unexpected label {label}"
  | notDer => "ASN.1 error: malformed encoding"
  | wrongAlgorithm => "unsupported algorithm"
  | unsound _ => "cryptographic key data malformed"
  | noCoefficient => "cryptographic error"
  | stated text => text

/-- Why a key was not accepted, or a text not sealed or opened. -/
inductive CipherError where
  | invalidHostkey (fault : KeyFault)
  | invalidPrivateKey (fault : KeyFault)
  | keyGeneration (fault : RsaFault)
  | rsa (fault : RsaFault)
  | blockSize (expected actual : Nat)
  | keyLength (length : Nat)
  | tooShort (length minimum : Nat)
  | macMismatch
  | random (text : String)
  | system (fault : SystemFault)
  deriving DecidableEq, Repr

/-- The text of an error. -/
def CipherError.message : CipherError → String
  | invalidHostkey f => s!"invalid hostkey: {f.message}"
  | invalidPrivateKey f => s!"invalid private key: {f.message}"
  | keyGeneration f => s!"key generation failed: {f.message}"
  | rsa f => s!"rsa operation failed: {f.message}"
  | blockSize e a => s!"ciphertext block is {a} bytes, expected {e}"
  | keyLength n => s!"unsupported symmetric key length: {n} bytes"
  | tooShort n m => s!"ciphertext too short: {n} bytes, minimum {m}"
  | macMismatch => "mac mismatch"
  | random text => s!"random number generator failed: {text}"
  | system f => s!"io error: {f.message}"

end OnionTunnel
