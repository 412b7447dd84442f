import OnionTunnel.Cipher.Error
import OnionTunnel.IdPool
import OnionTunnel.Session.Handshake

/-!
# Errors of sessions
-/

namespace OnionTunnel

/-- Why a sealed handshake was not opened. -/
inductive OpeningFault where
  | cipher (error : CipherError)
  | keyLength (length : Nat)
  | stated (text : String)
  deriving DecidableEq, Repr

/-- The text of a handshake that was not opened. -/
def OpeningFault.message : OpeningFault → String
  | cipher e => e.message
  | keyLength n => s!"unsupported shared key length {n}"
  | stated text => text

/-- Why a session was not started, accepted, confirmed or used. -/
inductive SessionError where
  | invalidHostkey (fault : KeyFault)
  | decryptionFailed (fault : OpeningFault)
  | notFound (session : UInt32)
  | invalidState (session : UInt32) (fault : Session.HandshakeFault)
  | notEstablished (session : UInt32)
  | macMismatch (layer : Nat) (session : UInt32)
  | exhausted (how : IdExhausted)
  | cipher (error : CipherError)
  | malformed (error : FrameError)
  | worker (text : String)
  deriving DecidableEq, Repr

/-- The text of an error. -/
def SessionError.message : SessionError → String
  | invalidHostkey f => s!"invalid hostkey: {f.message}"
  | decryptionFailed f => s!"handshake decryption failed: {f.message}"
  | notFound s => s!"session {s.toNat} not found"
  | invalidState s f => s!"session {s.toNat}: {f.message}"
  | notEstablished s => s!"session {s.toNat} is not established"
  | macMismatch layer s => s!"mac mismatch at layer {layer} (session {s.toNat})"
  | exhausted how => how.message
  | cipher e => s!"crypto failure: {e.message}"
  | malformed e => s!"malformed message: {e.message}"
  | worker text => s!"handshake worker failed: {text}"

/-- A hostkey that does not parse is an invalid hostkey, and nothing else is said of it. -/
def SessionError.ofHostkeyError : CipherError → SessionError
  | .invalidHostkey f => .invalidHostkey f
  | other => .invalidHostkey (.stated other.message)

/-- A block of the wrong size is the sender's fault; any other block did not open. -/
def SessionError.ofBlockError : CipherError → SessionError
  | .blockSize expected actual => .cipher (.blockSize expected actual)
  | other => .decryptionFailed (.cipher other)

end OnionTunnel
