import OnionTunnel.Address.Text
import OnionTunnel.Duration
import OnionTunnel.Message.Kind

/-!
# Errors of frames and connections

A frame fails because of what it holds; a connection fails because of how it was reached. Both
are one type, since an exchange can end either way.
-/

namespace OnionTunnel

/-- The largest frame, header included. -/
def maxFrame : Nat := 65535

/-- The length of a frame's header. -/
def headerLength : Nat := 4

/-- The largest payload of a frame. -/
def maxPayload : Nat := maxFrame - headerLength

/-- What the operating system reports about a file or a connection. -/
inductive SystemFault where
  | networkUnreachable
  | connectionRefused
  | notFound
  | notDirectory
  | isDirectory
  | nameTooLong
  | notText
  | stated (text : String)
  deriving DecidableEq, Repr

/-- The text of a report of the operating system. -/
def SystemFault.message : SystemFault → String
  | networkUnreachable => "Network is unreachable (os error 101)"
  | connectionRefused => "Connection refused (os error 111)"
  | notFound => "No such file or directory (os error 2)"
  | notDirectory => "Not a directory (os error 20)"
  | isDirectory => "Is a directory (os error 21)"
  | nameTooLong => "File name too long (os error 36)"
  | notText => "stream did not contain valid UTF-8"
  | stated text => text

/-- What is wrong with the form of a frame. -/
inductive Malformation where
  | afterFrame (extra : Nat)
  | afterPayload (extra : Nat)
  | tooManyLayers (layers : Nat)
  | unequalBlocks (key mac : Nat)
  | oddBlocks (length : Nat)
  | embedded (expected found : Kind)
  | stated (text : String)
  deriving DecidableEq, Repr

/-- The text of a malformation. -/
def Malformation.message : Malformation → String
  | afterFrame n => s!"{n} trailing bytes after frame"
  | afterPayload n => s!"{n} unexpected trailing bytes"
  | tooManyLayers n => s!"{n} layers exceed 255"
  | unequalBlocks a b => s!"handshake blocks differ in size: {a} and {b}"
  | oddBlocks n => s!"handshake-1 payload of {n} bytes is not two equal blocks"
  | embedded expected found => s!"expected embedded {expected.name}, found {found.text}"
  | stated text => text

/-- Why a frame was not read, not written or not exchanged. -/
inductive FrameError where
  | tooShort (length minimum : Nat)
  | truncated (expected actual : Nat)
  | invalidSize (size : UInt16)
  | unknownKind (code : UInt16)
  | tooLarge (size : Nat)
  | malformed (how : Malformation)
  | closed
  | refused (address : Address)
  | timeout (after : Duration)
  | system (fault : SystemFault)
  deriving DecidableEq, Repr

namespace FrameError

/-- The text of an error. -/
def message : FrameError → String
  | tooShort n m => s!"payload too short: {n} bytes, minimum {m}"
  | truncated e a => s!"message truncated: expected {e} bytes, got {a}"
  | invalidSize n => s!"invalid message size field: {n.toNat}"
  | unknownKind n => s!"unknown message type: {n.toNat}"
  | tooLarge n => s!"message too large: {n} bytes, maximum {maxFrame}"
  | malformed how => s!"malformed message: {how.message}"
  | closed => "connection closed by peer"
  | refused a => s!"connection refused: {a.text}"
  | timeout d => s!"timed out after {d.text}"
  | system f => s!"io error: {f.message}"

/-- Whether the connection failed rather than the frame. -/
def isConnection : FrameError → Bool
  | closed | refused _ | timeout _ | system _ => true
  | _ => false

end FrameError

end OnionTunnel
