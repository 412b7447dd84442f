import OnionTunnel.IdPool
import OnionTunnel.Message.Basic
import OnionTunnel.Message.Error

/-!
# Errors of tunnels and links
-/

namespace OnionTunnel

/-- Why no peer was sampled. -/
inductive SamplingFault where
  | exchange (error : FrameError)
  | stated (text : String)
  deriving DecidableEq, Repr

/-- The text of a sampling that failed. -/
def SamplingFault.message : SamplingFault → String
  | exchange e => e.message
  | stated text => text

/-- Why a tunnel was not built or used, or a cell not handled. -/
inductive TunnelError where
  | buildFailed (hop : Nat) (cause : TunnelError)
  | tunnelNotFound (tunnel : UInt32)
  | linkNotFound (link : UInt32)
  | alreadyExtended (link : UInt32)
  | emptyHopChain
  | exhausted (how : IdExhausted)
  | connection (error : FrameError)
  | declined (request : Kind)
  | remote (request : UInt16) (tunnel : UInt32)
  | unexpectedReply (request reply : Kind)
  | unexpectedCommand (command : Kind)
  | requestMismatch (expected actual : UInt16)
  | sampling (fault : SamplingFault)
  | delivery (text : String)
  deriving DecidableEq, Repr

namespace TunnelError

/-- The text of an error. -/
def message : TunnelError → String
  | buildFailed hop cause => s!"tunnel build failed at hop {hop}: {cause.message}"
  | tunnelNotFound t => s!"tunnel {t.toNat} not found"
  | linkNotFound l => s!"link {l.toNat} not found"
  | alreadyExtended l => s!"link {l.toNat} is already extended"
  | emptyHopChain => "a tunnel needs at least one hop"
  | exhausted how => how.message
  | connection e => s!"connection failed: {e.message}"
  | declined request => s!"{request.text} declined by the Auth module"
  | remote request tunnel => s!"peer reported failure of {request.toNat} on {tunnel.toNat}"
  | unexpectedReply request reply => s!"unexpected reply to {request.text}: {reply.text}"
  | unexpectedCommand command => s!"unexpected {command.text} inside a cell"
  | requestMismatch expected actual =>
    s!"reply carries request id {actual.toNat}, expected {expected.toNat}"
  | sampling fault => s!"peer sampling failed: {fault.message}"
  | delivery text => s!"delivery failed: {text}"

/-- The error of a reply that does not fit a request. A reported failure and a refusal say so;
any other message is unexpected. -/
def ofReply (request : Kind) : Message → TunnelError
  | .tunnelError failed tunnel => .remote failed tunnel
  | .sessionDeclined => .declined request
  | other => .unexpectedReply request other.kind

end TunnelError

end OnionTunnel
