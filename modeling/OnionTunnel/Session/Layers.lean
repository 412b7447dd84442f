import OnionTunnel.Session.Registry

/-!
# Layers

A list of established sessions stands for as many layers of encryption. Encrypting applies them in
list order, so the last one is outermost; decrypting peels them in reverse. Layers written with the
keys of one end of each session are read with those of the other end.

All keys are looked up before anything is encrypted or decrypted. A look-up counts as activity of
its session, even if a later one in the list fails.
-/

namespace OnionTunnel.SessionRegistry

/-- The keys of one layer. -/
structure Layer where
  session : UInt32
  secret : Bytes
  macKey : Bytes

/-- The keys of a session's layer, with the tag key that `macKey?` picks. -/
def layer (now : Instant) (macKey? : Session → Option Bytes) (id : UInt32) : Action Layer := do
  let s ← lookup id
  unless s.isEstablished do throw (.notEstablished id)
  match macKey? s with
  | none => throw (.notEstablished id)
  | some macKey =>
    store id { s with lastActivity := now }
    return ⟨id, s.sharedKey, macKey⟩

/-- Puts on one layer per entry, the first one innermost. -/
def wrapAll : List Layer → Bytes → Action Bytes
  | [], data => return data
  | l :: rest, data => do
    match Sealed.wrap l.secret l.macKey (← draw Sealed.vectorLength) data with
    | .ok blob => wrapAll rest blob
    | .error e => throw (.cipher e)

/-- Peels one layer per entry, the first one outermost; `index` numbers the layers from there. -/
def peelAll (index : Nat) : List Layer → Bytes → Except SessionError Bytes
  | [], data => .ok data
  | l :: rest, data =>
    match Sealed.unwrap l.secret l.macKey data with
    | .ok text => peelAll (index + 1) rest text
    | .error .macMismatch => .error (.macMismatch index l.session)
    | .error e => .error (.cipher e)

/-- Applies one layer per session, in list order. -/
def layerEncrypt (now : Instant) (ids : List UInt32) (payload : Bytes) : Action Bytes := do
  wrapAll (← ids.mapM (layer now fun s => some s.localMac)) payload

/-- Peels one layer per session, in reverse list order. -/
def layerDecrypt (now : Instant) (ids : List UInt32) (payload : Bytes) : Action Bytes := do
  let layers ← ids.mapM (layer now (·.remoteMac?))
  match peelAll 0 layers.reverse payload with
  | .ok text => return text
  | .error e => throw e

end OnionTunnel.SessionRegistry
