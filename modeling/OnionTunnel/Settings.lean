import OnionTunnel.Address.Text
import OnionTunnel.Bytes
import OnionTunnel.Toml.Document
import OnionTunnel.Tunnel.Rules

/-!
# Settings of a node

Every setting has a default, unknown keys are ignored, and an empty file gives a node that talks to
itself. A section may also be written as a list of its settings in order. Some values are refused
after all of the file has been read.
-/

namespace OnionTunnel

/-- Settings of the module that keeps sessions. -/
structure AuthSettings where
  apiAddress : Address
  idAttempts : Nat
  idleTimeout : Option Duration
  deriving DecidableEq, Repr

/-- Settings of the module that keeps tunnels. -/
structure OnionSettings where
  apiAddress : Address
  p2pAddress : Address
  hopCount : Nat
  rules : HopRules
  deriving DecidableEq, Repr

/-- Settings of the module that samples peers. -/
structure SamplerSettings where
  apiAddress : Option Address
  deriving DecidableEq, Repr

/-- Settings of a node. -/
structure Settings where
  hostkey : String
  auth : AuthSettings
  onion : OnionSettings
  sampler : SamplerSettings
  deriving DecidableEq, Repr

/-- Why settings are refused. -/
inductive SettingsError where
  | unreadable
  | malformed
  | noIdAttempts
  | noHopTimeout
  | noIdleTimeout
  deriving DecidableEq, Repr

/-- The text of a refusal. -/
def SettingsError.message : SettingsError → String
  | unreadable => "configuration error: failed to read the file"
  | malformed => "configuration error: malformed settings"
  | noIdAttempts => "configuration error: max_id_attempts must be at least 1"
  | noHopTimeout => "configuration error: onion.hop_timeout_ms must be positive"
  | noIdleTimeout => "configuration error: auth.session_idle_timeout_secs must be positive when set"

namespace Settings

open Toml

/-- The usual number of draws for an identifier. -/
def usualIdAttempts : Nat := 100

/-- The settings of an empty file. -/
def standard : Settings where
  hostkey := "hostkey.pem"
  auth := ⟨Address.quad 127 0 0 1 7005, usualIdAttempts, none⟩
  onion := ⟨Address.quad 127 0 0 1 7004, Address.quad 127 0 0 1 7014, 2,
    ⟨.direct, Duration.ofMilliseconds 5000, usualIdAttempts⟩⟩
  sampler := ⟨none⟩

/-! ### Reading values -/

/-- A text. -/
def text? : Value → Option String
  | .string s => some s
  | _ => none

/-- A number that is not negative. -/
def number? : Value → Option Nat
  | .integer n => if 0 ≤ n then some n.toNat else none
  | _ => none

/-- An address in its text form. -/
def address? (v : Value) : Option Address := do
  Address.parse? (← text? v)

/-- Whether a value is a table or a list without entries. -/
def isEmpty : Value → Bool
  | .table [] | .array [] => true
  | _ => false

/-- A mode by its name; the name may also be the only key of a table, over an empty value. -/
def mode? : Value → Option TunnelMode
  | .string s => TunnelMode.ofName? s
  | .table [(key, v)] => if isEmpty v then TunnelMode.ofName? key else none
  | _ => none

/-- What a section gives for each of its names: a table by key, a list by place, and a date
nothing. -/
def sectionOf? (names : List String) : Value → Option (String → Option Value)
  | .table entries => some fun name => entries.lookup name
  | .array items => some fun name => (names.zip items).lookup name
  | .dateTime => some fun _ => none
  | _ => none

/-- The section under a key of the file; without the key it gives nothing. -/
def section? (root : List (String × Value)) (key : String) (names : List String) :
    Option (String → Option Value) :=
  match root.lookup key with
  | none => some fun _ => none
  | some v => sectionOf? names v

/-- A setting, or its default if it is not given. -/
def get {α : Type} (given : Option Value) (read : Value → Option α) (default : α) : Option α :=
  match given with
  | none => some default
  | some v => read v

/-- The settings that a table gives. -/
def ofTable? (root : List (String × Value)) : Option Settings := do
  let d := standard
  let hostkey ← get (root.lookup "hostkey") text? d.hostkey
  let auth ← section? root "auth" ["api_address", "max_id_attempts", "session_idle_timeout_secs"]
  let authAddress ← get (auth "api_address") address? d.auth.apiAddress
  let authAttempts ← get (auth "max_id_attempts") number? d.auth.idAttempts
  let idle ← get (auth "session_idle_timeout_secs")
    (fun v => (number? v).map fun n => some (Duration.ofSeconds n)) d.auth.idleTimeout
  let onion ← section? root "onion"
    ["api_address", "p2p_address", "hop_count", "mode", "hop_timeout_ms", "max_id_attempts"]
  let onionAddress ← get (onion "api_address") address? d.onion.apiAddress
  let p2pAddress ← get (onion "p2p_address") address? d.onion.p2pAddress
  let hopCount ← get (onion "hop_count") number? d.onion.hopCount
  let mode ← get (onion "mode") mode? d.onion.rules.mode
  let hopTimeout ← get (onion "hop_timeout_ms")
    (fun v => (number? v).map Duration.ofMilliseconds) d.onion.rules.timeout
  let onionAttempts ← get (onion "max_id_attempts") number? d.onion.rules.idAttempts
  let sampler ← section? root "rps" ["api_address"]
  let samplerAddress ← get (sampler "api_address")
    (fun v => (address? v).map some) d.sampler.apiAddress
  return {
    hostkey
    auth := ⟨authAddress, authAttempts, idle⟩
    onion := ⟨onionAddress, p2pAddress, hopCount, ⟨mode, hopTimeout, onionAttempts⟩⟩
    sampler := ⟨samplerAddress⟩ }

/-- Settings with which a node could not run are refused. -/
def validate (s : Settings) : Except SettingsError Settings :=
  if s.auth.idAttempts = 0 ∨ s.onion.rules.idAttempts = 0 then .error .noIdAttempts
  else if s.onion.rules.timeout.nanoseconds = 0 then .error .noHopTimeout
  else if s.auth.idleTimeout = some ⟨0⟩ then .error .noIdleTimeout
  else .ok s

/-- The settings that a text gives. -/
def parse (text : String) : Except SettingsError Settings :=
  match Toml.parse? text >>= ofTable? with
  | none => .error .malformed
  | some s => validate s

/-- The settings that the bytes of a file give. -/
def ofFile (content : Bytes) : Except SettingsError Settings :=
  match Bytes.toText? content with
  | none => .error .unreadable
  | some text => parse text

end Settings

end OnionTunnel
