import OnionTunnel.CommandLine.Reading

/-!
# Commands

The tool makes keys, shows identities, and asks a running node for tunnels.
-/

namespace OnionTunnel.CommandLine

/-- What the tool is asked to do. -/
inductive Command where
  /-- Makes a keypair and saves it to two files. -/
  | keygen (output : String) (bits : Nat)
  /-- Shows the identity of the owner of a key. -/
  | showId (key : String)
  /-- Has a node build a tunnel. -/
  | buildTunnel (api destination : Address) (hostkey : String)
  /-- Sends a text through a tunnel and shows the reply. -/
  | send (api : Address) (tunnel : UInt32) (data : String)
  /-- Has a node tear a tunnel down. -/
  | destroy (api : Address) (tunnel : UInt32)
  /-- Shows the version of the tool. -/
  | version

/-- Where a node answers its clients, unless another address is given. -/
def defaultApi : String := "127.0.0.1:7004"

/-- The form of `keygen`. -/
def keygenForm : Form where
  name := "keygen"
  about := "Generate a new RSA hostkey"
  flags := [
    ⟨some 'o', "output", .text, "Output file path (without extension)", some "hostkey"⟩,
    ⟨none, "bits", .count, "", some "4096"⟩]
  operands := []

/-- The form of `show-id`. -/
def showIdForm : Form where
  name := "show-id"
  about := "Show the identity of a hostkey (PEM private/public key or DER)"
  flags := [⟨some 'k', "key", .path, "", none⟩]
  operands := []

/-- The form of `build-tunnel`. -/
def buildTunnelForm : Form where
  name := "build-tunnel"
  about := "Ask a node to build a tunnel to a destination"
  flags := [
    ⟨none, "api", .address, "Onion API of the local node", some defaultApi⟩,
    ⟨some 'd', "destination", .address, "Destination P2P address (host:port)", none⟩,
    ⟨none, "hostkey", .path, "Destination hostkey file", none⟩]
  operands := []

/-- The flag that names a tunnel. -/
def tunnelFlag : Flag := ⟨some 't', "tunnel", .word, "", none⟩

/-- The form of `send`. -/
def sendForm : Form where
  name := "send"
  about := "Send data through a tunnel and print the reply"
  flags := [⟨none, "api", .address, "", some defaultApi⟩, tunnelFlag]
  operands := [⟨"data", .text⟩]

/-- The form of `destroy`. -/
def destroyForm : Form where
  name := "destroy"
  about := "Tear a tunnel down"
  flags := [⟨none, "api", .address, "", some defaultApi⟩, tunnelFlag]
  operands := []

/-- The form of `version`. -/
def versionForm : Form := ⟨"version", "Show version information", [], []⟩

/-- The tool. -/
def tool : Tool where
  name := "p2pnet"
  about := "p2pnet CLI tools"
  operands := []
  flags := [⟨none, "log-level", .text, "Default log level when RUST_LOG is unset", some "warn"⟩]
  forms := [keygenForm, showIdForm, buildTunnelForm, sendForm, destroyForm, versionForm]

/-- The command of a form with its values. -/
def Command.ofValues? (form : String) (value? : String → Option Value) : Option Command := do
  let text (name : String) := (value? name).bind Value.text?
  let address (name : String) := (value? name).bind Value.address?
  let tunnel := (value? "tunnel").bind Value.word?
  match form with
  | "keygen" => return .keygen (← text "output") (← (value? "bits").bind Value.count?)
  | "show-id" => return .showId (← text "key")
  | "build-tunnel" =>
    return .buildTunnel (← address "api") (← address "destination") (← text "hostkey")
  | "send" => return .send (← address "api") (← tunnel) (← text "data")
  | "destroy" => return .destroy (← address "api") (← tunnel)
  | "version" => return .version
  | _ => none

/-- The command that the arguments ask for. -/
def Command.read (arguments : List String) : Except Refusal Command := do
  let (form, values) ← tool.read .start arguments
  match ofValues? form.name (form.value? values) with
  | some c => return c
  | none => throw (tool.call.complain (.unknownCommand form.name) [])

end OnionTunnel.CommandLine
