import OnionTunnel.CommandLine.Command
import OnionTunnel.CommandLine.Script
import OnionTunnel.Hostkey.File

/-!
# Running commands

Help is printed and counts as success. A mistake in the arguments ends with code 2, a command that
fails with code 1; either is explained on the error output.
-/

namespace OnionTunnel.CommandLine

/-- The version of the tool. -/
def versionText : String := "0.1.0"

/-- Ends with a failure and, below it, what the system reported. -/
def fail (text : String) (report? : Option SystemFault) : Script :=
  let below := match report? with
    | some fault => s!"\n\nCaused by:\n    {fault.message}"
    | none => ""
  .complain (s!"Error: {text}" ++ below ++ "\n") (.exit 1)

/-- Ends with the failure of an operation on keys. -/
def failCipher (e : CipherError) : Script :=
  fail e.message (match e with | .system fault => some fault | _ => none)

/-- Ends with the failure of an exchange. -/
def failFrame (e : FrameError) : Script :=
  fail e.message (match e with | .system fault => some fault | _ => none)

/-- Ends after printing a line. -/
def finish (line : String) : Script := .print (line ++ "\n") (.exit 0)

/-- Reads the hostkey that a file names. -/
def withHostkey (path : String) (next : Bytes → Script) : Script :=
  .readFile path fun
    | .error fault => failCipher (.system fault)
    | .ok content =>
      match Hostkey.ofFile content with
      | .ok hostkey => next hostkey
      | .error e => failCipher e

/-- Makes a keypair and saves it. -/
def keygen (tape : Tape) (output : String) (bits : Nat) : Script :=
  let secretPath := output ++ ".pem"
  let publicPath := output ++ ".pub.pem"
  .print s!"Generating {bits}-bit RSA hostkey...\n"
    (match (Keypair.generate bits tape).1 with
    | .error e => failCipher e
    | .ok k =>
      match k.files with
      | .error e => failCipher e
      | .ok (secretText, publicText) =>
        .writeFile secretPath true secretText fun
          | .error fault => failCipher (.system fault)
          | .ok _ => .writeFile publicPath false publicText fun
            | .error fault => failCipher (.system fault)
            | .ok _ => finish ("\n".intercalate [s!"Private key: {secretPath}",
                s!"Public key:  {publicPath}", s!"Identity:    {k.identity.text}"]))

/-- What is said of a reply that does not fit. -/
def describe : Message → String
  | .tunnelError request tunnel =>
    s!"node reported error for request type {request.toNat} on tunnel {tunnel.toNat}"
  | other => s!"unexpected reply {other.kind.text}"

/-- Asks a node and goes on with its reply. -/
def askNode (api : Address) (m : Message) (next : Message → Script) : Script :=
  .request api m fun
    | .ok reply => next reply
    | .error e => fail s!"Onion API at {api.text} unreachable: {e.message}" none

/-- Does what a command says. -/
def Command.script (tape : Tape) : Command → Script
  | keygen output bits => CommandLine.keygen tape output bits
  | showId key => withHostkey key fun hostkey => finish (Identity.ofHostkey hostkey).text
  | buildTunnel api destination path =>
    withHostkey path fun hostkey =>
      askNode api (.tunnelBuild destination hostkey) fun
        | .tunnelReady tunnel _ => finish s!"Tunnel {tunnel.toNat} ready"
        | other => fail s!"tunnel build failed: {describe other}" none
  | send api tunnel data =>
    askNode api (.tunnelData tunnel (Bytes.ofText data)) fun
      | .tunnelData _ reply => finish ((Bytes.toText? reply).getD (Hex.encode reply))
      | other => fail s!"send failed: {describe other}" none
  | destroy api tunnel =>
    .post api (.tunnelDestroy tunnel) fun
      | .ok _ => finish s!"Destroy sent for tunnel {tunnel.toNat}"
      | .error e => failFrame e
  | version => finish s!"{tool.name} {versionText}"

/-- Does what the arguments ask for. -/
def run (tape : Tape) (arguments : List String) : Script :=
  match Command.read arguments with
  | .ok command => command.script tape
  | .error (.help text) => .print text (.exit 0)
  | .error (.nothing text) => .complain text (.exit 2)
  | .error (.complaint c) => .complain c.message (.exit 2)

end OnionTunnel.CommandLine
