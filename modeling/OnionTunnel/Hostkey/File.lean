import OnionTunnel.Hostkey.Keypair

/-!
# Key files

A peer's hostkey can be read from three kinds of files: its private key's text, its public key's
text, or the hostkey itself. The kind is told by words that occur in the file.
-/

namespace OnionTunnel

/-- The words of a file that holds a private key's text. -/
def privateMark : Bytes := Bytes.ofText "PRIVATE KEY"

/-- The words of a file that holds any key's text. -/
def textMark : Bytes := Bytes.ofText "-----BEGIN"

/-- The hostkey that a file names. -/
def Hostkey.ofFile (content : Bytes) : Except CipherError Bytes := do
  if (Bytes.toText? content).isSome && Bytes.contains privateMark content then
    return (← Keypair.ofPem content).hostkey
  else if (Bytes.toText? content).isSome && Bytes.contains textMark content then
    return Hostkey.encode (← Hostkey.ofPem content)
  else
    let _ ← Hostkey.parse content
    return content

namespace Keypair

/-- The keypair in a file, which has to be text. -/
def ofFile (content : Bytes) : Except CipherError Keypair :=
  if (Bytes.toText? content).isSome then ofPem content else .error (.system .notText)

/-- The permissions of a file that only its owner may read and write. -/
def fileMode : Nat := 0o600

/-- The contents of the two files that a keypair is saved to, private half first. -/
def files (k : Keypair) : Except CipherError (Bytes × Bytes) := do
  return (← k.toPem, k.publicPem)

end Keypair

end OnionTunnel
