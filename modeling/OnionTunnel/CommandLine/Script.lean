import OnionTunnel.CommandLine.Directory
import OnionTunnel.Stream.Client

/-!
# Scripts

A script is what a command does, step by step: it prints, reads and writes files, and exchanges
messages, and ends with an exit code. `Script.play` follows a script on a machine that is given as a
value; a program follows it on the machine it runs on.
-/

namespace OnionTunnel.CommandLine

/-- The steps of a command. -/
inductive Script where
  | exit (code : UInt32)
  | print (text : String) (next : Script)
  | complain (text : String) (next : Script)
  | readFile (path : String) (next : Except SystemFault Bytes → Script)
  /-- Writes a file; a secret one can be read by its owner only. -/
  | writeFile (path : String) (secret : Bool) (content : Bytes)
      (next : Except SystemFault Unit → Script)
  /-- Sends a message and waits for the reply. -/
  | request (dest : Address) (m : Message) (next : Except FrameError Message → Script)
  /-- Sends a message. -/
  | post (dest : Address) (m : Message) (next : Except FrameError Unit → Script)

/-- A machine: its files, how it reaches addresses, and the state of the far ends. -/
structure Machine (σ : Type) where
  files : Directory
  host : Host σ
  state : σ

/-- What a script leaves behind. -/
structure Report (σ : Type) where
  code : UInt32
  out : String
  err : String
  machine : Machine σ

/-- The client of the tool; a node may take long to build a tunnel. -/
def client : Client := ⟨Duration.ofSeconds 60⟩

/-- Follows a script, after what has been printed already. -/
def Script.playFrom {σ : Type} (out err : String) : Script → Machine σ → Report σ
  | exit code, m => ⟨code, out, err, m⟩
  | print text next, m => playFrom (out ++ text) err next m
  | complain text next, m => playFrom out (err ++ text) next m
  | readFile path next, m => playFrom out err (next (m.files.read path)) m
  | writeFile path _ content next, m =>
    match m.files.write path content with
    | .ok files => playFrom out err (next (.ok ())) { m with files := files }
    | .error fault => playFrom out err (next (.error fault)) m
  | request dest message next, m =>
    let (reply, state) := client.request m.host m.state dest message
    playFrom out err (next reply) { m with state := state }
  | post dest message next, m =>
    let (sent, state) := client.send m.host m.state dest message
    playFrom out err (next sent) { m with state := state }

/-- Follows a script. -/
def Script.play {σ : Type} (s : Script) (m : Machine σ) : Report σ := s.playFrom "" "" m

end OnionTunnel.CommandLine
