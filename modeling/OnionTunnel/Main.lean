import OnionTunnel.CommandLine.Run

/-!
# The command line

The program follows the script of the command on the machine it runs on. It has no sockets, so to
it every address is on a network that cannot be reached.
-/

namespace OnionTunnel.CommandLine

/-- A report of the operating system. -/
def reportOf : IO.Error → SystemFault
  | .noFileOrDirectory .. => .notFound
  | .inappropriateType _ code _ => if code = 21 then .isDirectory else .notDirectory
  | .invalidArgument _ 36 _ => .nameTooLong
  | e => .stated (toString e)

/-- Follows a script. -/
def Script.perform : Script → IO UInt32
  | exit code => return code
  | print text next => do
    (← IO.getStdout).putStr text
    next.perform
  | complain text next => do
    (← IO.getStderr).putStr text
    next.perform
  | readFile path next => do
    match ← (IO.FS.readBinFile path).toBaseIO with
    | .ok content => (next (.ok content.data.toList)).perform
    | .error e => (next (.error (reportOf e))).perform
  | writeFile path secret content next => do
    let write : IO Unit := do
      if secret then
        IO.FS.writeBinFile path ⟨#[]⟩
        IO.setAccessRights path ⟨⟨true, true, false⟩, ⟨false, false, false⟩, ⟨false, false, false⟩⟩
      IO.FS.writeBinFile path ⟨content.toArray⟩
    match ← write.toBaseIO with
    | .ok _ => (next (.ok ())).perform
    | .error e => (next (.error (reportOf e))).perform
  | request dest m next => (next (client.request (Host.isolated (σ := Unit)) () dest m).1).perform
  | post dest m next => (next (client.send (Host.isolated (σ := Unit)) () dest m).1).perform

end OnionTunnel.CommandLine

/-- Runs the tool. -/
def main (arguments : List String) : IO UInt32 := do
  let seed ← IO.getRandomBytes 32
  (OnionTunnel.CommandLine.run (.ofSeed seed.data.toList) arguments).perform
