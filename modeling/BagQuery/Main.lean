import BagQuery.Command.Run

/-!
# The command

Collects what the command finds when it is started, the files it reads among that, and writes its
report.  That an output cannot be written shows here only when the run is over, and is complained
about as in a run into a sink that refuses it.
-/

namespace BagQuery

namespace Main

/-- What a path leads to on this system. -/
def fileState (path : String) : IO FileState := do
  try
    return .content (← IO.FS.readBinFile path)
  catch e =>
    return match e with
      | .noFileOrDirectory .. => .refused FileFault.notFound.reason
      | .inappropriateType _ 21 _ => .unreadable FileFault.isDirectory.reason
      | .inappropriateType .. => .refused FileFault.notDirectory.reason
      | e => .refused (toString e)

/-- Reads files one round further, given those that were read. -/
def readMore (s : Command.Surroundings) (args : List String)
    (known : List (String × FileState)) : IO (List (String × FileState)) := do
  let unknown := (Command.paths s args).filter fun path => (known.lookup path).isNone
  return known ++ (← unknown.mapM fun path => return (path, ← fileState path))

/-- Files of which only those that were read are there. -/
def filesOf (known : List (String × FileState)) : Files :=
  fun path => (known.lookup path).getD (.refused FileFault.notFound.reason)

/-- Sixteen digits of chance. -/
def runMark : IO String := do
  let bytes ← IO.getRandomBytes 8
  return String.ofList (bytes.data.toList.flatMap fun b =>
    [Text.Numeral.digitChar (b.toNat / 16), Text.Numeral.digitChar (b.toNat % 16)])

end Main

end BagQuery

open BagQuery in
/-- Runs the command on this system. -/
def main (args : List String) : IO UInt32 := do
  let found ← Command.vars.filterMapM fun name => do
    return (← IO.getEnv name).map (name, ·)
  let surroundings (known : List (String × FileState)) : Command.Surroundings :=
    ⟨fun name => found.lookup name, Main.filesOf known, "", .list⟩
  let known ← Main.readMore (surroundings []) args []
  let known ← Main.readMore (surroundings known) args known
  let report := Command.run { surroundings known with runMark := ← Main.runMark } args
  try
    (← IO.getStdout).putStr report.output
    (← IO.getStdout).flush
  catch e =>
    (← IO.getStderr).putStr (Command.Fault.program (.output (toString e))).line
    return 1
  (← IO.getStderr).putStr report.complaint
  return report.code.toUInt32
