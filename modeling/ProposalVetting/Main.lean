import ProposalVetting.CommandLine.Run

namespace ProposalVetting.CommandLine

def faultOf : IO.Error → FileFault
  | .noFileOrDirectory .. => .missing
  | .permissionDenied .. => .denied
  | .inappropriateType _ code _ => if code = 21 then .directory else .belowFile
  | .invalidArgument _ code _ => if code = 22 then .nulInName else .nameTooLong
  | e => .other (toString e)

def readFile (path : String) : IO (Except FileFault String) := do
  try
    let bytes ← IO.FS.readBinFile path
    return Folder.textOf bytes.toList
  catch e =>
    return .error (faultOf e)

end ProposalVetting.CommandLine

open ProposalVetting CommandLine in
def main (arguments : List String) : IO UInt32 := do
  let paths := match Command.read arguments with
    | .ok command => command.paths
    | .error _ => []
  let contents ← paths.mapM fun path => do return (path, ← readFile path)
  let outcome := run (fun path => (contents.lookup path).getD (.error .missing)) arguments
  IO.print outcome.output
  match outcome.failure with
  | some f => IO.eprintln ("Error: " ++ f.message)
  | none => pure ()
  return outcome.status
