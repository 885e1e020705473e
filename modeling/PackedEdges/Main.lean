import PackedEdges.CommandLine.Run

/-! The program: works on the files of this computer, prints to the standard output and logs to
the standard error. -/

namespace PackedEdges.CommandLine

def systemText (code : UInt32) (details : String) : String :=
  details ++ " (os error " ++ toString code.toNat ++ ")"

def fileFault : IO.Error → FileFault
  | .noFileOrDirectory .. => .notFound
  | .permissionDenied _ code details => .other (systemText code details)
  | .inappropriateType _ code details => .other (systemText code details)
  | e => .other (toString e)

def computerFiles : FileSystem IO where
  read path := do
    match ← (IO.FS.readBinFile path).toBaseIO with
    | .ok content => return .ok content
    | .error e => return .error (fileFault e)
  write path content := do
    match ← (IO.FS.writeBinFile path content).toBaseIO with
    | .ok () => return .ok ()
    | .error e => return .error (fileFault e)

end PackedEdges.CommandLine

def main (arguments : List String) : IO UInt32 := do
  let ending ← PackedEdges.CommandLine.run PackedEdges.CommandLine.computerFiles arguments
  IO.print ending.output
  for line in ending.log do
    IO.eprintln line.render
  return ending.exitCode.toUInt32
