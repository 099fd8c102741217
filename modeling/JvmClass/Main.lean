import JvmClass.CommandLine
import JvmClass.Listing.Directory

/-!
# The program

Reads the files that the arguments name, and prints what the run over them prints. The least severe
level to be logged is taken from the environment, and is `error` where it names none.
-/

open JvmClass

/-- The contents of a file, or why they cannot be had. -/
def readContents (path : String) : IO (Except String (List UInt8)) := do
  try
    return .ok (← IO.FS.readBinFile path).toList
  catch e =>
    match e with
    | .noFileOrDirectory .. => return .error Listing.noSuchFile
    -- opening names the file that is in the way, reading a directory names none
    | .inappropriateType (some _) .. => return .error Listing.notDirectory
    | .inappropriateType none .. => return .error Listing.noContents
    | e => return .error (toString e)

def main (arguments : List String) : IO UInt32 := do
  let level := (← IO.getEnv "RUST_LOG").getD "error"
  let threshold := (Log.Threshold.ofName? level).getD (some .error)
  let paths := (CommandLine.ofArguments arguments).paths
  let files ← paths.mapM fun path => return (path, ← readContents path)
  let contents (path : String) := (files.lookup path).getD (.error Listing.noSuchFile)
  let outcome := CommandLine.run contents threshold arguments
  IO.print (CommandLine.unlines outcome.output)
  IO.eprint (CommandLine.unlines outcome.errors)
  return UInt32.ofNat outcome.exitStatus
