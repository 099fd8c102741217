import JvmClass.Listing.File

/-!
# The command line

The arguments name the files to list, apart from two words that set options wherever they stand.
The files are listed one after the other, and the exit status says whether all of them could be
read in full.
-/

namespace JvmClass

structure CommandLine where
  options : Listing.Options
  paths : List String
deriving DecidableEq, Repr

namespace CommandLine

def permissiveWord : String := "--permissive"

def warnDescriptorsWord : String := "--warn-descriptors"

def usage : String := "usage: javad [--permissive] [--warn-descriptors] <file.class>..."

def ofArguments (arguments : List String) : CommandLine where
  options :=
    { lengthCheck := if permissiveWord ∈ arguments then .permissive else .strict
      warnDescriptors := decide (warnDescriptorsWord ∈ arguments) }
  paths := arguments.filter fun a => a != permissiveWord && a != warnDescriptorsWord

/-- What a run prints and how it ends. -/
structure Outcome where
  output : List String
  errors : List String
  exitStatus : Nat
deriving DecidableEq, Repr

/-- The listings of all files, `contents` giving what each path holds. -/
def listings (contents : String → Except String (List UInt8)) (command : CommandLine) :
    Logged (List Listing.File) :=
  Logged.all (command.paths.map fun path =>
    Listing.listFile command.options path (contents path))

/-- A run with the given arguments. Records below the threshold are not printed. -/
def run (contents : String → Except String (List UInt8)) (threshold : Log.Threshold)
    (arguments : List String) : Outcome :=
  let command := ofArguments arguments
  if command.paths.isEmpty then ⟨[], [usage], 1⟩
  else
    let files := command.listings contents
    { output := files.value.flatMap Listing.File.lines
      errors := Log.lines threshold files.log
      exitStatus := if files.value.any Listing.File.failed then 1 else 0 }

/-- Lines as they are printed, each with its line end. -/
def unlines (lines : List String) : String :=
  String.join (lines.map (· ++ "\n"))

end CommandLine

end JvmClass
