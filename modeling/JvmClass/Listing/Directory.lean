import JvmClass.Listing.File

/-!
# Directories of files

This belongs to the outer layer, as the program does. A listing takes the contents of its paths as
they are given, and so does every theorem about one; where a file system does not give them, a
directory does, by the rules by which an operating system looks up a path and in its words.

A directory holds files under relative names, and a path leads from it to one of them, to a
directory on the way to one, or nowhere. Nothing is known of what lies outside, so that a path out
of the directory meets no file. `Directory.contents` gives what a listing needs of a path: the bytes
of its file, or the reason why there are none.
-/

namespace JvmClass.Listing

/-- Why a path cannot go on below a file. -/
def notDirectory : String := "Not a directory (os error 20)"

/-- Why the contents of a directory cannot be had. -/
def noContents : String := "No such device (os error 19)"

/-- Why a path or a part of it is refused for its length. -/
def nameTooLong : String := "File name too long (os error 36)"

/-- Paths have fewer bytes than this. -/
def pathLimit : Nat := 4096

/-- The most bytes of a part of a path. -/
def partLimit : Nat := 255

/-- The parts of a path, between its slashes. -/
def pathParts (path : String) : List String :=
  path.splitOn "/"

/-- Whether a part of a path leads to the place it starts from. -/
def staysInPlace (part : String) : Bool :=
  part == "" || part == "."

/-- Files with the parts of their names. -/
structure Directory where
  files : List (List String × List UInt8)
deriving DecidableEq, Repr

namespace Directory

/-- A directory into which the files are written in their order: of two with one name the later
one remains. -/
def ofFiles (files : List (String × List UInt8)) : Directory :=
  ⟨files.reverse.map fun (name, bytes) =>
    ((pathParts name).filter (!staysInPlace ·), bytes)⟩

/-- The bytes of the file at a place. -/
def file? (d : Directory) (place : List String) : Option (List UInt8) :=
  d.files.lookup place

/-- Whether a place is on the way to a file. The top of the directory always is one. -/
def isDirectory (d : Directory) (place : List String) : Bool :=
  place.isEmpty || d.files.any fun (name, _) => place.isPrefixOf name && place != name

/-- Where a path has led: out of the directory, or to a place in it. -/
inductive Position where
  | outside
  | inside (place : List String)
deriving DecidableEq, Repr

/-- One part further on a path. -/
def step (d : Directory) : Position → String → Except String Position
  | .outside, part =>
    if staysInPlace part || part == ".." then .ok .outside
    else if part.utf8ByteSize > partLimit then .error nameTooLong
    else .error noSuchFile
  | .inside place, part =>
    if !d.isDirectory place then .error notDirectory
    else if staysInPlace part then .ok (.inside place)
    else if part == ".." then
      .ok (if place.isEmpty then .outside else .inside place.dropLast)
    else if part.utf8ByteSize > partLimit then .error nameTooLong
    else
      let next := place ++ [part]
      if d.isDirectory next || (d.file? next).isSome then .ok (.inside next)
      else .error noSuchFile

/-- Where a path leads from the top of the directory, or from outside if it starts with a slash. -/
def walk (d : Directory) (path : String) : Except String Position :=
  (pathParts path).foldlM d.step
    (if path.startsWith "/" then .outside else .inside [])

/-- The bytes of the file that a path leads to, or why they cannot be had. -/
def contents (d : Directory) (path : String) : Except String (List UInt8) := do
  if path.isEmpty then throw noSuchFile
  if path.utf8ByteSize ≥ pathLimit then throw nameTooLong
  match ← d.walk path with
  | .outside => throw noContents
  | .inside place =>
    match d.file? place with
    | some bytes => return bytes
    | none => throw noContents

end Directory

end JvmClass.Listing
