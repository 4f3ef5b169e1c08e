import ParserGraph.CommandLine.Program

/-!
# Files in a directory

What becomes of a file that is written, by its path, in a world that knows one directory, which is
empty. Around it the world knows only the top of the file system and the directory for temporary
files, where it lies.
-/

namespace ParserGraph.CommandLine

/-- A directory of the world. -/
inductive Location
  | top
  /-- The directory for temporary files. -/
  | temporary
  /-- The directory whose files are seen. -/
  | known
  | devices
  /-- A device, which is no directory. -/
  | device
  /-- Another directory, nothing of which is known. -/
  | elsewhere
deriving DecidableEq

/-- The directories at the top. -/
def topNames : List String :=
  ["bin", "boot", "etc", "home", "lib", "media", "mnt", "opt", "proc", "root", "run", "sbin", "srv",
    "sys", "usr", "var"]

/-- The directory around a directory. -/
def Location.up : Location → Location
  | .known => .temporary
  | .elsewhere => .elsewhere
  | _ => .top

/-- What exists under a name in a directory; `directory` is the name of the known one. -/
def Location.down? (directory : String) : Location → String → Option Location
  | .top, name =>
    if name = "tmp" then some .temporary
    else if name = "dev" then some .devices
    else if topNames.contains name then some .elsewhere
    else none
  | .temporary, name => if name = directory then some .known else none
  | .devices, name => if name = "null" then some .device else none
  | _, _ => none

/-- Names have at most so many bytes. -/
def maxNameSize : Nat := 255

/-- Paths have fewer bytes. -/
def pathBound : Nat := 4096

/-- Follows the names of a path. The last one is that of the file, unless it is a directory or a
slash comes after it. -/
def Location.follow (directory : String) (slash : Bool) :
    Location → List String → Except Ending (Option String)
  | .device, [] => .ok none
  | .device, _ :: _ => .error .notDirectory
  | _, [] => .error .isDirectory
  | l, name :: rest =>
    if name = "." then follow directory slash l rest
    else if name = ".." then follow directory slash l.up rest
    else if rest.isEmpty && slash then .error .isDirectory
    else if maxNameSize < name.utf8ByteSize then .error .nameTooLong
    else match l.down? directory name with
      | some inner => follow directory slash inner rest
      | none =>
        if !rest.isEmpty then .error .noSuchFile
        else .ok (if l = .known then some name else none)

/-- Writes `new` for each `old` in a text; `skip` characters belong to an `old` before. -/
def substitute (old new : List Char) : Nat → List Char → List Char
  | _, [] => []
  | skip + 1, _ :: cs => substitute old new skip cs
  | 0, c :: cs =>
    if old.isPrefixOf (c :: cs) then new ++ substitute old new (old.length - 1) cs
    else c :: substitute old new 0 cs

/-- The number of bytes in the path of the known directory, which has eleven characters for a name
in the directory for temporary files. -/
def directorySize : Nat := 16

/-- What becomes of a file with a path, in a world where `directory` stands for the path of the
known directory: whether it can be written, and its name if it is seen there. -/
def place (directory path : String) : Except Ending (Option String) :=
  let token := directory.toList
  let size (path : List Char) := (String.ofList path).utf8ByteSize
  let path := path.toList
  if path.contains (Char.ofNat 0) then .error (.fault .wrongValue)
  else if pathBound ≤ size (substitute token (List.replicate directorySize 'x') 0 path) then
    .error .nameTooLong
  else
    let full := substitute token ("/tmp/".toList ++ token) 0 path
    let names := ((full.splitOn '/').filter (!·.isEmpty)).map String.ofList
    let start := if full.head? = some '/' then Location.top else .elsewhere
    start.follow directory (full.getLast? = some '/') names

end ParserGraph.CommandLine
