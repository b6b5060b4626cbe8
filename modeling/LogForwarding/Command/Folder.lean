/-
# A folder of files

A program runs in a folder, and finds files by paths. A folder is there if a
file lies in it; the folders around the working one are always there, and so
are those that every system has. A path is followed name by name, and each
name but the last must lead to a folder. A write replaces a whole file or
changes nothing.

Key definitions: `Command.Folder`, `Command.Folder.follow`,
`Command.Folder.read`, `Command.Folder.write`, `Command.Program.runIn`.
-/
import LogForwarding.Command.Device
import LogForwarding.Command.Location
import LogForwarding.Command.Program

namespace LogForwarding.Command

/-- Files by the text of their location. -/
abbrev Folder := Std.ExtTreeMap String ByteArray

namespace Folder

/-- Folders that every system has. -/
def systemFolders : List String :=
  ["bin", "boot", "dev", "dev/pts", "dev/shm", "etc", "home", "lib", "media", "mnt", "opt", "proc",
    "proc/self", "proc/self/fd", "root", "run", "sbin", "srv", "sys", "tmp", "usr",
    "var"].map ("/" ++ ·)

/-- The longest name of a file, in bytes. -/
def nameLimit : Nat := 255

/-- The longest path, in bytes. -/
def pathLimit : Nat := 4095

/-- There is a folder at the location. -/
def isFolder (folder : Folder) (location : Location) : Bool :=
  location.all (· == "..") || location == Location.root || location.text ∈ systemFolders ||
    folder.keys.any (·.startsWith (location.text ++ "/"))

/-- There is a file at the location. -/
def isFile (folder : Folder) (location : Location) : Bool :=
  (Device.ofText? location.text).isSome || location.text ∈ folder

/-- The location to which a name leads from a folder. -/
def step (location : Location) (name : String) : Except FileFault Location :=
  if name = "." then .ok location
  else if name = ".." then .ok location.parent
  else if nameLimit < name.utf8ByteSize then .error .nameTooLong
  else .ok (Location.linked (name :: location))

/-- The location to which names lead, one after the other. -/
def follow (folder : Folder) : Location → List String → Except FileFault Location
  | location, [] => .ok location
  | location, name :: rest =>
    if folder.isFolder location then
      match step location name with
      | .error fault => .error fault
      | .ok next => folder.follow next rest
    else if folder.isFile location then .error .notAFolder
    else .error .missing

/-- What the path spells, unless it is empty or too long. -/
def spelled (path : String) : Except FileFault Path :=
  if path = "" then .error .missing
  else if pathLimit < path.utf8ByteSize then .error .nameTooLong
  else .ok (Path.ofString path)

/-- The bytes of the file at the path. -/
def read (folder : Folder) (path : String) : Except FileFault ByteArray := do
  let path ← spelled path
  let location ← folder.follow path.start path.names
  if folder.isFolder location then throw .isAFolder
  if ¬ folder.isFile location then throw .missing
  if path.toFolder then throw .notAFolder
  match Device.ofText? location.text with
  | some device => device.read
  | none => return folder[location.text]?.getD ByteArray.empty

/-- The place where what is written to the standard output is kept. -/
def outputPlace : String := "/dev/stdout"

/-- The folder with the file at the path replaced. A path that ends in a slash is refused without
a look at its last name, and nothing can be made among the folders of processes. -/
def write (folder : Folder) (path : String) (bytes : ByteArray) : Except FileFault Folder := do
  let path ← spelled path
  let names := if path.toFolder then path.names.dropLast ++ ["."] else path.names
  let location ← folder.follow path.start names
  if folder.isFolder location then throw .isAFolder
  match Device.ofText? location.text with
  | some device =>
    match device.refuses? bytes with
    | some fault => throw fault
    | none =>
      return if device = .standardOutput then folder.insert outputPlace bytes else folder
  | none =>
    if location.text.startsWith "/proc/" then throw .missing
    return folder.insert location.text bytes

/-- What there is on the standard output after a program that ends with a text: what was written
to the file that stands for it, and then the text. -/
def standardOutput (folder : Folder) (text : String) : String :=
  (folder[outputPlace]?.bind String.fromUTF8?).getD "" ++ text

end Folder

/-- The value of a program that runs in the folder, and the folder after it. -/
def Program.runIn {α : Type} (folder : Folder) : Program α → α × Folder
  | done value => (value, folder)
  | read path next => (next ((folder.read path).mapError FileFault.message)).runIn folder
  | write path text next =>
    match folder.write path text.toUTF8 with
    | .ok folder => (next (.ok ())).runIn folder
    | .error fault => (next (.error fault.message)).runIn folder

end LogForwarding.Command
