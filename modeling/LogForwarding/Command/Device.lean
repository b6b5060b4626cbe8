/-
# Faults of files, and the devices of the system

A path can lead to a device: a file that every system has and that does not
keep what is written to it. The standard streams are devices too. The standard
input is empty, and the program has no terminal.

Key definitions: `Command.FileFault`, `Command.Device`,
`Command.Device.ofText?`, `Command.Device.read`, `Command.Device.refuses?`.
-/

namespace LogForwarding.Command

/-- Why a file cannot be read or written. -/
inductive FileFault where
  /-- There is nothing at the path. -/
  | missing
  /-- There is nothing behind the device. -/
  | noDevice
  /-- The path leads through a file. -/
  | notAFolder
  /-- The path leads to a folder. -/
  | isAFolder
  /-- There is no room for the bytes. -/
  | noSpace
  /-- The path, or a name in it, is too long. -/
  | nameTooLong
  deriving DecidableEq, Repr

/-- How the operating system names the fault. -/
def FileFault.message : FileFault → String
  | missing => "No such file or directory (os error 2)"
  | noDevice => "No such device or address (os error 6)"
  | notAFolder => "Not a directory (os error 20)"
  | isAFolder => "Is a directory (os error 21)"
  | noSpace => "No space left on device (os error 28)"
  | nameTooLong => "File name too long (os error 36)"

/-- A file of the system that keeps nothing. -/
inductive Device where
  /-- It is empty, and what is written to it is gone. -/
  | null
  /-- What is written to it is gone, and a reader never comes to its end. -/
  | endless
  /-- There is never room on it. -/
  | full
  /-- The standard input. -/
  | standardInput
  /-- The standard output. -/
  | standardOutput
  /-- The standard error. -/
  | standardError
  /-- The terminal of the program. -/
  | terminal
  deriving DecidableEq, Repr

namespace Device

/-- Every device. -/
def all : List Device :=
  [null, endless, full, standardInput, standardOutput, standardError, terminal]

/-- The places at which the device is found. -/
def places : Device → List String
  | null => ["/dev/null"]
  | endless => ["/dev/zero", "/dev/random", "/dev/urandom"]
  | full => ["/dev/full"]
  | standardInput => ["/dev/stdin", "/proc/self/fd/0"]
  | standardOutput => ["/dev/stdout", "/proc/self/fd/1"]
  | standardError => ["/dev/stderr", "/proc/self/fd/2"]
  | terminal => ["/dev/tty"]

/-- The device at the place. -/
def ofText? (place : String) : Option Device := all.find? (place ∈ ·.places)

/-- The bytes that are read from the device. There are none: an endless device counts as empty,
since no program comes to an end that reads it. -/
def read : Device → Except FileFault ByteArray
  | terminal => .error .noDevice
  | null | endless | full | standardInput | standardOutput | standardError => .ok ByteArray.empty

/-- Why the bytes cannot be written to the device, if they cannot. -/
def refuses? (bytes : ByteArray) : Device → Option FileFault
  | full => if bytes.isEmpty then none else some .noSpace
  | terminal => some .noDevice
  | null | endless | standardInput | standardOutput | standardError => none

end Device

end LogForwarding.Command
