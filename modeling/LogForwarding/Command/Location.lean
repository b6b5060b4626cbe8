/-
# Locations and the paths to them

A location is the way to a file or a folder, without detours: up from the
working folder, or down from it or from the root. A path spells a way, perhaps
with detours: a point stays in a folder, two points go to the folder around
it, and slashes between two names count once.

Key definitions: `Command.Location`, `Command.Location.parent`,
`Command.Location.text`, `Command.Path`.
-/

namespace LogForwarding.Command

/-- The names on a way, the innermost first. A way from the root ends in the empty name; any other
way begins in the working folder and goes up, by two points, before it goes down. -/
abbrev Location := List String

namespace Location

/-- The folder that holds all others. -/
def root : Location := [""]

/-- The folder in which the program runs. -/
def working : Location := []

/-- How many folders lie around the working one, the root included. -/
def depth : Nat := 2

/-- The folder around a location. The root is around itself. -/
def parent (location : Location) : Location :=
  if location = root then root
  else if location.all (· == "..") then
    if location.length + 1 < depth then ".." :: location else root
  else location.tail

/-- Where the location really is: the folder of open files belongs to the process. -/
def linked : Location → Location
  | ["fd", "dev", ""] => ["fd", "self", "proc", ""]
  | location => location

/-- The shortest path to the location. -/
def text (location : Location) : String := String.intercalate "/" location.reverse

end Location

/-- What a path spells. -/
structure Path where
  /-- Where it starts. -/
  start : Location
  /-- The names that it follows. -/
  names : List String
  /-- It ends in a slash: it must lead to a folder. -/
  toFolder : Bool
  deriving DecidableEq, Repr

/-- What the path `path` spells. -/
def Path.ofString (path : String) : Path where
  start := if path.startsWith "/" then Location.root else Location.working
  names := (path.splitOn "/").filter (· ≠ "")
  toFolder := path.endsWith "/"

end LogForwarding.Command
