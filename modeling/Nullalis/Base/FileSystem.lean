import Nullalis.Base.Bytes

/-!
# File systems

A file system is a tree of directories, files and symbolic links. A location is the list of the
names that lead to it from the root, the last one first. A path is resolved name by name against
the entries that exist: a link is replaced by its target, and two dots lead to the parent.

Paths are byte strings, taken apart as `std.fs.path` does. Permissions, the lengths of names and
errors of the device are left out, and no link has an empty target.
-/

namespace Posix

abbrev Location := List Bytes

inductive Entry where
  | directory
  | file (content : Bytes)
  | symlink (target : Bytes)
deriving DecidableEq

abbrev FileSystem := Location → Option Entry

def dot : Bytes := ascii "."

def dotdot : Bytes := ascii ".."

inductive Errno where
  | FileNotFound
  | NotDir
  | IsDir
  | SymLinkLoop
  | PathAlreadyExists
  | DeviceBusy
deriving DecidableEq

/-!
## Paths
-/

/-- `std.fs.path.isAbsolute` -/
def isAbsolute (path : Bytes) : Bool :=
  path.head? == some (byte '/')

def names (path : Bytes) : List Bytes :=
  (Bytes.splitScalar (byte '/') path).filter fun name => !name.isEmpty

/-- The names that a path is resolved by. What ends with a slash has to be a directory. -/
def steps (path : Bytes) : List Bytes :=
  names path ++ if path.getLast? = some (byte '/') then [dot] else []

/-- A path that continues another one (`std.fs.path.join`). -/
def join (path more : Bytes) : Bytes :=
  if path.isEmpty then more
  else if more.isEmpty then path
  else if path.getLast? = some (byte '/') then
    path ++ if more.head? = some (byte '/') then more.tail else more
  else path ++ if more.head? = some (byte '/') then more else byte '/' :: more

/-- The absolute path of a location. -/
def render : Location → Bytes
  | [] => ascii "/"
  | name :: dir => (name :: dir).reverse.flatMap (byte '/' :: ·)

/-!
## Resolution
-/

/-- How far names lead: to a location, to a link, or to an error. -/
inductive Walk where
  | arrived (location : Location)
  | follow (start : Location) (rest : List Bytes)
  | stuck (errno : Errno)

/-- Walk along the names up to the first link. -/
def walk (fs : FileSystem) (current : Location) : List Bytes → Walk
  | [] => .arrived current
  | name :: rest =>
      if fs current ≠ some .directory then .stuck .NotDir
      else if name = dot then walk fs current rest
      else if name = dotdot then walk fs current.tail rest
      else
        match fs (name :: current) with
        | none => .stuck .FileNotFound
        | some (.symlink target) =>
            .follow (if isAbsolute target then [] else current) (steps target ++ rest)
        | some _ => walk fs (name :: current) rest

/-- Walk along the names, with so many links at most. The links that are left are returned. -/
def resolveFrom (fs : FileSystem) : ℕ → Location → List Bytes → Except Errno (Location × ℕ)
  | 0, current, names =>
      match walk fs current names with
      | .arrived location => .ok (location, 0)
      | .follow _ _ => .error .SymLinkLoop
      | .stuck errno => .error errno
  | links + 1, current, names =>
      match walk fs current names with
      | .arrived location => .ok (location, links + 1)
      | .follow start rest => resolveFrom fs links start rest
      | .stuck errno => .error errno

def MAXSYMLINKS : ℕ := 40

def startOf (cwd : Location) (path : Bytes) : Location :=
  if isAbsolute path then [] else cwd

def locate (fs : FileSystem) (start : Location) (names : List Bytes) : Except Errno Location :=
  (resolveFrom fs MAXSYMLINKS start names).map Prod.fst

def resolve (fs : FileSystem) (cwd : Location) (path : Bytes) : Except Errno Location :=
  if path.isEmpty then .error .FileNotFound else locate fs (startOf cwd path) (steps path)

/-- The absolute path without links and dots (`std.fs.Dir.realpath`). -/
def realpath (fs : FileSystem) (cwd : Location) (path : Bytes) : Except Errno Bytes :=
  (resolve fs cwd path).map render

/-- A file system and the locations whose entry was changed so far, the last one first. -/
structure Disk where
  fs : FileSystem
  changes : List Location

/-- Change an entry. -/
def Disk.put (disk : Disk) (location : Location) (entry : Option Entry) : Disk where
  fs := Function.update disk.fs location entry
  changes := location :: disk.changes

end Posix
