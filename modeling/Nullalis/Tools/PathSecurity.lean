import Nullalis.Base.FileSystem

/-!
# Where the file tools may write

A path is checked after it was resolved, as a text: it may not stand under a system prefix or in a
control directory of the workspace, and it has to stand in the workspace or under a path that is
allowed. A text stands under another one if it goes on with a slash or a backslash.
-/

namespace Nullalis.Tools

open Posix

/-- What a tool answers. -/
structure ToolResult where
  success : Bool
  output : Bytes
  error_msg : Option Bytes
deriving DecidableEq

namespace ToolResult

def fail (err : Bytes) : ToolResult where
  success := false
  output := []
  error_msg := some err

end ToolResult

/-- The name of an error as it is printed. -/
def errorText : Errno → Bytes
  | .FileNotFound => ascii "error.FileNotFound"
  | .NotDir => ascii "error.NotDir"
  | .IsDir => ascii "error.IsDir"
  | .SymLinkLoop => ascii "error.SymLinkLoop"
  | .PathAlreadyExists => ascii "error.PathAlreadyExists"
  | .DeviceBusy => ascii "error.DeviceBusy"

def failWith (message : String) (errno : Errno) : ToolResult :=
  .fail (ascii message ++ errorText errno)

def SYSTEM_BLOCKED_PREFIXES : List Bytes :=
  ["/System", "/Library", "/bin", "/sbin", "/usr/bin", "/usr/sbin", "/usr/lib", "/usr/libexec",
    "/etc", "/private/etc", "/private/var", "/dev", "/boot", "/proc", "/sys"].map ascii

def WORKSPACE_CONTROL_PLANE_DIRS : List Bytes :=
  [".nullalis", ".home"].map ascii

def isSeparator (value : UInt8) : Bool :=
  value == byte '/' || value == byte '\\'

/-- Is the text the other one, or does it go on with a separator? -/
def pathStartsWith (path start : Bytes) : Bool :=
  start.isPrefixOf path && (path.drop start.length).head?.all isSeparator

def isWorkspaceControlPlanePath (resolved ws_resolved : Bytes) : Bool :=
  pathStartsWith resolved ws_resolved &&
    WORKSPACE_CONTROL_PLANE_DIRS.any fun dir =>
      pathStartsWith ((resolved.drop ws_resolved.length).dropWhile isSeparator) dir

/-- May a tool write at the path? The paths that are allowed are resolved anew. -/
def isResolvedPathAllowed (fs : FileSystem) (cwd : Location) (resolved ws_resolved : Bytes)
    (allowed_paths : List Bytes) : Bool :=
  if SYSTEM_BLOCKED_PREFIXES.any (pathStartsWith resolved) then false
  else if isWorkspaceControlPlanePath resolved ws_resolved then false
  else if pathStartsWith resolved ws_resolved then true
  else
    allowed_paths.any fun ap =>
      match realpath fs cwd ap with
      | .ok ap_resolved => pathStartsWith resolved ap_resolved
      | .error _ => false

/-- Is the path relative, without two dots and without their encodings? -/
def isPathSafe (path : Bytes) : Bool :=
  if isAbsolute path then false
  else if path.contains 0 then false
  else if (path.splitOnP isSeparator).contains dotdot then false
  else if 4096 < path.length then false
  else
    let lp := path.map Bytes.toLower
    !(["..%2f", "%2f..", "..%5c", "%5c.."].any fun encoded =>
      Bytes.containsBytes lp (ascii encoded))

/-- The directory of a tool and the paths outside of it that it may write under. -/
structure FileTool where
  workspace_dir : Bytes
  allowed_paths : List Bytes
deriving DecidableEq

namespace FileTool

/-- The path that the tool is asked for. -/
def fullPath (tool : FileTool) (path : Bytes) : Except ToolResult Bytes :=
  if isAbsolute path then
    if tool.allowed_paths.isEmpty then
      .error (.fail (ascii "Absolute paths not allowed (no allowed_paths configured)"))
    else if path.contains 0 then .error (.fail (ascii "Path contains null bytes"))
    else .ok path
  else if isPathSafe path then .ok (join tool.workspace_dir path)
  else .error (.fail (ascii "Path not allowed: contains traversal or absolute path"))

/-- The path of the workspace, which is empty if the workspace cannot be resolved. -/
def wsPath (tool : FileTool) (fs : FileSystem) (cwd : Location) : Bytes :=
  (realpath fs cwd tool.workspace_dir).toOption.getD []

end FileTool

def outside : ToolResult :=
  .fail (ascii "Path is outside allowed areas")

end Nullalis.Tools
