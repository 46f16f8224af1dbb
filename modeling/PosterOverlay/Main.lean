import PosterOverlay.CommandLine.Program

/-!
# The command line on a disk

Runs the program with the files of the disk, the arguments and the environment of the process, and
writes what it leaves behind.
-/

namespace PosterOverlay.CommandLine.Disk

/-- The text of a file on the disk. -/
def read (path : String) : IO (Except Failure String) := do
  try
    let bytes ← IO.FS.readBinFile path
    match String.fromUTF8? bytes with
    | some text => return .ok text
    | none => return .error (.unreadable path "stream did not contain valid UTF-8")
  catch
    | .noFileOrDirectory _ _ _ => return .error (.missing path)
    | error => return .error (.unreadable path (toString error))

/-- The kind and the real place of what a path leads to, links followed. -/
def look? (path : String) : IO (Option (IO.FS.FileType × String)) := do
  let entry : IO.FS.DirEntry := ⟨path, ""⟩
  try
    let data ← entry.root.metadata
    let place ← IO.FS.realPath path
    return some (data.type, place.toString)
  catch _ => return none

/-- The names in a directory. -/
def namesIn (path : String) : IO (List String) := do
  let entry : IO.FS.DirEntry := ⟨path, ""⟩
  try
    let entries ← entry.root.readDir
    return entries.toList.map IO.FS.DirEntry.fileName
  catch _ => return []

/-- The files in a directory and below it, links followed. A link to one of the directories around
it is not entered. -/
partial def filesBelow (around : List String) (path place : String) : IO (List String) := do
  let mut found := []
  for name in ← namesIn path do
    let inner := Path.join path name
    match ← look? inner with
    | some (.dir, target) =>
      if target == Path.join place name || !(place :: around).contains target then
        found := found ++ (← filesBelow (place :: around) inner target)
    | some (.file, _) => found := found ++ [inner]
    | _ => pure ()
  return found

/-- The files at or below a path. -/
def files (path : String) : IO (List String) := do
  match ← look? path with
  | some (.dir, place) => filesBelow [] path place
  | some (.file, _) => return [path]
  | _ => return []

/-- The disk as the host of the program. -/
def host : Host IO := ⟨read, files⟩

end PosterOverlay.CommandLine.Disk

open PosterOverlay.CommandLine in
/-- Runs the program on the disk. -/
def main (arguments : List String) : IO UInt32 := do
  let names := [PosterOverlay.Settings.rootVariable, PosterOverlay.Settings.directoryVariable]
  let values ← names.mapM fun name => return (name, ← IO.getEnv name)
  let outcome ← Disk.host.run (fun name => (values.lookup name).join) arguments
  (← IO.getStdout).putStr outcome.output
  (← IO.getStderr).putStr outcome.errors
  return UInt32.ofNat outcome.code
