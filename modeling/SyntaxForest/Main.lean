import SyntaxForest.CommandLine.Run
import Std.Time.DateTime

/-!
# The program

The outer layer of the program. It looks at the disk, the environment and the
clock once, hands what it found to `CommandLine.run`, and then prints, writes and
exits as the run's outcome says. Nothing is decided here: a run is a function of
what was found.

No parsers are linked into the program, so every grammar is reported as not
installed.
-/

namespace SyntaxForest.CommandLine

/-! ## What a run finds -/

/-- Files together with what is at a place on the disk. A link to a directory is
not followed, and what cannot be read is left out. -/
partial def withPlace (files : Files) (place : IO.FS.DirEntry) : IO Files := do
  try
    let path := Path.ofText place.path.toString
    if ← place.path.isDir then
      let files := files.put path .emptyDirectory
      if (← place.path.symlinkMetadata).type == .symlink then return files
      (← place.path.readDir).foldlM withPlace files
    else return files.put path (.file (← IO.FS.readBinFile place.path).data)
  catch _ => return files

/-- The places that words may name: each as it stands, and what follows an equals
sign; of a file, the directory that it is in. -/
def placesOf (here : Path) (words : List String) : IO (List Path) := do
  let named := words.flatMap fun w => [w, Text.afterLast '=' w]
  let paths := (named.map fun w => Path.resolve here (.ofText w)).eraseDups
  let found ← paths.filterMapM fun p => do
    let place : IO.FS.DirEntry := ⟨"/", p.text⟩
    if !(← place.path.pathExists) then return none
    else if ← place.path.isDir then return some p
    else return some p.parent
  return found.filter fun p => (p.below? here).isNone

/-- The files below the current directory, and at the places that words name. -/
def filesFor (words : List String) : IO Files := do
  let here := Path.ofText (← IO.currentDir).toString
  (here :: (← placesOf here words)).eraseDups.foldlM
    (fun files p => withPlace files ⟨"/", p.text⟩) (.empty here)

/-- A list of bytes cut at the null characters. -/
def cutAtNull (bytes : List UInt8) : List (List UInt8) := bytes.splitBy fun _ b => b != 0

/-- The variables of the environment, where the system shows them as a file. -/
def environment : IO Settings.Environment := do
  try
    let bytes ← IO.FS.readBinFile "/proc/self/environ"
    let entries := (cutAtNull bytes.data.toList).map fun e =>
      Text.Utf8.decodeLenient (e.filter (· != 0)).toArray
    return entries.map fun e =>
      let cs := e.toList
      (String.ofList (cs.takeWhile (· != '=')), String.ofList ((cs.dropWhile (· != '=')).drop 1))
  catch _ => return []

/-- How many processors there are, where the system shows them as a file. -/
def processors : IO Nat := do
  try
    let lines := Text.split "\n" (← IO.FS.readFile "/proc/cpuinfo")
    return max 1 (lines.countP (·.startsWith "processor"))
  catch _ => return 1

/-- The present moment, in universal time. -/
def now : IO Moment := do
  let t ← Std.Time.Timestamp.now
  let d := Std.Time.PlainDateTime.ofWallTime
    (Std.Time.WallTime.ofNanoseconds t.toNanosecondsSinceUnixEpoch)
  return ⟨⟨d.year.toInt.toNat, d.month.val.toNat, d.day.val.toNat⟩, d.hour.val.toNat,
    d.minute.val.toNat, d.second.val.toNat, d.nanosecond.val.toNat / 1000, some 0⟩

/-! ## What a run yields -/

/-- How the program is used. -/
def usage : String :=
  textOf
    ["Usage: polyast [OPTIONS] COMMAND [ARGS]",
      "",
      "Options: --config FILE, --verbose, --quiet, --ci, --version, --help",
      "",
      "Commands:",
      "  analyze PATH [--sequential] [--max-concurrency N] [--json]",
      "  languages [--json]",
      "  init [--force]"]

/-- Writes the file of settings if a run has changed it. -/
def writeSettingsFile (before after : Files) : IO Unit := do
  let (directory, file) := settingsPlace
  match after.read file with
  | .error _ => return
  | .ok bytes =>
    if (before.read file).toOption != some bytes then
      IO.FS.createDirAll directory.text
      IO.FS.writeBinFile file.text ⟨bytes⟩

/-- Prints what an outcome says. -/
def Outcome.print : Outcome → IO Unit
  | .misused => IO.eprint usage
  | .helped => IO.print usage
  | .ended _ printed journal escape => do
    IO.eprint journal
    IO.print printed
    for e in escape do IO.eprintln e.message

end SyntaxForest.CommandLine

/-- **The program.** -/
def main (words : List String) : IO UInt32 := do
  let files ← SyntaxForest.CommandLine.filesFor words
  let (outcome, after) := SyntaxForest.CommandLine.run
    { files
      environment := ← SyntaxForest.CommandLine.environment
      grammars := ⟨fun _ => some .notInstalled, fun _ _ => none⟩
      now := ← SyntaxForest.CommandLine.now
      processors := ← SyntaxForest.CommandLine.processors }
    words
  outcome.print
  SyntaxForest.CommandLine.writeSettingsFile files after
  return UInt32.ofNat outcome.exitCode
