import HostPattern.FileTree.Listing
import HostPattern.Run

/-!
The command.  A directory is looked up in the listing that standard input holds,
where paths begin in the working directory or at the root.
-/

namespace HostPattern

open Text

def environment (name : String) : IO (Option Bytes) := do
  return (← IO.getEnv name).map Utf8.encode

def contents (path : String) : IO (Option Bytes) := do
  try
    return some (← IO.FS.readBinFile path).data.toList
  catch _ =>
    return none

/-- The name that the system call tells, which the kernel shows with a line feed. -/
def systemName : IO (Option Bytes) := do
  return (← contents "/proc/sys/kernel/hostname").map fun text =>
    if text.getLast? = some 0x0A then text.dropLast else text

def listedTree (arguments : List Bytes) : IO FileTree := do
  match CommandLine.read arguments with
  | .ok { dir := some _, .. } =>
    let listing ← (← IO.getStdin).readBinToEnd
    let working ← IO.currentDir
    return FileTree.ofListing (Utf8.encode working.toString) listing.data.toList
  | _ => return FileTree.empty

def currentDisplay : IO Display := do
  return {
    term := ← environment "TERM"
    noColor := ← environment "NO_COLOR"
    cliColor := ← environment "CLICOLOR"
    cliColorForce := ← environment "CLICOLOR_FORCE"
    ci := ← environment "CI"
    columns := ← environment "COLUMNS" }

def currentSetting (arguments : List Bytes) : IO Setting := do
  let display ← currentDisplay
  return {
    tree := ← listedTree arguments
    sources := {
      computerName := ← environment "COMPUTERNAME"
      kernelFile := ← contents "/proc/sys/kernel/hostname"
      etcFile := ← contents "/etc/hostname"
      systemCall := ← systemName
      hostName := ← environment "HOSTNAME" }
    display := display
    sink := if ← (← IO.getStdout).isTty then .terminal (display.width .pipe) else .pipe
    errorsOnTerminal := ← (← IO.getStderr).isTty }

/-- Writes what a run leaves behind.  If standard output refuses it, the run is the
one in which every write fails. -/
def carryOut (arguments : List Bytes) (setting : Setting) : IO UInt32 := do
  match run arguments setting with
  | none =>
    IO.eprintln "The range is too wide to be written"
    return 101
  | some outcome =>
    let outcome ←
      try
        let stdout ← IO.getStdout
        stdout.putStr outcome.stdout
        stdout.flush
        pure outcome
      catch _ =>
        pure ((run arguments { setting with sink := .full }).getD outcome)
    IO.eprint outcome.stderr
    return outcome.exit.toUInt32

end HostPattern

/-- Tells which names a pattern accepts, or which folders of a directory accept a name. -/
def main (arguments : List String) : IO UInt32 := do
  let bytes := arguments.map HostPattern.Text.Utf8.encode
  HostPattern.carryOut bytes (← HostPattern.currentSetting bytes)
