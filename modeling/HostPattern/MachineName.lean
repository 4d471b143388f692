import HostPattern.Text.Blank
import HostPattern.Text.Utf8

/-!
The name of this machine: the first of several sources that gives a text which
is not all blank.
-/

namespace HostPattern

open Text

/-- What the system says about the machine's name, in the order in which it is asked.
An absent variable or file and a failing call say nothing. -/
structure NameSources where
  computerName : Option Bytes
  kernelFile : Option Bytes
  etcFile : Option Bytes
  systemCall : Option Bytes
  hostName : Option Bytes
  deriving DecidableEq, Repr

namespace NameSources

/-- The length of the field into which the system call writes the name. -/
def fieldLength : Nat := 256

/-- The name in a variable or a file, which has to be UTF-8. -/
def fromText (source : Option Bytes) : Option String := do
  let bytes ← source
  let text ← Utf8.decode? bytes
  nonBlank? text

/-- The name in the field of the system call, up to the first zero byte. -/
def fromField (source : Option Bytes) : Option String := do
  let bytes ← source
  nonBlank? (Utf8.decodeLossy ((bytes.take fieldLength).takeWhile (· != 0)))

def candidates (sources : NameSources) : List (Option String) :=
  [fromText sources.computerName, fromText sources.kernelFile, fromText sources.etcFile,
    fromField sources.systemCall, fromText sources.hostName]

def machineName? (sources : NameSources) : Option String :=
  sources.candidates.findSome? id

end NameSources

end HostPattern
