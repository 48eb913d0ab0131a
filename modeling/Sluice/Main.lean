import Sluice.CommandLine.Program

/-
  The program in its real surroundings: the files of the system and the standard input.
-/

namespace Sluice

/-- Adds bytes to a file of the system. -/
def appendFile (path : String) (bs : Bytes) : IO Bool :=
  try
    let handle ← IO.FS.Handle.mk path .append
    handle.write ⟨bs.toArray⟩
    handle.flush
    pure true
  catch _ => pure false

/-- Reads a file of the system. -/
def readFile (path : String) : IO (Option Bytes) :=
  try
    return some (← IO.FS.readBinFile path).toList
  catch _ => pure none

/-- Reads a stream to its end. -/
partial def readStream (s : IO.FS.Stream) (sofar : ByteArray) : IO ByteArray := do
  let bs ← s.read 65536
  if bs.isEmpty then pure sofar else readStream s (sofar ++ bs)

/-- The surroundings of a process. -/
def system : CommandLine.Surroundings IO where
  append := appendFile
  contents := readFile
  input := do return (← readStream (← IO.getStdin) .empty).toList

end Sluice

/-- Runs the program. -/
def main (args : List String) : IO UInt32 := do
  let report ← Sluice.CommandLine.run Sluice.system args
  let out ← IO.getStdout
  out.write ⟨report.output.toArray⟩
  out.flush
  return report.exitCode.toUInt32
