import Guardedness.CommandLine.Options

/-!
# The program

The command line in its real surroundings: the disk, the standard input and the two outputs.
-/

namespace Guardedness

namespace CommandLine

/-- Look up a file on disk. -/
def diskEntry (path : String) : IO Entry := do
  if ← (System.mkFilePath [path]).pathExists then
    try
      match String.fromUTF8? (← IO.FS.readBinFile path) with
      | some text => return .file text
      | none => return .unreadable
    catch _ => return .unreadable
  else return .missing

/-- Read bytes from a stream up to a line feed, with it, or to the end. -/
partial def readLineFrom (stream : IO.FS.Stream) (line : ByteArray) : IO ByteArray := do
  let byte ← stream.read 1
  if byte.isEmpty || byte[0]? == some 10 then return line ++ byte
  else readLineFrom stream (line ++ byte)

def realSurroundings : Surroundings IO where
  entry := diskEntry
  readLine := do readLineFrom (← IO.getStdin) .empty
  print s := do
    let out ← IO.getStdout
    out.putStr s
    out.flush
  complain s := do
    let err ← IO.getStderr
    err.putStr s

end CommandLine

end Guardedness

def main (args : List String) : IO UInt32 :=
  Guardedness.CommandLine.run Guardedness.CommandLine.libraries
    Guardedness.CommandLine.realSurroundings default args
