import Highlight.CommandLine.Run

/-! The program: reads files and standard input, prints, and exits. -/
namespace Highlight.CommandLine

/-- Why a file cannot be read. -/
def reasonOf : IO.Error → String
  | .noFileOrDirectory .. => "No such file or directory (os error 2)"
  | e => toString e

/-- A text that is read as a whole. -/
def decode (bytes : ByteArray) : Except String String :=
  match String.fromUTF8? bytes with
  | some text => .ok text
  | none => .error "stream did not contain valid UTF-8"

/-- Read bytes as text, unless they cannot be had. -/
def readText (bytes : IO ByteArray) : IO (Except String String) := do
  try return decode (← bytes)
  catch e => return .error (reasonOf e)

def readSource (path : String) : IO (Except String String) :=
  readText (if path = "-" then do (← IO.getStdin).readBinToEnd else IO.FS.readBinFile path)

/-- A configuration file is looked for under its name, then with its usual ending. -/
def readConfiguration (path : String) : IO (Option String) := do
  for candidate in [path,path ++ ".toml"] do
    if let .ok text ← readText (IO.FS.readBinFile candidate) then
      return some text
  return none

end Highlight.CommandLine

open Highlight.CommandLine in
def main (args : List String) : IO UInt32 := do
  let output ← run { configuration := readConfiguration, source := readSource } args
  (← IO.getStdout).putStr output.stdout
  (← IO.getStderr).putStr output.stderr
  return output.code.toUInt32
