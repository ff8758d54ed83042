import FrontEnd.CommandLine.Report

/-!
The program: reads the source text and writes the report.
-/

namespace FrontEnd.CommandLine

/-- Everything that is left on a stream. -/
partial def readToEnd (stream : IO.FS.Stream) (before : ByteArray) : IO ByteArray := do
  let chunk ← stream.read 65536
  if chunk.isEmpty then return before else readToEnd stream (before ++ chunk)

/-- Reads the text of an origin. -/
def readOrigin (origin : Origin) : IO (Except ReadError String) := do
  try
    match origin with
    | .standardInput => return decode (← readToEnd (← IO.getStdin) ByteArray.empty)
    | .file path => return decode (← IO.FS.readBinFile path)
  catch
    | .noFileOrDirectory .. => return .error .missing
    | .inappropriateType _ code _ =>
      -- The system's code for a directory; some calls give it with its sign turned.
      return .error (if code = 21 || -code = 21 then .directory else .notDirectory)
    | error => return .error (.other (toString error))

end FrontEnd.CommandLine

def main (words : List String) : IO UInt32 := do
  let report ← FrontEnd.CommandLine.run FrontEnd.CommandLine.readOrigin words
  IO.print report.output
  for line in report.errorLines do
    IO.eprintln line
  return report.exitCode.toUInt32
