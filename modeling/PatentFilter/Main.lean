import PatentFilter.CommandLine

/-!
# The program

Files are read while the run goes on; what is printed depends on their texts alone.
-/

namespace PatentFilter

/-- The number of a system fault, which may be reported with its sign turned. -/
def faultNumber (code : UInt32) : Nat :=
  if code < 0x80000000 then code.toNat else (0 - code).toNat

def readFault : IO.Error → ReadFault
  | .noFileOrDirectory .. => .notFound
  | .inappropriateType _ code details => .ofCode details (faultNumber code)
  | .permissionDenied _ code details => .ofCode details (faultNumber code)
  | .invalidArgument _ code details => .ofCode details (faultNumber code)
  | .noSuchThing _ code details => .ofCode details (faultNumber code)
  | e => .other (toString e) 0

def readText (path : String) : IO (Except ReadFault String) := do
  match ← (IO.FS.readBinFile path).toBaseIO with
  | .ok octets => return (FileNode.file octets).text
  | .error e => return .error (readFault e)

def printOutcome (o : Outcome) : IO UInt32 := do
  (← IO.getStdout).putStr o.stdout
  if let some report := o.report then (← IO.getStderr).putStr report.text
  return o.exitCode.toUInt32

end PatentFilter

def main (args : List String) : IO UInt32 := do
  PatentFilter.printOutcome (← PatentFilter.CommandLine.execute PatentFilter.readText args)
