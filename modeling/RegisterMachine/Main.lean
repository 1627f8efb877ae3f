import RegisterMachine.Shell.Folder
import RegisterMachine.Shell.Simulation

/-!
The command line. Children run inside this process, on simulated time.
-/

namespace RegisterMachine.Main

/-- Whether an error says that a name is too long. Some calls give the negated number of an error. -/
def isTooLong : IO.Error → Bool
  | .invalidArgument _ code _ => code = 36 || code = -36
  | _ => false

/-- The text of a file, or why it cannot be read. -/
def readSource (path : String) : IO (Except String String) := do
  try
    match String.fromUTF8? (← IO.FS.readBinFile path) with
    | some text => return .ok text
    | none => return .error Folder.Trouble.notText.message
  catch
    | .noFileOrDirectory .. => return .error Folder.Trouble.missing.message
    | .inappropriateType (some _) .. => return .error Folder.Trouble.notFolder.message
    | .inappropriateType none .. => return .error Folder.Trouble.isFolder.message
    | e => return .error (if isTooLong e then Folder.Trouble.tooLong.message else toString e)

/-- Writes to both streams at once. -/
def write (outText errText : String) : IO Unit := do
  let stream ← IO.getStdout
  stream.putStr outText
  stream.flush
  IO.eprint errText

/-- Moves one member after the other, writes what they show and lets their waits take their time. -/
partial def drive (files : Files) (s : Simulation) : IO Nat := do
  match s.status, s.next? with
  | some status, _ => return status
  | none, none => return 1
  | none, some (time, m) =>
    match m.course.phase with
    | .looping => pure ()
    | _ => IO.sleep (min (time - s.now) 0xFFFFFFFF).toUInt32
    let next := s.move files time m
    write next.outText next.errText
    drive files { next with outText := "", errText := "" }

def run (arguments : List String) : IO Nat := do
  let terminal : Colors := ⟨← (← IO.getStdout).isTty, ← (← IO.getStderr).isTty⟩
  let content ←
    match Arguments.parse arguments with
    | .ok a => readSource a.file
    | .error _ => pure (.ok "")
  let files : Files := fun _ => content
  drive files (.start files terminal none arguments)

end RegisterMachine.Main

def main (arguments : List String) : IO UInt32 := do
  return (← RegisterMachine.Main.run arguments).toUInt32
