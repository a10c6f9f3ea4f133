import Std.Time.DateTime.Timestamp
import Std.Time.DateTime.PlainDateTime
import Immutability.Command.Run

/-! The program: the files of the system, the clock, and the entry point. -/

namespace Immutability

/-- A failure of the system as a cause. Its code tells the common ones. -/
def FileError.ofSystem (e : IO.Error) : FileError :=
  match e with
  | .noFileOrDirectory _ _ _ => .notFound
  | .noSuchThing _ code details | .inappropriateType _ code details
  | .permissionDenied _ code details | .resourceExhausted _ code details
  | .invalidArgument _ code details =>
    -- some calls give the code of an error negated
    let code := if code < 0x80000000 then code else 0 - code
    if code = 2 then .notFound
    else if code = 20 then .notFolder
    else if code = 21 then .isFolder
    else .other (details ++ " (os error " ++ toString code.toNat ++ ")")
  | .userError text => if text.startsWith "Tried to read file" then .notText else .other text
  | e => .other (toString e)

/-- Runs an action and gives its failure as a value. -/
def attempt {α : Type} (act : IO α) : IO (Except FileError α) := do
  try return .ok (← act)
  catch e => return .error (.ofSystem e)

/-- The files below a folder, as lists of steps from there on. Links are not followed. -/
partial def listFolder (path : String) : IO (List (List String)) := do
  let mut found := []
  for entry in ← (← IO.FS.realPath path).readDir do
    match (← entry.path.symlinkMetadata).type with
    | .dir => found := found ++ (← listFolder entry.path.toString).map (entry.fileName :: ·)
    | .file => found := found ++ [[entry.fileName]]
    | _ => pure ()
  return found

/-- The files at and below a path, as lists of steps from there on. -/
def listFiles (path : String) : IO (List (List String)) := do
  match (← (← IO.FS.realPath path).metadata).type with
  | .dir => listFolder path
  | .file => return [[]]
  | _ => return []

/-- What stands at a path, if anything does. -/
def kindAt (path : String) : IO (Option IO.FS.FileType) := do
  try return some (← (← IO.FS.realPath path).metadata).type
  catch _ => return none

instance : Files IO where
  read path := attempt (IO.FS.readFile path)
  write path text := attempt (IO.FS.writeFile path text)
  present path := return (← kindAt path).isSome
  isFolder path := return (← kindAt path) == some .dir
  filesBelow path := do
    try listFiles path catch _ => return []

/-- A number in base ten with zeros in front, in so many places. -/
def padded (places n : Nat) : String :=
  let digits := toString n
  String.ofList (List.replicate (places - digits.length) '0') ++ digits

/-- The time in universal time, to the nanosecond. -/
def timeText (t : Std.Time.Timestamp) : String :=
  let time := Std.Time.PlainDateTime.ofWallTime (.ofDuration t.toDurationSinceUnixEpoch)
  padded 4 time.year.toInt.toNat ++ "-" ++ padded 2 time.month.val.toNat ++ "-"
    ++ padded 2 time.day.val.toNat ++ "T" ++ padded 2 time.hour.val.toNat ++ ":"
    ++ padded 2 time.minute.val.toNat ++ ":" ++ padded 2 time.second.val.toNat ++ "."
    ++ padded 9 time.nanosecond.val.toNat ++ "+00:00"

end Immutability

open Immutability in
/-- Runs the command line. -/
def main (args : List String) : IO UInt32 := do
  let color := showsColor (← IO.getEnv "CLICOLOR_FORCE") (← IO.getEnv "NO_COLOR")
    (← IO.getEnv "CLICOLOR") (← (← IO.getStdout).isTty)
  let outcome ← runLine ⟨color, timeText (← Std.Time.Timestamp.now)⟩ args
  IO.eprint outcome.stderr
  IO.print outcome.stdout
  return outcome.status
