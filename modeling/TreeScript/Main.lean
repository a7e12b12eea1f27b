import Std.Time.DateTime.Timestamp
import TreeScript.CommandLine

/-!
# The program

Reads what a call needs, prints what `Invocation.perform` says, and in an
interactive call lets `runLine` answer each line as it comes.
-/

open TreeScript

/-- Seconds since 1970. -/
def secondsSinceEpoch : IO Float := do
  let now ← Std.Time.Timestamp.now
  return Float.ofInt (now.toNanosecondsSinceUnixEpoch.toInt / 1000) / 1000000

/-- Why a file could not be read. -/
def readFault : IO.Error → ReadFault
  | .permissionDenied .. => .denied
  | .inappropriateType _ code _ => if code = 21 then .folder else .notFolder
  | .invalidArgument .. => .nameTooLong
  | _ => .missing

/-- The contents of a file. -/
def readContents (path : String) : IO (Except ReadFault ByteArray) := do
  try
    return .ok (← IO.FS.readBinFile path)
  catch fault => return .error (readFault fault)

/-- The bytes of the next line with the newline that ends it; none at the end. -/
partial def readLine (input : IO.FS.Stream) (line : ByteArray) : IO ByteArray := do
  let next ← input.read 1
  if next.isEmpty then return line
  else if next.data.contains 10 then return line ++ next
  else readLine input (line ++ next)

/-- Asks for lines and answers them. -/
partial def converse (session : Session) : IO UInt32 := do
  let output ← IO.getStdout
  output.putStr prompt
  output.flush
  let line ← readLine (← IO.getStdin) .empty
  if line.isEmpty then return 0
  match runLine session line with
  | .next session diagnostics =>
    output.write session.printed
    (← IO.getStderr).putStr diagnostics
    converse session.forgetPrinted
  | .stop transcript =>
    output.write transcript.stdout
    (← IO.getStderr).putStr transcript.stderr
    return UInt32.ofNat transcript.exit

/-- What is said to a call that names no command. -/
def usage : String :=
  "Usage: (tokenize | parse | rpn | run) FILE | repl, with --config PATH and --log\n"

/-- Answers a call from its files. -/
def answerCall (invocation : Invocation) : IO UInt32 := do
  let found ← invocation.files.mapM (fun path => return (path, ← readContents path))
  let files : Files := fun path => (found.lookup path).getD (.error .missing)
  let now ← secondsSinceEpoch
  match invocation.command, readLexicon files invocation.config with
  | .interactive, .ok lexicon => converse (Session.create lexicon .unlimited now)
  | _, _ =>
    let transcript := invocation.perform files .empty now
    (← IO.getStdout).write transcript.stdout
    (← IO.getStderr).putStr transcript.stderr
    return UInt32.ofNat transcript.exit

/-- The program. -/
def main (arguments : List String) : IO UInt32 := do
  match Invocation.ofArguments? arguments with
  | some invocation => answerCall invocation
  | none =>
    (← IO.getStderr).putStr usage
    return 2
