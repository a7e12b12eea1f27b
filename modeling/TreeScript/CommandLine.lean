import TreeScript.CommandLine.Arguments
import TreeScript.CommandLine.Files
import TreeScript.Lexicon.Json
import TreeScript.Session
import TreeScript.Tree.PostfixText

/-!
# The command line

What a call of the program prints, as a function of its arguments, the files it
reads and its standard input.

* `Transcript` — exit status and printed text
* `Invocation.perform` — what a call does
* `runLines` — one line after the other in one session
-/

namespace TreeScript

/-! ## Transcripts -/

/-- What a call leaves behind. -/
structure Transcript where
  exit : Nat
  stdout : ByteArray
  stderr : String

/-- The transcript of a call that prints one text and ends well. -/
def Transcript.success (text : String) : Transcript :=
  { exit := 0, stdout := text.toUTF8, stderr := "" }

/-- Lines of text. -/
def lines (texts : List String) : String :=
  String.join (texts.map (fun text => text ++ "\n"))

/-- The lines that show diagnostics. -/
def diagnosticLines (diagnostics : List Diagnostic) : String :=
  lines (diagnostics.map Diagnostic.text)

/-- Why a call cannot start. -/
inductive SetupFault where
  | unreadable (path : String) (fault : ReadFault)
  | notText (path : String)
  | badConfig (path : String) (fault : BlobFault)

/-- The wording of an error with its cause. -/
def causedBy (context cause : String) : String :=
  "Error: " ++ context ++ "\n\nCaused by:\n    " ++ cause ++ "\n"

/-- The wording of a refused lexicon. -/
def BlobFault.message : BlobFault → String
  | malformed => "malformed JSON"
  | truncated => "unexpected end of JSON"
  | mistyped => "JSON of the wrong shape"

/-- What is said about bytes that are no text. -/
def notTextMessage : String := "stream did not contain valid UTF-8"

/-- The wording of a call that cannot start. -/
def SetupFault.message : SetupFault → String
  | unreadable path fault =>
    let attempt := if fault.isOpened then "read" else "open"
    causedBy ("Failed to " ++ attempt ++ " file " ++ quoted path) fault.message
  | notText path => causedBy ("Failed to read file " ++ quoted path) notTextMessage
  | badConfig path fault =>
    causedBy ("Invalid config " ++ quoted path)
      ("Invalid configuration: " ++ fault.message)

/-- The transcript of a call that cannot start. -/
def SetupFault.transcript (fault : SetupFault) : Transcript :=
  { exit := 1, stdout := .empty, stderr := fault.message }

/-! ## Files -/

/-- The text of a file. -/
def readText (files : Files) (path : String) : Except SetupFault String :=
  match files path with
  | .error fault => .error (.unreadable path fault)
  | .ok bytes =>
    match String.fromUTF8? bytes with
    | some text => .ok text
    | none => .error (.notText path)

/-- The lexicon that a call uses. -/
def readLexicon (files : Files) : Option String → Except SetupFault Lexicon
  | none => .ok Lexicon.standard
  | some path => do
    let text ← readText files path
    match Lexicon.ofJson text with
    | .ok lexicon => .ok lexicon
    | .error fault => .error (.badConfig path fault)

/-! ## Commands -/

/-- More fuel than a program can use up in practice. -/
def ampleFuel : Nat := powerOfTwo 62

/-- Lists the tokens of a source. -/
def listTokens (lexicon : Lexicon) (source : String) : Transcript :=
  let found := scan lexicon source
  let diagnostics := diagnosticsOf found
  { exit := if diagnostics.isEmpty then 0 else 65
    stdout := (lines ((tokensOf found).map Token.text)).toUTF8
    stderr := diagnosticLines diagnostics }

/-- Shows the statements of a source, each by `show?` unless that shows nothing.  A
source with faults is not shown. -/
def listStatements (lexicon : Lexicon) (source : String) (show? : Stmt → Option String) :
    Transcript :=
  let program := Session.read lexicon source 0
  if program.diagnostics.isEmpty then
    .success (lines (program.statements.filterMap show?))
  else
    { exit := 65, stdout := .empty, stderr := diagnosticLines program.diagnostics }

/-- What a broken scope leaves behind. -/
def brokenTranscript (session : Session) (cause : BrokenScope) (stderr : String) :
    Transcript :=
  { exit := 101, stdout := session.printed, stderr := stderr ++ lines [cause.message] }

/-- Runs a source in a fresh session. -/
def runSource (lexicon : Lexicon) (now : Float) (source : String) : Transcript :=
  match (Session.create lexicon .unlimited now).run ampleFuel source with
  | (session, .reported report) =>
    { exit := report.exitCode
      stdout := session.printed
      stderr := diagnosticLines report.diagnostics }
  | (session, .broken cause) => brokenTranscript session cause ""
  | (session, .outOfFuel) => { exit := 70, stdout := session.printed, stderr := "" }

/-! ## The interactive loop -/

/-- Prints a text to the print target of a session. -/
def Session.print (session : Session) (text : String) : Session :=
  let machine := session.interpreter.machine
  session.withMachine { machine with sink := (machine.sink.write text).1 }

/-- Forgets what was printed, once it was handed on. -/
def Session.forgetPrinted (session : Session) : Session :=
  let machine := session.interpreter.machine
  session.withMachine { machine with sink := { machine.sink with printed := .empty } }

/-- What asks for a line. -/
def prompt : String := "> "

/-- What one line leaves behind: the session to go on with and what it says about
faults, or the end of the loop. -/
inductive LineEnd where
  | next (session : Session) (stderr : String)
  | stop (transcript : Transcript)

/-- Runs one line; a value is shown after an arrow. -/
def runLine (session : Session) (line : ByteArray) : LineEnd :=
  match String.fromUTF8? line with
  | none =>
    .stop { exit := 1
            stdout := session.printed
            stderr := "Error: " ++ notTextMessage ++ "\n" }
  | some source =>
    match session.run ampleFuel source with
    | (session, .reported report) =>
      let session :=
        match report.value with
        | some value => session.print ("=> " ++ value.text ++ "\n")
        | none => session
      .next session (diagnosticLines report.diagnostics)
    | (session, .broken cause) => .stop (brokenTranscript session cause "")
    | (session, .outOfFuel) =>
      .stop { exit := 70, stdout := session.printed, stderr := "" }

/-- Runs lines one after the other in one session, asking for each and for the end. -/
def runLines (session : Session) (stderr : String) : List ByteArray → Transcript
  | [] => { exit := 0, stdout := (session.print prompt).printed, stderr }
  | line :: rest =>
    match runLine (session.print prompt) line with
    | .next session more => runLines session (stderr ++ more) rest
    | .stop transcript => { transcript with stderr := stderr ++ transcript.stderr }

/-- The lines of a byte sequence, each with the newline that ends it. -/
def byteLines (bytes : List UInt8) (line : List UInt8) : List (List UInt8) :=
  match bytes with
  | [] => if line.isEmpty then [] else [line.reverse]
  | b :: rest =>
    if b = 10 then (b :: line).reverse :: byteLines rest [] else byteLines rest (b :: line)

/-! ## Calls -/

/-- What a call does once its lexicon is read. -/
def Command.perform (files : Files) (stdin : ByteArray) (now : Float) (lexicon : Lexicon) :
    Command → Except SetupFault Transcript
  | .tokenize file => do return listTokens lexicon (← readText files file)
  | .tree file => do
    return listStatements lexicon (← readText files file) (fun s => some s.prefixText)
  | .rpn file => do
    return listStatements lexicon (← readText files file) Stmt.postfixText?
  | .run file => do return runSource lexicon now (← readText files file)
  | .interactive =>
    return runLines (Session.create lexicon .unlimited now) ""
      ((byteLines stdin.toList []).map (fun line => ⟨line.toArray⟩))

/-- What a call does.  The lexicon is read before anything else. -/
def Invocation.perform (invocation : Invocation) (files : Files) (stdin : ByteArray)
    (now : Float) : Transcript :=
  let result := do
    let lexicon ← readLexicon files invocation.config
    invocation.command.perform files stdin now lexicon
  match result with
  | .ok transcript => transcript
  | .error fault => fault.transcript

end TreeScript
