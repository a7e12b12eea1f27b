/-!
# The arguments of a call

* `Argument` — one argument, or an option with its value
* `Command`, `Invocation` — what a call asks for
* `Invocation.ofArguments?` — the call that arguments describe

A command is a word and the file that it needs.  Options stand before the command or
behind it, at most once at each place; of two values the one behind counts.
-/

namespace TreeScript

/-! ## Single arguments -/

/-- One argument, or an option with its value. -/
inductive Argument where
  | log
  | config (path : String)
  | operand (word : String)
  | endOfOptions
  deriving DecidableEq, Repr

namespace Argument

/-- Whether an argument is an option. -/
def isOption : Argument → Bool
  | log | config _ => true
  | operand _ | endOfOptions => false

/-- The word that an operand is. -/
def word? : Argument → Option String
  | operand word => some word
  | _ => none

/-- The path that names a lexicon. -/
def configPath? : Argument → Option String
  | config path => some path
  | _ => none

/-- Whether a word can be an operand or a value where options are told from operands:
it is not empty, and only the lone dash starts with a dash. -/
def isPlain (word : String) : Bool :=
  word == "-" || (word != "" && word.toList.head? != some '-')

/-- The value of an option that is written together with its name. -/
def joinedConfig? (word : String) : Option String :=
  let name := "--config="
  if name.toList.isPrefixOf word.toList then
    some (String.ofList (word.toList.drop name.length))
  else none

/-- Reads words as arguments.  Behind two dashes every word is an operand. -/
def readAll? : List String → Option (List Argument)
  | [] => some []
  | "--" :: rest => some (endOfOptions :: rest.map operand)
  | "--log" :: rest => (readAll? rest).map (log :: ·)
  | "--config" :: path :: rest =>
    if isPlain path then (readAll? rest).map (config path :: ·) else none
  | word :: rest =>
    match joinedConfig? word with
    | some path => if path = "" then none else (readAll? rest).map (config path :: ·)
    | none => if isPlain word then (readAll? rest).map (operand word :: ·) else none

end Argument

/-! ## Calls -/

/-- What the program is asked to do. -/
inductive Command where
  | tokenize (file : String)
  | tree (file : String)
  | rpn (file : String)
  | run (file : String)
  | interactive
  deriving DecidableEq, Repr

/-- The command that operands name.  No file has the empty name. -/
def Command.ofWords? : List String → Option Command
  | ["repl"] => some .interactive
  | [_, ""] => none
  | ["tokenize", file] => some (.tokenize file)
  | ["parse", file] => some (.tree file)
  | ["rpn", file] => some (.rpn file)
  | ["run", file] => some (.run file)
  | _ => none

/-- The options at one place of a call. -/
structure Options where
  log : Bool
  config : Option String
  deriving DecidableEq, Repr

/-- The options among arguments, unless one is given twice. -/
def Options.of? (arguments : List Argument) : Option Options :=
  match arguments.count .log, arguments.filterMap Argument.configPath? with
  | 0, [] => some { log := false, config := none }
  | 0, [path] => some { log := false, config := some path }
  | 1, [] => some { log := true, config := none }
  | 1, [path] => some { log := true, config := some path }
  | _, _ => none

/-- A command with the lexicon that it uses.  Asking for a log changes nothing that is
printed. -/
structure Invocation where
  command : Command
  config : Option String
  deriving DecidableEq, Repr

/-- The invocation that arguments describe. -/
def Invocation.ofArguments? (words : List String) : Option Invocation := do
  let arguments ← Argument.readAll? words
  let front := arguments.takeWhile Argument.isOption
  match arguments.dropWhile Argument.isOption with
  | .operand name :: behind =>
    let outer ← Options.of? front
    let inner ← Options.of? behind
    let command ← Command.ofWords? (name :: behind.filterMap Argument.word?)
    return { command, config := inner.config.or outer.config }
  | _ => none

/-- The files that a call may read. -/
def Invocation.files (invocation : Invocation) : List String :=
  invocation.config.toList ++
    match invocation.command with
    | .tokenize file | .tree file | .rpn file | .run file => [file]
    | .interactive => []

end TreeScript
