import TreeScript.Value

/-!
# Functions of the host

A host function sees the running program only through what it does with its
arguments: it answers, fails, or calls a value and goes on with the result.

* `Script` — what a host function does
* `Native` — a host function with its name and arity
* `Native.clock`, `Native.add`, … — the host functions that come with the library
-/

namespace TreeScript

/-- What a host function does: it answers, fails with a message, or calls a value
and goes on with the result or with the message of the failure. -/
inductive Script where
  | answer (value : Value)
  | fail (message : String)
  | call (callee : Value) (arguments : List Value) (next : Except String Value → Script)

/-- A function of the host. -/
structure Native where
  name : String
  arity : Arity
  body : List Value → Script

/-- Ends a host function with the result of a call. -/
def Script.ofResult : Except String Value → Script
  | .ok value => .answer value
  | .error message => .fail message

namespace Native

/-- The number of seconds since 1970, as the host gives it. -/
def clock (now : Float) : Native :=
  { name := "clock", arity := .fixed 0, body := fun _ => .answer (.number now) }

/-- The sum of two numbers. -/
def add : Native :=
  { name := "add"
    arity := .fixed 2
    body := fun arguments =>
      match arguments with
      | [.number a, .number b] => .answer (.number (a + b))
      | _ => .fail "add expects numbers." }

/-- The number of its arguments, of which it takes as many as the host says. -/
def argumentCount : Native :=
  { name := "argc"
    arity := .dynamic
    body := fun arguments => .answer (.number (Float.ofNat arguments.length)) }

/-- Fails with the text of its argument. -/
def failing : Native :=
  { name := "fail"
    arity := .fixed 1
    body := fun arguments => .fail ((arguments.head?.map Value.text).getD "") }

/-- Answers its argument. -/
def identity : Native :=
  { name := "id"
    arity := .fixed 1
    body := fun arguments => .answer (arguments.head?.getD .nil) }

/-- Calls its first argument with its second one, whatever number of arguments the
first one takes. -/
def apply : Native :=
  { name := "apply"
    arity := .fixed 2
    body := fun arguments =>
      match arguments with
      | callee :: rest =>
        if callee.isCallable then .call callee (rest.take 1) Script.ofResult
        else .fail "not callable"
      | [] => .fail "not callable" }

/-- The host functions that a script can be given by name. -/
def standard : List Native :=
  [add, argumentCount, failing, identity, apply]

end Native

end TreeScript
