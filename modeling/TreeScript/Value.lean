import TreeScript.Text.Quoted
import TreeScript.Tree
import Std.Data.TreeMap

/-!
# Values

* `Value` — what an expression evaluates to
* `Value.isTruthy`, `Value.same` — truth and equality
* `Value.text` — how a value is printed
* `Value.inspect` — how an object is shown with its members

Functions, classes, natives and instances are objects: each carries the number
that was given to it when it was made, and two of them are equal only if they are
the same object.
-/

namespace TreeScript

/-- The address of a scope. -/
abbrev ScopeRef := Nat

/-- The address of the fields of an instance. -/
abbrev InstanceRef := Nat

/-- How many arguments a native takes: a fixed number, or as many as its host says
at the time of the call. -/
inductive Arity where
  | fixed (count : Nat)
  | dynamic
  deriving DecidableEq, Repr

/-- A function together with the scope that it was made in. -/
structure Closure where
  identity : Nat
  declaration : FunctionDecl
  scope : ScopeRef

/-- A class: its methods by name, and the scope that it was made in. -/
structure ClassObject where
  identity : Nat
  name : String
  methods : Std.TreeMap String FunctionDecl
  scope : ScopeRef

/-- A function of the host.  Its identity is its place in the host's table. -/
structure NativeRef where
  identity : Nat
  name : String
  arity : Arity

/-- What an expression evaluates to. -/
inductive Value where
  | nil
  | bool (value : Bool)
  | number (value : Float)
  | string (value : String)
  | function (closure : Closure)
  | native (native : NativeRef)
  | classObject (object : ClassObject)
  | object (address : InstanceRef) (ofClass : ClassObject)

namespace Value

/-! ## Truth and equality -/

/-- Only `nil` and `false` are not true. -/
def isTruthy : Value → Bool
  | nil => false
  | bool value => value
  | _ => true

/-- Equality without conversion.  Numbers compare as binary64, so what is not a
number differs from itself; objects compare by identity. -/
def same : Value → Value → Bool
  | nil, nil => true
  | bool a, bool b => a == b
  | number a, number b => a == b
  | string a, string b => a == b
  | function a, function b => a.identity == b.identity
  | native a, native b => a.identity == b.identity
  | classObject a, classObject b => a.identity == b.identity
  | object a _, object b _ => a == b
  | _, _ => false

/-- Whether a value can be called. -/
def isCallable : Value → Bool
  | function _ | native _ | classObject _ => true
  | _ => false

/-- The value of a constant. -/
def ofConstant : Constant → Value
  | .nil => nil
  | .bool value => bool value
  | .number value => number value
  | .string value => string value

/-! ## Text -/

/-- How a value is printed. -/
def text : Value → String
  | nil => "nil"
  | bool value => if value then "true" else "false"
  | number value => Number.text value
  | string value => value
  | function closure => "<fn " ++ closure.declaration.displayName ++ ">"
  | native host => "<native fn " ++ host.name ++ ">"
  | classObject cls => "<class " ++ cls.name ++ ">"
  | object _ ofClass => "<instance of " ++ ofClass.name ++ ">"

/-- The arity of a native as it is shown. -/
def arityText : Arity → String
  | .fixed count => "Fixed(" ++ toString count ++ ")"
  | .dynamic => "Dynamic"

/-- How an object is shown with its members: the methods of a class, the fields of
an instance.  Values that are not objects have no members to show. -/
def inspect? (fieldNames : InstanceRef → List String) : Value → Option String
  | function closure => some ("<fn " ++ closure.declaration.displayName ++ ">")
  | native host =>
    some ("<native fn " ++ host.name ++ " " ++ arityText host.arity ++ ">")
  | classObject cls =>
    some ("<class " ++ cls.name ++ " " ++ quotedList cls.methods.keys ++ ">")
  | object address ofClass =>
    some ("<instance of " ++ ofClass.name ++ " " ++ quotedList (fieldNames address) ++ ">")
  | _ => none

end Value

end TreeScript
