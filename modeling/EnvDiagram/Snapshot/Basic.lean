import EnvDiagram.Decimal.Shortest

/-!
# Snapshots of a running program

A snapshot is what an interpreter hands over after a step: its lexical environments, a
heap of identified objects, and the environment of the running code. Identity is
explicit: two variables that hold the same `DatumId` denote the same object.
-/

namespace EnvDiagram

/-- Names an environment. -/
structure EnvId where
  val : Nat
deriving DecidableEq, Repr, Inhabited

/-- Names an object of the heap. -/
structure DatumId where
  val : Nat
deriving DecidableEq, Repr, Inhabited

/-- How an environment is called in messages. -/
def EnvId.text (e : EnvId) : String := "env#" ++ toString e.val

/-- How an object is called in messages. -/
def DatumId.text (d : DatumId) : String := "obj#" ++ toString d.val

/-! ## Data -/

/-- Values without an identity. -/
inductive Primitive where
  | number (value : Float)
  | text (value : String)
  | bool (value : Bool)
  | undefined

/-- A number as the program shows it: the shortest decimal, and zero without a sign. -/
def numberText (x : Float) : String :=
  if x == 0 then "0" else Decimal.plain x

/-- A primitive as the program shows it. -/
def Primitive.display : Primitive → String
  | .number x => numberText x
  | .text s => "\"" ++ s ++ "\""
  | .bool b => if b then "true" else "false"
  | .undefined => "undefined"

/-- What a variable or a cell of an array holds. -/
inductive Datum where
  | primitive (value : Primitive)
  /-- The empty list. -/
  | null
  | object (id : DatumId)

/-- A function value: parameters, body and the environment that it closes over. -/
structure Closure where
  name : String
  params : List String
  body : String
  env : EnvId

/-- The parameters of a closure, with commas between them. -/
def Closure.paramList (c : Closure) : String := ", ".intercalate c.params

/-- A closure in one line, for where it cannot be drawn as a function. -/
def Closure.signature (c : Closure) : String := c.name ++ "(" ++ c.paramList ++ ")"

/-- What lives on the heap. -/
inductive HeapObject where
  | array (cells : List Datum)
  | closure (closure : Closure)

/-- The heap: its objects by identity, in the order in which they came. -/
abbrev Heap := List (DatumId × HeapObject)

namespace Heap

/-- The object of an identity. -/
def find? (heap : Heap) (id : DatumId) : Option HeapObject := heap.lookup id

/-- Adds an object, in place of an earlier one of the same identity. -/
def insert : Heap → DatumId → HeapObject → Heap
  | [], id, object => [(id, object)]
  | (d, o) :: rest, id, object =>
    if d = id then (id, object) :: rest else (d, o) :: insert rest id object

@[simp]
theorem find?_insert_self (heap : Heap) (id : DatumId) (object : HeapObject) :
    (heap.insert id object).find? id = some object := by
  induction heap with
  | nil => simp [insert, find?]
  | cons entry rest ih =>
    obtain ⟨d, o⟩ := entry
    by_cases h : d = id
    · simp [insert, find?, h]
    · have hne : (id == d) = false := by simpa using Ne.symm h
      simp only [insert, h, if_false, find?, List.lookup_cons, hne]
      exact ih

end Heap

/-! ## Environments -/

/-- A name of an environment, without a value while it is declared but unassigned. -/
structure Variable where
  name : String
  value : Option Datum
  constant : Bool

/-- A lexical environment. -/
structure Environment where
  id : EnvId
  name : String
  parent : Option EnvId
  vars : List Variable

namespace Environment

/-- Whether the environment has names and none of them is assigned. -/
def onlyDeclares (env : Environment) : Bool :=
  !env.vars.isEmpty && env.vars.all fun v => v.value.isNone

end Environment

/-- The state of the interpreter at one step. -/
structure Snapshot where
  step : Nat
  /-- The environments in the order of their creation. -/
  envs : List Environment
  heap : Heap
  /-- The environment of the running code. -/
  current : Option EnvId

namespace Snapshot

/-- A snapshot without environments and objects. -/
def ofStep (step : Nat) : Snapshot := ⟨step, [], [], none⟩

/-- Adds an environment, which becomes the current one. -/
def addEnv (s : Snapshot) (env : Environment) : Snapshot :=
  { s with envs := s.envs ++ [env], current := some env.id }

/-- Adds an object to the heap. -/
def addObject (s : Snapshot) (id : DatumId) (object : HeapObject) : Snapshot :=
  { s with heap := s.heap.insert id object }

/-- The first environment of the given name. -/
def env? (s : Snapshot) (id : EnvId) : Option Environment :=
  s.envs.find? fun env => env.id = id

end Snapshot

end EnvDiagram
