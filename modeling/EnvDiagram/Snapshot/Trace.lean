import EnvDiagram.Snapshot.History

/-!
# Built-in traces

Snapshot sequences that stand in for an interpreter when the viewer is started without
one. Each shows another part of the layout: closures and their frames, linked and cyclic
arrays, shared data.
-/

namespace EnvDiagram.Trace

/-- The names of the built-in traces; the first is shown by default. -/
def names : List String := ["counter", "list", "shared"]

/-! ## Building blocks -/

/-- A whole number. -/
def number (n : Nat) : Datum := .primitive (.number (.ofNat n))

/-- A variable that holds a value. -/
def assigned (name : String) (value : Datum) : Variable := ⟨name, some value, false⟩

/-- A constant. -/
def constant (name : String) (value : Datum) : Variable := ⟨name, some value, true⟩

/-- A name without a value. -/
def declared (name : String) : Variable := ⟨name, none, false⟩

/-- An object of the heap. -/
def object (id : Nat) : Datum := .object ⟨id⟩

/-- A snapshot whose last environment is the current one. -/
def snapshot (step : Nat) (envs : List Environment) (heap : Heap) : Snapshot :=
  ⟨step, envs, heap, envs.getLast?.map Environment.id⟩

/-! ## A counter made by a closure -/

/-- The function that makes a counter. -/
def makeCounter : HeapObject := .closure
  { name := "make_counter"
    params := ["start"]
    body := "\x7b\n  let count = start;\n  function increment() \x7b\n    count = count + 1;\n    return count;\n  \x7d\n  return increment;\n\x7d"
    env := ⟨0⟩ }

/-- The counter itself. -/
def increment : HeapObject := .closure
  { name := "increment"
    params := []
    body := "\x7b\n  count = count + 1;\n  return count;\n\x7d"
    env := ⟨2⟩ }

/-- The environments of a call that makes a counter. -/
def counterCall (count : Variable) (bound : Bool) : List Environment :=
  [ ⟨⟨1⟩, "make_counter", some ⟨0⟩, [assigned "start" (number 5)]⟩,
    ⟨⟨2⟩, "make_counter body", some ⟨1⟩,
      [count, if bound then constant "increment" (object 2) else declared "increment"]⟩ ]

/-- The global environment of the counter program. -/
def counterGlobal (c : Variable) : Environment :=
  ⟨⟨0⟩, "global", none, [constant "make_counter" (object 1), c]⟩

/-- A counter is made and called. -/
def counter : List Snapshot :=
  let maker : Heap := [(⟨1⟩, makeCounter)]
  let both : Heap := [(⟨1⟩, makeCounter), (⟨2⟩, increment)]
  let five := assigned "count" (number 5)
  let six := assigned "count" (number 6)
  [ snapshot 0 [counterGlobal (declared "c")] maker,
    snapshot 1 (counterGlobal (declared "c") :: counterCall (declared "count") false) maker,
    snapshot 2 (counterGlobal (declared "c") :: counterCall five true) both,
    snapshot 3 (counterGlobal (constant "c" (object 2)) :: counterCall five true) both,
    snapshot 4 (counterGlobal (constant "c" (object 2)) :: counterCall six true ++
      [⟨⟨3⟩, "increment", some ⟨2⟩, []⟩]) both ]

/-! ## Linked lists that become cyclic -/

/-- The three pairs of a list with the given last tail. -/
def pairs (lastTail : Datum) : Heap :=
  [ (⟨10⟩, .array [number 1, object 11]),
    (⟨11⟩, .array [number 2, object 12]),
    (⟨12⟩, .array [number 3, lastTail]) ]

/-- The global environment of the list program. -/
def listGlobal (ys : Variable) : Environment :=
  ⟨⟨0⟩, "global", none, [constant "xs" (object 10), ys]⟩

/-- A list whose end is tied to its start, and a pair that holds itself. -/
def list : List Snapshot :=
  let ys := constant "ys" (object 20)
  [ snapshot 0 [listGlobal (declared "ys")] (pairs .null),
    snapshot 1 [listGlobal (declared "ys")] (pairs (object 10)),
    snapshot 2 [listGlobal ys] (pairs (object 10) ++ [(⟨20⟩, .array [.null, number 4])]),
    snapshot 3 [listGlobal ys] (pairs (object 10) ++ [(⟨20⟩, .array [object 20, number 4])]) ]

/-! ## Shared data -/

/-- A function of one line. -/
def addOne : HeapObject := .closure ⟨"a", ["x"], "x + 1", ⟨1⟩⟩

/-- The environments of the program that shares data. -/
def sharedEnvs (a b p q : Variable) : List Environment :=
  [ ⟨⟨0⟩, "global", none, [constant "greeting" (.primitive (.text "hello"))]⟩,
    ⟨⟨1⟩, "program", some ⟨0⟩, [a, b, p, q]⟩ ]

/-- A function and an array, each reached through two names. -/
def shared : List Snapshot :=
  let a := assigned "a" (object 1)
  let b := assigned "b" (object 1)
  let p := constant "p" (object 2)
  let q := constant "q" (object 2)
  [ snapshot 0 (sharedEnvs (declared "a") (declared "b") (declared "p") (declared "q")) [],
    snapshot 1 (sharedEnvs a (declared "b") (declared "p") (declared "q")) [(⟨1⟩, addOne)],
    snapshot 2 (sharedEnvs a b (declared "p") (declared "q")) [(⟨1⟩, addOne)],
    snapshot 3 (sharedEnvs a b p q)
      [(⟨1⟩, addOne), (⟨2⟩, .array [object 1, .primitive (.text "shared")])] ]

/-! ## Loading -/

/-- The snapshots of a named trace. -/
def named? : String → Option (List Snapshot)
  | "counter" => some counter
  | "list" => some list
  | "shared" => some shared
  | _ => none

/-- The history of a named trace under a memory limit, its cursor at the start; nothing
for an unknown name. -/
def load (name : String) (limit : Nat) : Except HistoryError (Option History) :=
  match named? name with
  | none => .ok none
  | some snapshots => ((History.ofLimit limit).pushAll snapshots).map fun h => some h.toStart

end EnvDiagram.Trace
