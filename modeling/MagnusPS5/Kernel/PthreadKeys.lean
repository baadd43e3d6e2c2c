/-
Thread-specific data (`PthreadKeys` in `pthread.cpp`).

`Destruct` runs when a thread ends. A round collects the values of the thread under the lock,
puts null in their place, and calls the destructors without the lock, so that anything can
happen to the keys during a call: the destructor and the other threads create, delete and set
keys. A `Behaviour` says what happens, by all that happened before.
-/
import Mathlib

namespace MagnusPS5.Kernel.PthreadKeys

/-- An address, `0` for `nullptr`. -/
abbrev Pointer := ℕ

structure Map where
  thread_id : ℤ := -1
  data : Pointer := 0
  deriving DecidableEq

structure Key where
  used : Bool := false
  destructor : Pointer := 0
  specific_values : List Map := []
  deriving DecidableEq

abbrev KEYS_MAX : ℕ := 256

abbrev DESTRUCTOR_ITERATIONS : ℕ := 4

/-- `m_keys`. -/
abbrev Keys := Fin KEYS_MAX → Key

/-! ## Operations on keys -/

def create (keys : Keys) (destructor : Pointer) : Option (Fin KEYS_MAX × Keys) :=
  ((List.finRange KEYS_MAX).find? fun index => !(keys index).used).map fun index =>
    (index, Function.update keys index { used := true, destructor, specific_values := [] })

/-- The check that `Delete` and `Set` begin with. -/
def usedKey (keys : Keys) (key : ℤ) : Option (Fin KEYS_MAX) :=
  if h : 0 ≤ key ∧ key < KEYS_MAX then
    if (keys ⟨key.toNat, by omega⟩).used then some ⟨key.toNat, by omega⟩ else none
  else none

def delete (keys : Keys) (key : ℤ) : Option Keys :=
  (usedKey keys key).map fun index =>
    Function.update keys index { used := false, destructor := 0, specific_values := [] }

/-- The loop of `Set`, with the entry that it appends. -/
def setValue (thread_id : ℤ) (data : Pointer) : List Map → List Map
  | [] => [{ thread_id, data }]
  | v :: rest =>
    if v.thread_id = thread_id then { v with data } :: rest
    else v :: setValue thread_id data rest

def set (keys : Keys) (key : ℤ) (thread_id : ℤ) (data : Pointer) : Option Keys :=
  (usedKey keys key).map fun index =>
    Function.update keys index { keys index with
      specific_values := setValue thread_id data (keys index).specific_values }

inductive KeyOp
  | create (destructor : Pointer)
  | delete (key : ℤ)
  | set (key : ℤ) (thread_id : ℤ) (data : Pointer)
  deriving DecidableEq

/-- An operation that returns `false` leaves the keys as they are. -/
def KeyOp.apply (keys : Keys) : KeyOp → Keys
  | create destructor => ((PthreadKeys.create keys destructor).map Prod.snd).getD keys
  | delete key => (PthreadKeys.delete keys key).getD keys
  | set key thread_id data => (PthreadKeys.set keys key thread_id data).getD keys

/-! ## The end of a thread -/

/-- `CallInfo`, with the key, which the source does not keep. -/
structure CallInfo where
  key : Fin KEYS_MAX
  destructor : Pointer
  data : Pointer
  deriving DecidableEq

variable (thread_id : ℤ)

/-- The values of a thread that a round collects from a key. -/
def Key.calls (index : Fin KEYS_MAX) (key : Key) : List CallInfo :=
  if key.used = true ∧ key.destructor ≠ 0 then
    (key.specific_values.filter fun v => v.thread_id = thread_id ∧ v.data ≠ 0).map fun v =>
      { key := index, destructor := key.destructor, data := v.data }
  else []

def deleteList (keys : Keys) : List CallInfo :=
  (List.finRange KEYS_MAX).flatMap fun index => (keys index).calls thread_id index

/-- The keys after a round has collected the values. -/
def collected (keys : Keys) : Keys := fun index =>
  if (keys index).used = true ∧ (keys index).destructor ≠ 0 then
    { keys index with
      specific_values := (keys index).specific_values.map fun v =>
        if v.thread_id = thread_id ∧ v.data ≠ 0 then { v with data := 0 } else v }
  else keys index

/-- The end of `Destruct`. -/
def purged (keys : Keys) : Keys := fun index =>
  { keys index with
    specific_values := (keys index).specific_values.filter fun v => v.thread_id ≠ thread_id }

inductive Event
  | call (info : CallInfo)
  | op (op : KeyOp)

/-- The operations, of all threads, from a call to the next time the lock is taken. -/
abbrev Behaviour := List Event → List KeyOp

structure Run where
  keys : Keys
  events : List Event := []
  rounds : ℕ := 0

namespace Run

def operate (r : Run) (op : KeyOp) : Run :=
  { r with keys := op.apply r.keys, events := r.events ++ [.op op] }

/-- A call of a destructor. -/
def call (behaviour : Behaviour) (r : Run) (info : CallInfo) : Run :=
  let events := r.events ++ [.call info]
  (behaviour events).foldl operate { r with events }

/-- A round that has found something to call. -/
def round (behaviour : Behaviour) (thread_id : ℤ) (r : Run) : Run :=
  (deleteList thread_id r.keys).foldl (call behaviour)
    { r with keys := collected thread_id r.keys, rounds := r.rounds + 1 }

end Run

/-- The loop of `Destruct`, which returns when there is nothing to call, and what follows. -/
def destructLoop (behaviour : Behaviour) (thread_id : ℤ) : ℕ → Run → Run
  | 0, r => { r with keys := purged thread_id r.keys }
  | n + 1, r =>
    if deleteList thread_id r.keys = [] then r
    else destructLoop behaviour thread_id n (r.round behaviour thread_id)

def destruct (behaviour : Behaviour) (thread_id : ℤ) (keys : Keys) : Run :=
  destructLoop behaviour thread_id DESTRUCTOR_ITERATIONS { keys }

/-! ## What a clean-up is -/

def calls (events : List Event) : List CallInfo :=
  events.filterMap fun
    | .call info => some info
    | .op _ => none

def ops (events : List Event) : List KeyOp :=
  events.filterMap fun
    | .call _ => none
    | .op op => some op

/-- What the operations alone make of the keys. -/
def replay (keys : Keys) (ops : List KeyOp) : Keys := ops.foldl KeyOp.apply keys

/-- The value of a thread that an operation stores, with the destructor of the key. -/
def KeyOp.stored (keys : Keys) : KeyOp → List CallInfo
  | create _ => []
  | delete _ => []
  | set key thread data =>
    if thread = thread_id then
      ((usedKey keys key).map fun index =>
        { key := index, destructor := (keys index).destructor, data }).toList
    else []

/-- The values of a thread that operations store one after the other. -/
def stored (thread_id : ℤ) : Keys → List KeyOp → List CallInfo
  | _, [] => []
  | keys, op :: rest => op.stored thread_id keys ++ stored thread_id (op.apply keys) rest

/-- No key holds an entry for the thread. -/
def Clean (keys : Keys) : Prop :=
  ∀ index, ∀ v ∈ (keys index).specific_values, v.thread_id ≠ thread_id

/-- At every time a value was handed to its destructor no more often than it was stored, under
the same key; and the values of the other threads are what the operations made of them. -/
structure CleansUp (behaviour : Behaviour) (thread_id : ℤ) (keys : Keys) : Prop where
  rounds : (destruct behaviour thread_id keys).rounds ≤ 4
  real : ∀ info ∈ calls (destruct behaviour thread_id keys).events,
    info.destructor ≠ 0 ∧ info.data ≠ 0
  accounted : ∀ events, events <+: (destruct behaviour thread_id keys).events → ∀ info,
    (calls events).count info ≤
      (deleteList thread_id keys ++ stored thread_id keys (ops events)).count info
  others : purged thread_id (destruct behaviour thread_id keys).keys =
    purged thread_id (replay keys (ops (destruct behaviour thread_id keys).events))
  clean : Clean thread_id (destruct behaviour thread_id keys).keys

/-- No round begins with an entry of the thread and nothing to call: every entry left then is
null, or under a key without destructor. -/
def NeverLeft (behaviour : Behaviour) (thread_id : ℤ) : ℕ → Run → Prop
  | 0, _ => True
  | n + 1, r =>
    (deleteList thread_id r.keys = [] → Clean thread_id r.keys) ∧
      (deleteList thread_id r.keys ≠ [] →
        NeverLeft behaviour thread_id n (r.round behaviour thread_id))

end MagnusPS5.Kernel.PthreadKeys
