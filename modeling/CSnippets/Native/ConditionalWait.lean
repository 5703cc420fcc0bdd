import Mathlib.Logic.Function.Basic

/-!
# Four functions in turn (`conditional_wait/src/main.c`)

Four threads run one function each. A function waits until the shared `count` says that
it is its turn, prints its line and passes the turn on. Each call of the pthread
library, the test of `count`, the `printf` and the `count++` is a step of its own, and
other threads may run in between.
-/

namespace ConditionalWait

/-- What makes one of the functions differ from the others. -/
structure Routine where
  /-- The value of `count` it waits for. -/
  turn : Nat
  text : String
  /-- It contains `count++`. -/
  increments : Bool
deriving Repr, DecidableEq

/-- `function1` -/
def function1 : Routine := { turn := 1, text := "\t\tFunction 1\n", increments := true }

/-- `function2` -/
def function2 : Routine := { turn := 2, text := "\t\tFunction 2\n", increments := true }

/-- `function3` -/
def function3 : Routine := { turn := 3, text := "\t\tFunction 3\n", increments := true }

/-- `function4` -/
def function4 : Routine := { turn := 4, text := "\t\tFunction 4\n", increments := false }

/-- The threads that `main` creates. -/
inductive Thread where
  | thread1
  | thread2
  | thread3
  | thread4
deriving Repr, DecidableEq

/-- The function `main` creates the thread with. -/
def Thread.routine : Thread → Routine
  | .thread1 => function1
  | .thread2 => function2
  | .thread3 => function3
  | .thread4 => function4

/-- Where a thread is in its function. -/
inductive Pc where
  /-- `pthread_create` has not been called. -/
  | absent
  /-- `pthread_mutex_lock(&mutex)` -/
  | lock
  /-- `if (count == …)` -/
  | test
  | print
  /-- `count++` -/
  | increment
  /-- `pthread_mutex_unlock(&mutex)` before the broadcast -/
  | unlock
  | broadcast
  | returned
  /-- calls `pthread_cond_wait(&cond, &mutex)` -/
  | wait
  /-- blocks in `pthread_cond_wait` -/
  | blocked
  /-- has been woken in `pthread_cond_wait` and takes the mutex again -/
  | relock
  /-- `pthread_mutex_unlock(&mutex)` behind the wait -/
  | unlockWait
deriving Repr, DecidableEq

/-- What a broadcast makes of a thread. -/
def Pc.wake : Pc → Pc
  | .blocked => .relock
  | pc => pc

/-- `count`, the mutex, what has been printed and where each thread is. -/
structure State where
  count : Nat
  mutex : Option Thread
  printed : List String
  threads : Thread → Pc

/-- A thread moves on. -/
def State.goto (s : State) (t : Thread) (pc : Pc) : State :=
  { s with threads := Function.update s.threads t pc }

/-- The thread takes the mutex if it is free. -/
def State.lock (s : State) (t : Thread) (pc : Pc) : Option State :=
  if s.mutex = none then some { s.goto t pc with mutex := some t } else none

/-- The thread gives the mutex if it holds it. -/
def State.unlock (s : State) (t : Thread) (pc : Pc) : Option State :=
  if s.mutex = some t then some { s.goto t pc with mutex := none } else none

/-- A step of the function `f` run by the thread `t`; `none` where the thread cannot
    go on. -/
def run (f : Routine) (s : State) (t : Thread) : Option State :=
  match s.threads t with
  | .absent => none
  | .lock => s.lock t .test
  -- the turn is tested once, and a thread that was woken begins anew
  | .test => some (s.goto t (if s.count = f.turn then .print else .wait))
  | .print =>
    some { s.goto t (if f.increments then .increment else .unlock) with
             printed := s.printed ++ [f.text] }
  | .increment => some { s.goto t .unlock with count := s.count + 1 }
  | .unlock => s.unlock t .broadcast
  -- all that wait are woken, and compete for the mutex
  | .broadcast =>
    some { s with threads := Function.update (fun u => (s.threads u).wake) t .returned }
  | .returned => none
  | .wait => s.unlock t .blocked
  | .blocked => none
  | .relock => s.lock t .unlockWait
  | .unlockWait => s.unlock t .lock

/-- What can happen next. -/
inductive Event where
  /-- `main` creates the thread. -/
  | create (t : Thread)
  | run (t : Thread)
  /-- The thread is woken though nothing was broadcast. -/
  | spurious (t : Thread)
deriving Repr, DecidableEq

/-- One step; an event that cannot happen has no next state. -/
def step (s : State) : Event → Option State
  | .create t => if s.threads t = .absent then some (s.goto t .lock) else none
  | .run t => run t.routine s t
  | .spurious t => if s.threads t = .blocked then some (s.goto t .relock) else none

/-- `main` has not created any thread yet. -/
def State.start : State :=
  { count := 1, mutex := none, printed := [], threads := fun _ => .absent }

end ConditionalWait
