import Mathlib.Algebra.Ring.Int.Defs
import Mathlib.Logic.Function.Basic

/-!
# A counter behind a mutex (`posix_mutex/src/main.c`)

`main` initialises a mutex, creates two threads, joins them and destroys the mutex. Each
thread takes the mutex, adds one to `counter`, prints it and gives the mutex. Each call of
the pthread library, the load and the store of `counter += 1` and the `printf` is a step
of its own, and other threads may run in between.
-/

namespace PosixMutex

/-- `pthread_mutex_t lock` -/
inductive Mutex where
  | uninitialised
  | free
  | held (i : Fin 2)
  | destroyed
deriving Repr, DecidableEq

/-- Where a thread is in `increaseCounter`. -/
inductive Pc where
  /-- `pthread_create` has not been called. -/
  | absent
  /-- `pthread_mutex_lock(&lock)` -/
  | lock
  /-- `counter += 1` reads `counter`. -/
  | load
  /-- `counter += 1` writes it back. -/
  | store (read : Int)
  | print
  /-- `pthread_mutex_unlock(&lock)` -/
  | unlock
  | returned
deriving Repr, DecidableEq

/-- Where `main` is. -/
inductive MainPc where
  /-- `pthread_mutex_init(&lock, NULL)` -/
  | init
  /-- `pthread_create(&(threads[i]), …)` and `assert(!err)` -/
  | create (i : Fin 2)
  /-- `pthread_join(threads[i], NULL)` -/
  | join (i : Fin 2)
  /-- `pthread_mutex_destroy(&lock)` -/
  | destroy
  /-- `main` has returned, which ends the process. -/
  | exited (code : Int)
  /-- An assertion has failed. -/
  | aborted
deriving Repr, DecidableEq

/-- `counter`, the mutex, what has been printed and where the threads and `main` are. -/
structure State where
  counter : Int
  mutex : Mutex
  printed : List String
  threads : Fin 2 → Pc
  main : MainPc

/-- What becomes of a step. -/
inductive Outcome where
  /-- The thread waits, or there is no step to take. -/
  | blocked
  | undefined
  | next (s : State)

/-- A thread moves on. -/
def State.goto (s : State) (i : Fin 2) (pc : Pc) : State :=
  { s with threads := Function.update s.threads i pc }

/-- The line that is printed. -/
def text (counter : Int) : String := "Counter: " ++ toString counter ++ "\n"

/-- A step of the thread `threads[i]`. -/
def increaseCounter (s : State) (i : Fin 2) : Outcome :=
  match s.threads i with
  | .absent => .blocked
  | .lock =>
    match s.mutex with
    | .uninitialised => .undefined
    | .free => .next { s.goto i .load with mutex := .held i }
    | .held _ => .blocked
    | .destroyed => .undefined
  | .load => .next (s.goto i (.store s.counter))
  | .store read =>
    -- the sum has to fit an `int`
    if read + 1 < 2 ^ 31 then .next { s.goto i .print with counter := read + 1 } else .undefined
  | .print => .next { s.goto i .unlock with printed := s.printed ++ [text s.counter] }
  | .unlock =>
    -- a mutex of the default kind may only be unlocked by its owner
    if s.mutex = .held i then .next { s.goto i .returned with mutex := .free } else .undefined
  | .returned => .blocked

/-- A step of `main`; `ok` says whether `pthread_mutex_init` or `pthread_create` returns 0. -/
def mainStep (s : State) (ok : Bool) : Outcome :=
  match s.main with
  | .init =>
    if ok then .next { s with mutex := .free, main := .create 0 }
    -- `return -1`
    else .next { s with main := .exited (-1) }
  | .create i =>
    if ok then .next { s.goto i .lock with main := if i = 0 then .create 1 else .join 0 }
    -- `assert(!err)`
    else .next { s with main := .aborted }
  | .join i =>
    if s.threads i = .absent then .undefined
    else if s.threads i = .returned then
      .next { s with main := if i = 0 then .join 1 else .destroy }
    else .blocked
  | .destroy =>
    -- destroying a mutex that is held is undefined
    if s.mutex = .free then .next { s with mutex := .destroyed, main := .exited 0 }
    else .undefined
  | .exited _ => .blocked
  | .aborted => .blocked

/-- The process has ended, and with it all threads. -/
def MainPc.ended : MainPc → Bool
  | .exited _ => true
  | .aborted => true
  | _ => false

/-- A step of `main`, with whether its call succeeds, or of a thread. -/
inductive Event where
  | main (ok : Bool)
  | thread (i : Fin 2)
deriving Repr, DecidableEq

/-- What a step does. -/
def outcome (s : State) : Event → Outcome
  | .main ok => mainStep s ok
  | .thread i => if s.main.ended then .blocked else increaseCounter s i

/-- The next state, if there is one. -/
def Outcome.toOption : Outcome → Option State
  | .blocked => none
  | .undefined => none
  | .next s => some s

/-- One step; what blocks or is undefined has no next state. -/
def step (s : State) (e : Event) : Option State := (outcome s e).toOption

/-- `main` starts. -/
def State.start : State :=
  { counter := 0, mutex := .uninitialised, printed := [], threads := fun _ => .absent,
    main := .init }

end PosixMutex
