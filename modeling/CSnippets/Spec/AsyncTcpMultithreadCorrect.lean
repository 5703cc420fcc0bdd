import Mathlib.Data.List.Forall2
import CSnippets.ForStd.Runs
import CSnippets.Native.AsyncTcpMultithread

/-!
# Every connection has its thread

The handler goes on until `accept` finds the queue empty, and what arrives after that
has a `SIGIO` pending: at any time the queue is empty, or a `SIGIO` is pending, or the
handler is still in its loop. Every thread has a block of its own, which nobody
writes once the thread exists.
-/

namespace AsyncTcpMultithread

variable {s s' : State}

/-- What is assumed: descriptors are positive, and `malloc` and `pthread_create`
    succeed. -/
def Assumed : Event → Prop
  | .arrive _ => True
  | .deliver => True
  | .handle (.accept fd) => 0 < fd
  | .handle (.malloc ret _) => ret ≠ none
  | .handle .store => True
  | .handle (.pthreadCreate err) => err = 0
  | .handle .leave => True
  | .start _ => True

/-- The connections that arrive in a run. -/
def arrivals (es : List Event) : List Nat :=
  es.filterMap fun
    | .arrive connection => some connection
    | .deliver => none
    | .handle _ => none
    | .start _ => none

/-- The descriptor that the handler has still to pass to a thread. -/
def inHand : Option Pc → List Int
  | none => []
  | some .accept => []
  | some (.malloc fd) => [fd]
  | some (.store fd _) => [fd]
  | some (.create fd _) => [fd]
  | some .leave => []

/-- The thread has been given the descriptor, and reads that one. -/
structure Owns (heap : Addr → Option Int) (fd : Int) (t : Thread) : Prop where
  given : heap t.socketDesc = some fd
  read : t.clientFd = none ∨ t.clientFd = some fd

/-- The connections taken have one descriptor each and, but for the one in hand, one
    thread each, in order; at rest no connection is waiting. -/
structure Passed (s : State) : Prop where
  descriptors : s.descriptors.length = s.taken.length
  threads : ∃ fds, s.descriptors = fds ++ inHand s.handler ∧
    List.Forall₂ (Owns s.heap) fds s.threads
  drained : s.pending = false → s.handler = none → s.queue = []

/-- The server is listening and nothing has happened. -/
structure Idle (s : State) : Prop where
  queue : s.queue = []
  pending : s.pending = false
  handler : s.handler = none
  taken : s.taken = []
  threads : s.threads = []
  descriptors : s.descriptors = []

/-! ## The handler and its threads -/

/-- The block in hand is allocated, no thread has it, and it holds the descriptor once
    it has been stored. -/
def BlockInHand (heap : Addr → Option Int) (threads : List Thread) : Option Pc → Prop
  | some (.store _ p) => heap p ≠ none ∧ ∀ t ∈ threads, t.socketDesc ≠ p
  | some (.create fd p) => heap p = some fd ∧ ∀ t ∈ threads, t.socketDesc ≠ p
  | none => True
  | some .accept => True
  | some (.malloc _) => True
  | some .leave => True

/-- The handler calls `accept` again before it returns. -/
def Pc.inLoop : Pc → Bool
  | .accept => true
  | .malloc _ => true
  | .store _ _ => true
  | .create _ _ => true
  | .leave => false

/-- The invariant. -/
structure Serving (s : State) : Prop where
  descriptors : s.descriptors.length = s.taken.length
  threads : ∃ fds, s.descriptors = fds ++ inHand s.handler ∧
    List.Forall₂ (Owns s.heap) fds s.threads
  block : BlockInHand s.heap s.threads s.handler
  waiting : s.queue = [] ∨ s.pending = true ∨ s.handler.any Pc.inLoop = true

/-- In a serving state every accepted connection has been passed to its thread. -/
theorem Serving.passed (h : Serving s) : Passed s := by
  refine ⟨h.descriptors, h.threads, fun hpending hhandler => ?_⟩
  rcases h.waiting with hqueue | hsignal | hrunning
  · exact hqueue
  · rw [hpending] at hsignal
    cases hsignal
  · rw [hhandler] at hrunning
    cases hrunning

/-- A write to a block that no thread has changes nothing for the threads. -/
theorem owns_update {heap : Addr → Option Int} {fds : List Int} {threads : List Thread} {p : Addr}
    (h : List.Forall₂ (Owns heap) fds threads) (hp : ∀ t ∈ threads, t.socketDesc ≠ p)
    (v : Option Int) : List.Forall₂ (Owns (Function.update heap p v)) fds threads := by
  induction h with
  | nil => exact .nil
  | cons howns _ ih =>
    obtain ⟨hfirst, hrest⟩ := List.forall_mem_cons.mp hp
    refine .cons ⟨?_, howns.read⟩ (ih hrest)
    rw [Function.update_of_ne hfirst]
    exact howns.given

/-- The blocks of the threads are allocated. -/
theorem heap_ne_none_of_mem {heap : Addr → Option Int} {fds : List Int} {threads : List Thread}
    (h : List.Forall₂ (Owns heap) fds threads) {t : Thread} (ht : t ∈ threads) :
    heap t.socketDesc ≠ none := by
  induction h with
  | nil => cases ht
  | cons howns _ ih =>
    rcases List.mem_cons.mp ht with rfl | hrest
    · rw [howns.given]
      simp
    · exact ih hrest

/-- A thread that reads its argument reads its own descriptor. -/
theorem owns_start {heap : Addr → Option Int} {fds : List Int} {threads : List Thread} {i : Nat}
    {p : Addr} {fd : Int} (h : List.Forall₂ (Owns heap) fds threads)
    (hi : threads[i]? = some ⟨p, none⟩) (hfd : heap p = some fd) :
    List.Forall₂ (Owns heap) fds (threads.set i ⟨p, some fd⟩) := by
  induction h generalizing i with
  | nil => exact .nil
  | cons howns hrest ih =>
    cases i with
    | zero =>
      obtain rfl := Option.some.inj hi
      refine .cons ⟨howns.given, Or.inr ?_⟩ hrest
      rw [← howns.given, hfd]
    | succ i => exact .cons howns (ih hi)

/-- The signal handler keeps the server serving, and loses no connection. -/
theorem Serving.actionHandler (h : Serving s) {call : Call} (hassumed : Assumed (.handle call))
    (hstep : actionHandler s call = some s') :
    Serving s' ∧ s.taken ++ s.queue = s'.taken ++ s'.queue := by
  obtain ⟨fds, hfds, howns⟩ := h.threads
  have hblock := h.block
  unfold AsyncTcpMultithread.actionHandler at hstep
  split at hstep
  · -- `accept`
    rename_i fd hpc
    rw [hpc] at hfds
    split at hstep
    · -- the loop ends with an empty queue
      rename_i hqueue
      cases hstep
      exact ⟨⟨h.descriptors, ⟨fds, hfds, howns⟩, trivial, Or.inl hqueue⟩, rfl⟩
    · rename_i connection queue hqueue
      have hfd : 0 < fd := hassumed
      rw [if_pos hfd] at hstep
      cases hstep
      refine ⟨⟨?_, ⟨fds, ?_, howns⟩, trivial, Or.inr (Or.inr rfl)⟩, ?_⟩
      · simp [h.descriptors]
      · show s.descriptors ++ [fd] = fds ++ [fd]
        rw [hfds]
        simp [inHand]
      · simp [hqueue]
  · -- `malloc`
    rename_i fd ret garbage hpc
    rw [hpc] at hfds
    split at hstep
    · cases hstep
    · rename_i p
      split at hstep
      · rename_i hfree
        cases hstep
        -- the block is new, so no thread has it
        have hnew : ∀ t ∈ s.threads, t.socketDesc ≠ p := by
          intro t ht heq
          exact heap_ne_none_of_mem howns ht (heq ▸ hfree)
        refine ⟨⟨h.descriptors, ⟨fds, hfds, owns_update howns hnew _⟩, ?_,
          Or.inr (Or.inr rfl)⟩, rfl⟩
        exact ⟨by simp, hnew⟩
      · cases hstep
  · -- `*new_socket = client_fd`
    rename_i fd p hpc
    rw [hpc] at hfds hblock
    cases hstep
    exact ⟨⟨h.descriptors, ⟨fds, hfds, owns_update howns hblock.2 _⟩,
      ⟨Function.update_self .., hblock.2⟩, Or.inr (Or.inr rfl)⟩, rfl⟩
  · -- `pthread_create`
    rename_i fd p err hpc
    rw [hpc] at hfds hblock
    obtain rfl : err = 0 := hassumed
    rw [if_neg (by omega), if_pos rfl] at hstep
    cases hstep
    refine ⟨⟨h.descriptors, ⟨fds ++ [fd], ?_, ?_⟩, trivial, Or.inr (Or.inr rfl)⟩, rfl⟩
    · rw [hfds]
      simp [inHand]
    · -- the block goes to the new thread
      exact List.rel_append howns (.cons ⟨hblock.1, Or.inl rfl⟩ .nil)
  · -- what has arrived since the last `accept` has a signal pending
    rename_i hpc
    rw [hpc] at hfds
    cases hstep
    have hwaiting := h.waiting
    rw [hpc] at hwaiting
    refine ⟨⟨h.descriptors, ⟨fds, hfds, howns⟩, trivial, ?_⟩, rfl⟩
    rcases hwaiting with hqueue | hsignal | hrunning
    · exact Or.inl hqueue
    · exact Or.inr (Or.inl hsignal)
    · cases hrunning
  · cases hstep

/-- A thread keeps the server serving, and takes no connection from the queue. -/
theorem Serving.connectionHandler (h : Serving s) {i : Nat}
    (hstep : connectionHandler s i = some s') :
    Serving s' ∧ s.taken ++ s.queue = s'.taken ++ s'.queue := by
  obtain ⟨fds, hfds, howns⟩ := h.threads
  unfold AsyncTcpMultithread.connectionHandler at hstep
  split at hstep
  · rename_i p hi
    obtain ⟨fd, hfd, hpair⟩ := Option.bind_eq_some_iff.mp hstep
    cases hpair
    refine ⟨⟨h.descriptors, ⟨fds, hfds, owns_start howns hi hfd⟩, ?_, h.waiting⟩, rfl⟩
    -- the threads keep their blocks
    have hsame : ∀ p', (∀ t ∈ s.threads, t.socketDesc ≠ p') →
        ∀ t ∈ s.threads.set i ⟨p, some fd⟩, t.socketDesc ≠ p' := by
      intro p' hall t ht
      rcases List.mem_or_eq_of_mem_set ht with hold | rfl
      · exact hall t hold
      · exact hall ⟨p, none⟩ (List.mem_of_getElem? hi)
    have hblock := h.block
    show BlockInHand s.heap _ s.handler
    unfold BlockInHand at hblock ⊢
    split
    · rename_i hpc
      rw [hpc] at hblock
      exact ⟨hblock.1, hsame _ hblock.2⟩
    · rename_i hpc
      rw [hpc] at hblock
      exact ⟨hblock.1, hsame _ hblock.2⟩
    · trivial
    · trivial
    · trivial
    · trivial
  · cases hstep

/-- A signal that is delivered keeps the server serving. -/
theorem Serving.deliver (h : Serving s) (hstep : step s .deliver = some s') :
    Serving s' ∧ s.taken ++ s.queue = s'.taken ++ s'.queue := by
  unfold step at hstep
  split at hstep
  · cases hstep
  · obtain ⟨process, hprocess, hpair⟩ := Option.bind_eq_some_iff.mp hstep
    cases hpair
    unfold Sigio.Process.deliver at hprocess
    split at hprocess
    · rename_i hnone
      split at hprocess
      · cases hprocess
        obtain ⟨fds, hfds, howns⟩ := h.threads
        rw [hnone] at hfds
        exact ⟨⟨h.descriptors, ⟨fds, hfds, howns⟩, trivial, Or.inr (Or.inr rfl)⟩, rfl⟩
      · cases hprocess
    · cases hprocess

/-- Every step keeps the threads with their connections, and no connection gets lost
    between its arrival and `accept`. -/
theorem Serving.step (h : Serving s) {e : Event} (hassumed : Assumed e)
    (hstep : AsyncTcpMultithread.step s e = some s') :
    Serving s' ∧ s.taken ++ s.queue ++ arrivals [e] = s'.taken ++ s'.queue := by
  cases e with
  | arrive connection =>
    unfold AsyncTcpMultithread.step at hstep
    split at hstep
    · cases hstep
    · cases hstep
      -- the arrival raises a signal for itself
      refine ⟨⟨h.descriptors, h.threads, h.block, Or.inr (Or.inl rfl)⟩, ?_⟩
      show s.taken ++ s.queue ++ [connection] = s.taken ++ (s.queue ++ [connection])
      rw [List.append_assoc]
  | deliver =>
    obtain ⟨h', hqueue⟩ := h.deliver hstep
    exact ⟨h', by rw [← hqueue]; exact List.append_nil _⟩
  | handle call =>
    unfold AsyncTcpMultithread.step at hstep
    split at hstep
    · cases hstep
    · obtain ⟨h', hqueue⟩ := h.actionHandler hassumed hstep
      exact ⟨h', by rw [← hqueue]; exact List.append_nil _⟩
  | start i =>
    unfold AsyncTcpMultithread.step at hstep
    split at hstep
    · cases hstep
    · obtain ⟨h', hqueue⟩ := h.connectionHandler hstep
      exact ⟨h', by rw [← hqueue]; exact List.append_nil _⟩

/-- An idle server is serving. -/
theorem Idle.serving (h : Idle s) : Serving s := by
  refine ⟨by rw [h.descriptors, h.taken]; rfl, ⟨[], ?_, ?_⟩, ?_, Or.inl h.queue⟩
  · rw [h.descriptors, h.handler]
    rfl
  · rw [h.threads]
    exact .nil
  · rw [h.handler]
    trivial

/-! ## Whole runs -/

/-- Connections are taken in the order in which they arrived, and none is lost. -/
theorem serving_run {es : List Event} (h : Serving s) (hassumed : ∀ e ∈ es, Assumed e)
    (hrun : es.foldlM step s = some s') :
    Serving s' ∧ s.taken ++ s.queue ++ arrivals es = s'.taken ++ s'.queue := by
  induction es generalizing s with
  | nil =>
    obtain rfl : s = s' := Option.some.inj hrun
    exact ⟨h, List.append_nil _⟩
  | cons e es ih =>
    obtain ⟨hfirst, hlater⟩ := List.forall_mem_cons.mp hassumed
    obtain ⟨s₁, h₁, h₂⟩ := Runs.run_cons.mp hrun
    obtain ⟨hs₁, hq₁⟩ := h.step hfirst h₁
    obtain ⟨hs', hq'⟩ := ih hs₁ hlater h₂
    have hsplit : arrivals (e :: es) = arrivals [e] ++ arrivals es :=
      List.filterMap_append (l := [e])
    exact ⟨hs', by rw [hsplit, ← List.append_assoc, hq₁, hq']⟩

/-- The server before its first connection. -/
def idle : State :=
  { queue := [], pending := false, handler := none, taken := [], heap := fun _ => none,
    threads := [], descriptors := [], exited := false }

/-- The server before its first connection is idle. -/
theorem idle_idle : Idle idle := ⟨rfl, rfl, rfl, rfl, rfl, rfl⟩

instance : ∀ e, Decidable (Assumed e)
  | .arrive _ => inferInstanceAs (Decidable True)
  | .deliver => inferInstanceAs (Decidable True)
  | .handle (.accept fd) => inferInstanceAs (Decidable (0 < fd))
  | .handle (.malloc ret _) => inferInstanceAs (Decidable (ret ≠ none))
  | .handle .store => inferInstanceAs (Decidable True)
  | .handle (.pthreadCreate err) => inferInstanceAs (Decidable (err = 0))
  | .handle .leave => inferInstanceAs (Decidable True)
  | .start _ => inferInstanceAs (Decidable True)

/-- A second connection arrives after the last `accept` of the handler, when the first
    thread has not run yet. -/
def lateArrival : List Event :=
  [.arrive 1, .deliver, .handle (.accept 5), .handle (.malloc (some 100) 0), .handle .store,
   .handle (.pthreadCreate 0), .handle (.accept 6), .arrive 2, .handle .leave, .deliver,
   .handle (.accept 6), .start 0]

end AsyncTcpMultithread
