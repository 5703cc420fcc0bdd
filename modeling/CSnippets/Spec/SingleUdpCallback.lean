import CSnippets.ForStd.Runs
import CSnippets.Native.SingleUdpSignals

/-!
# The callback in one piece

While nothing arrives, the rounds of `socketCallback` that a signal sets off do what
`socketCallback` does in one piece: the same lines are printed and the same datagrams stay in
the socket; where the one reads behind its buffer the others come to the round that does.
-/

namespace SingleUdp

variable {s s' : State} {fd : Int} {bytes : List UInt8}

/-- One round of `recvLoop`. -/
theorem recvLoop_round (clientMessage : List UInt8) (queue : List Packet) :
    recvLoop clientMessage queue = do
      let (line, goesOn) ← socketCallbackRound clientMessage queue.head?
      match goesOn with
      | none => return ([line], queue.tail)
      | some clientMessage =>
        let (lines, rest) ← recvLoop clientMessage queue.tail
        return (line :: lines, rest) := by
  cases queue with
  | nil => rfl
  | cons packet queue =>
    rw [recvLoop, List.head?_cons, socketCallbackRound]
    split
    · rfl
    · dsimp only
      -- without a terminator the line has no end and both sides fail
      cases CMemory.cString (CMemory.splice clientMessage 0
        (packet.bytes.take (min packet.bytes.length bufferSize))) with
      | none => rfl
      | some text => rfl

/-- `socketCallback` runs, with its buffer. -/
structure InLoop (s : State) (fd : Int) (bytes : List UInt8) : Prop where
  killed : s.killed = false
  running : s.running = some { callback := .socketCallback, fd := fd, clientMessage := bytes }

/-- What has been printed and left in the socket since `s`. -/
structure Done (s s' : State) (fd : Int) (lines : List Line) (queue : List Packet) : Prop where
  printed : s'.printed = s.printed ++ lines
  queue : (s'.sockets fd).queue = queue

/-- It has returned. -/
structure Returned (s : State) : Prop where
  killed : s.killed = false
  running : s.running = none

/-- `socketCallback` runs, and its next round reads behind its buffer. -/
structure ReadsBehind (s : State) (fd : Int) : Prop where
  inLoop : ∃ bytes, InLoop s fd bytes ∧
    socketCallbackRound bytes (s.sockets fd).queue.head? = none
  undefined : step s .recvfrom = none

/-- The next step of the callback is its round. -/
theorem InLoop.step_eq (h : InLoop s fd bytes) : step s .recvfrom =
    recvfrom s { callback := .socketCallback, fd := fd, clientMessage := bytes } := by
  unfold step
  rw [h.running, h.killed]
  rfl

/-- A round without a result. -/
theorem InLoop.readsBehind (h : InLoop s fd bytes)
    (hround : socketCallbackRound bytes (s.sockets fd).queue.head? = none) :
    ReadsBehind s fd := by
  refine ⟨⟨bytes, h, hround⟩, ?_⟩
  rw [h.step_eq, recvfrom]
  dsimp only
  rw [hround]
  rfl

/-- Any other round. -/
theorem InLoop.round_some (h : InLoop s fd bytes) {line : Line} {goesOn : Option (List UInt8)}
    (hround : socketCallbackRound bytes (s.sockets fd).queue.head? = some (line, goesOn)) :
    ∃ s', step s .recvfrom = some s' ∧ s'.killed = false ∧
      s'.running = goesOn.map (fun bytes =>
        { callback := .socketCallback, fd := fd, clientMessage := bytes }) ∧
      Done s s' fd [line] (s.sockets fd).queue.tail := by
  rw [h.step_eq, recvfrom]
  dsimp only
  rw [hround]
  cases hqueue : (s.sockets fd).queue with
  | nil => exact ⟨_, rfl, h.killed, rfl, rfl, hqueue⟩
  | cons packet queue =>
    refine ⟨_, rfl, h.killed, rfl, rfl, ?_⟩
    show (Function.update s.sockets fd { s.sockets fd with queue := queue } fd).queue = queue
    rw [Function.update_self]

/-- All rounds from this buffer on. -/
theorem InLoop.rounds (h : InLoop s fd bytes) :
    (recvLoop bytes (s.sockets fd).queue = none →
      ∃ n s', (List.replicate n .recvfrom).foldlM step s = some s' ∧ ReadsBehind s' fd) ∧
    ∀ lines queue, recvLoop bytes (s.sockets fd).queue = some (lines, queue) →
      ∃ n s', (List.replicate n .recvfrom).foldlM step s = some s' ∧ Returned s' ∧
        Done s s' fd lines queue := by
  generalize hpackets : (s.sockets fd).queue = packets
  induction packets generalizing s bytes with
  | nil =>
    rw [recvLoop]
    refine ⟨nofun, ?_⟩
    rintro lines queue ⟨⟩
    have hround : socketCallbackRound bytes (s.sockets fd).queue.head? = some (.finished, none) := by
      rw [hpackets]
      rfl
    obtain ⟨s', hs', hkilled, hrunning, hdone⟩ := h.round_some hround
    rw [hpackets] at hdone
    exact ⟨1, s', Runs.run_cons.mpr ⟨s', hs', rfl⟩, ⟨hkilled, hrunning⟩, hdone⟩
  | cons packet packets ih =>
    rw [recvLoop_round]
    have hhead : (s.sockets fd).queue.head? = some packet := by rw [hpackets]; rfl
    rw [List.head?_cons, List.tail_cons]
    cases hround : socketCallbackRound bytes (some packet) with
    | none =>
      refine ⟨fun _ => ⟨0, s, rfl, ?_⟩, nofun⟩
      exact h.readsBehind (by rw [hhead, hround])
    | some result =>
      obtain ⟨line, goesOn⟩ := result
      obtain ⟨s₁, hs₁, hkilled, hrunning, hdone⟩ := h.round_some (by rw [hhead, hround])
      rw [hpackets, List.tail_cons] at hdone
      cases goesOn with
      | none =>
        -- an empty datagram ends the loop
        refine ⟨nofun, ?_⟩
        rintro lines queue ⟨⟩
        exact ⟨1, s₁, Runs.run_cons.mpr ⟨s₁, hs₁, rfl⟩, ⟨hkilled, hrunning⟩, hdone⟩
      | some bytes' =>
        obtain ⟨hnone, hsome⟩ := ih ⟨hkilled, hrunning⟩ hdone.queue
        have hgoesOn (n : Nat) : (List.replicate (n + 1) Event.recvfrom).foldlM step s =
            (List.replicate n .recvfrom).foldlM step s₁ := by
          rw [List.replicate_succ, List.foldlM_cons, hs₁]
          rfl
        cases hrest : recvLoop bytes' packets with
        | none =>
          obtain ⟨n, s', hrun, hbehind⟩ := hnone hrest
          simp only [Option.bind_eq_bind, Option.bind_some, hrest, Option.bind_none]
          exact ⟨fun _ => ⟨n + 1, s', (hgoesOn n).trans hrun, hbehind⟩, nofun⟩
        | some rest =>
          obtain ⟨lines, queue⟩ := rest
          obtain ⟨n, s', hrun, hreturned, hprinted, hqueue⟩ := hsome lines queue hrest
          simp only [Option.bind_eq_bind, Option.bind_some, hrest, Option.pure_def]
          refine ⟨nofun, ?_⟩
          rintro lines' queue' ⟨⟩
          refine ⟨n + 1, s', (hgoesOn n).trans hrun, hreturned, ?_, hqueue⟩
          rw [hprinted, hdone.printed, List.append_assoc]
          rfl

/-- A signal for a socket that is registered with `socketCallback` is delivered. -/
theorem deliver_inLoop {args : Option Nat} (h : Returned s) (hhandler : s.handlerSet = true)
    (hpending : s.pending = some fd)
    (hcb : s.cb = { fileDesc := fd, callback := some .socketCallback, args := args }) :
    ∃ s₁, step s .deliver = some s₁ ∧ InLoop s₁ fd [] ∧ s₁.printed = s.printed ∧
      s₁.sockets = s.sockets := by
  unfold step
  rw [h.killed, h.running]
  simp only [deliver, hpending, h.running, hhandler, signalHandler, hcb, if_true]
  exact ⟨_, rfl, ⟨h.killed, rfl⟩, rfl, rfl⟩

/-- A signal for a socket that is registered with `socketCallback`, and nothing else: if what is
    in the socket makes `socketCallback` print these lines and leave this queue, so do the
    rounds that follow; if it makes it read behind its buffer, the rounds come to the one that
    does, with the callback still running. -/
theorem signal_prints (s : State) (fd : Int) (args : Option Nat) (h : Returned s)
    (hhandler : s.handlerSet = true) (hpending : s.pending = some fd)
    (hcb : s.cb = { fileDesc := fd, callback := some .socketCallback, args := args }) :
    (socketCallback (s.sockets fd).queue = none →
      ∃ n s', (.deliver :: List.replicate n .recvfrom).foldlM step s = some s' ∧
        ReadsBehind s' fd) ∧
    ∀ lines queue, socketCallback (s.sockets fd).queue = some (lines, queue) →
      ∃ n s', (.deliver :: List.replicate n .recvfrom).foldlM step s = some s' ∧ Returned s' ∧
        Done s s' fd lines queue := by
  -- the delivery brings the callback to its loop, with the queue as it is
  obtain ⟨s₁, hs₁, hloop, hprinted, hsockets⟩ := deliver_inLoop h hhandler hpending hcb
  obtain ⟨hnone, hsome⟩ := hloop.rounds
  have hdeliver (n : Nat) : (Event.deliver :: List.replicate n .recvfrom).foldlM step s =
      (List.replicate n .recvfrom).foldlM step s₁ := by
    rw [List.foldlM_cons, hs₁]
    rfl
  rw [hsockets] at hnone hsome
  constructor
  · intro hcall
    obtain ⟨n, s', hrun, hbehind⟩ := hnone hcall
    exact ⟨n, s', (hdeliver n).trans hrun, hbehind⟩
  · intro lines queue hcall
    obtain ⟨n, s', hrun, hreturned, hlines, hqueue⟩ := hsome lines queue hcall
    refine ⟨n, s', (hdeliver n).trans hrun, hreturned, ?_, hqueue⟩
    rw [hlines, hprinted]

/-- The socket 3 is registered and has one datagram. -/
def waiting (bytes : List UInt8) : State :=
  { State.start with
    cb := { fileDesc := 3, callback := some .socketCallback, args := none }
    sockets := fun _ =>
      { isOpen := true, async := true, owned := true, bound := true, queue := [⟨bytes, 0, 0⟩] }
    handlerSet := true
    pending := some 3 }

/-- "hi" with a terminator is printed, and without one read behind. -/
theorem signal_prints_hi :
    (∃ n s', (.deliver :: List.replicate n .recvfrom).foldlM step (waiting [104, 105, 0]) =
      some s' ∧ Returned s' ∧
        Done (waiting [104, 105, 0]) s' 3 [.message [104, 105] 0 0, .finished] []) ∧
    ∃ n s', (.deliver :: List.replicate n .recvfrom).foldlM step (waiting [104, 105]) = some s' ∧
      ReadsBehind s' 3 :=
  ⟨(signal_prints (waiting [104, 105, 0]) 3 none ⟨rfl, rfl⟩ rfl rfl rfl).2 _ _ (by decide),
    (signal_prints (waiting [104, 105]) 3 none ⟨rfl, rfl⟩ rfl rfl rfl).1 (by decide)⟩

end SingleUdp
