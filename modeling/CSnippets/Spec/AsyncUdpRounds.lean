import CSnippets.ForStd.Runs
import CSnippets.Native.AsyncUdpSignals
import CSnippets.Spec.AsyncUdpDeinit

/-!
# The handler in one piece

While nothing arrives, the rounds of `recv` that a signal sets off do what `aIOUDPSigHandler`
does in one piece, whatever the memory and the sockets are like. Where it crashes or hangs,
the handler has come to the round that crashes or hangs in the same way.
-/

namespace AsyncUdp

open SentinelList

variable {s : State} {fd : Int} {d : Addr} {c : Conn} {pending : Option Int}

/-- The handler in its loop. -/
def receiving (s : State) (fd : Int) (d : Addr) (pending : Option Int) : Process :=
  { state := s, pending := pending, handler := some (fd, d) }

/-- The datagrams that are left in the socket. -/
def State.requeue (s : State) (fd : Int) (queue : List Datagram) : State :=
  { s with sockets := Function.update s.sockets fd { s.sockets fd with queue := queue } }

/-- Giving a socket the queue that it has changes nothing. -/
theorem requeue_self (s : State) (fd : Int) : s.requeue fd (s.sockets fd).queue = s := by
  rw [State.requeue]
  simp

/-- The loop of `aIOUDPSigHandler` and what follows it. -/
def finish (s : State) (fd : Int) (d : Addr) (c : Conn) : Except Halt State := do
  let (buffer, calls, queue) ←
    recvLoop c.bufferSize c.callback c.args c.buffer (s.sockets fd).queue
  let m ← access (setVal s.mem d fun c => { c with buffer := buffer })
  let m ← unlock m d
  return { s.requeue fd queue with mem := m, calls := s.calls ++ calls }

/-- The handler finds its connection first, and then receives. -/
theorem aIOUDPSigHandler_begin (s : State) (fd : Int) : aIOUDPSigHandler s fd =
    (beginHandler s fd >>= fun r => access (valOf r.2.mem r.1) >>= finish r.2 fd r.1) := by
  rw [aIOUDPSigHandler, beginHandler]
  cases findConnection s.mem .udp fd with
  | error halt => rfl
  | ok found =>
    obtain ⟨conn, m⟩ := found
    cases conn with
    | none => rfl
    | some conn =>
      simp only [bind, Except.bind, pure, Except.pure]
      cases lock m conn with
      | error halt => rfl
      | ok m => rfl

/-- Whoever has taken a lock has a connection. -/
theorem exists_valOf_of_lock {m m' : Memory Conn} (h : lock m d = .ok m') :
    ∃ c, valOf m' d = some c := by
  cases hd : valOf m d with
  | none =>
    simp [lock, hd, access, bind, Except.bind] at h
  | some c =>
    cases hm : setVal m d fun c => { c with locked := true } with
    | none =>
      simp only [lock, hd, hm, access, bind, Except.bind] at h
      split at h
      · cases h
      · cases h
    | some m'' =>
      simp only [lock, hd, hm, access, bind, Except.bind] at h
      split at h
      · cases h
      · obtain rfl := Except.ok.inj h
        refine ⟨{ c with locked := true }, ?_⟩
        rw [valOf_setVal hm, if_pos rfl, hd]
        rfl

/-- The connection that was found is in memory. -/
theorem exists_valOf_of_begin {s' : State} (h : beginHandler s fd = .ok (d, s')) :
    ∃ c, valOf s'.mem d = some c := by
  rw [beginHandler] at h
  cases hfind : findConnection s.mem .udp fd with
  | error halt =>
    rw [hfind] at h
    cases h
  | ok found =>
    obtain ⟨conn, m⟩ := found
    rw [hfind] at h
    cases conn with
    | none => cases h
    | some conn =>
      simp only [bind, Except.bind, pure, Except.pure] at h
      cases hlock : lock m conn with
      | error halt =>
        rw [hlock] at h
        cases h
      | ok m' =>
        rw [hlock] at h
        cases h
        exact exists_valOf_of_lock hlock

/-! ## Rounds -/

/-- The handler has ended. -/
def ended (pending : Option Int) (s : State) : Process :=
  { state := s, pending := pending, handler := none }

/-- What the rounds of the handler come to: it ends, or it is still in its loop and the next
    round crashes or hangs. -/
def RoundsTo (s : State) (fd : Int) (d : Addr) (pending : Option Int) : Except Halt State → Prop
  | .ok s' => ∃ n, (List.replicate n .recv).foldlM signalStep (receiving s fd d pending) =
      some (ended pending s')
  | .error halt => ∃ n s', (List.replicate n .recv).foldlM signalStep (receiving s fd d pending) =
      some (receiving s' fd d pending) ∧ recvRound s' fd d = .error halt

/-- A round is a step of the process. -/
theorem signalStep_recv : signalStep (receiving s fd d pending) .recv =
    (recvRound s fd d).toOption.map fun r =>
      if r.1 then receiving r.2 fd d pending else ended pending r.2 := by
  show (recvRound s fd d).toOption.bind _ = _
  cases (recvRound s fd d).toOption with
  | none => rfl
  | some r =>
    obtain ⟨goesOn, s'⟩ := r
    cases goesOn <;> rfl

/-- A round that crashes or hangs is a step without a result. -/
theorem signalStep_recv_error {halt : Halt} (hround : recvRound s fd d = .error halt) :
    signalStep (receiving s fd d pending) .recv = none := by
  rw [signalStep_recv, hround]
  rfl

/-- This round crashes or hangs. -/
theorem RoundsTo.here {halt : Halt} (hround : recvRound s fd d = .error halt) :
    RoundsTo s fd d pending (.error halt) := ⟨0, s, rfl, hround⟩

/-- The last round, in which the lock is given back. -/
theorem RoundsTo.last {s' : State}
    (hround : recvRound s fd d = (fun s => (false, s)) <$> endHandler s' d) :
    RoundsTo s fd d pending (endHandler s' d) := by
  cases hend : endHandler s' d with
  | error halt =>
    rw [hend] at hround
    exact .here hround
  | ok s'' =>
    rw [hend] at hround
    refine ⟨1, ?_⟩
    show (signalStep (receiving s fd d pending) .recv).bind some = _
    rw [signalStep_recv, hround]
    rfl

/-- A round that goes on. -/
theorem RoundsTo.goesOn {s₁ : State} {r : Except Halt State}
    (hround : recvRound s fd d = .ok (true, s₁)) (h : RoundsTo s₁ fd d pending r) :
    RoundsTo s fd d pending r := by
  have hgoesOn (n : Nat) :
      (List.replicate (n + 1) .recv).foldlM signalStep (receiving s fd d pending) =
        (List.replicate n .recv).foldlM signalStep (receiving s₁ fd d pending) := by
    rw [List.replicate_succ, List.foldlM_cons, signalStep_recv, hround]
    rfl
  cases r with
  | ok s' =>
    obtain ⟨n, hn⟩ := h
    exact ⟨n + 1, (hgoesOn n).trans hn⟩
  | error halt =>
    obtain ⟨n, s', hn, hhalt⟩ := h
    exact ⟨n + 1, s', (hgoesOn n).trans hn, hhalt⟩

/-- The end of the loop: nothing is received any more. -/
theorem finish_last (hd : valOf s.mem d = some c) {queue : List Datagram}
    (hloop : recvLoop c.bufferSize c.callback c.args c.buffer (s.sockets fd).queue =
      .ok (c.buffer, [], queue)) :
    finish s fd d c = endHandler (s.requeue fd queue) d := by
  have hsame : setVal s.mem d (fun c' => { c' with buffer := c.buffer }) = some s.mem :=
    setVal_id hd rfl
  rw [finish, hloop]
  simp only [bind, Except.bind, hsame, access]
  show (unlock s.mem d).bind _ = (unlock s.mem d).bind _
  rw [List.append_nil]
  rfl

/-- What stops the loop of `recv` stops the handler. -/
theorem finish_error {halt : Halt}
    (hloop : recvLoop c.bufferSize c.callback c.args c.buffer (s.sockets fd).queue = .error halt) :
    finish s fd d c = .error halt := by
  rw [finish, hloop]
  rfl

/-- The state behind a round that goes on. -/
def State.handOver (s : State) (fd : Int) (queue : List Datagram) (m : Memory Conn) (call : Call) :
    State :=
  { s.requeue fd queue with mem := m, calls := s.calls ++ [call] }

/-- Handing a datagram over leaves what the kernel had put back. -/
theorem queue_handOver (s : State) (fd : Int) (queue : List Datagram) (m : Memory Conn)
    (call : Call) : ((s.handOver fd queue m call).sockets fd).queue = queue := by
  simp [State.handOver, State.requeue]

/-- It does not matter whether the queue or the call is written first. -/
theorem requeue_handOver (s : State) (fd : Int) (queue queue' : List Datagram) (m : Memory Conn)
    (call : Call) : (s.handOver fd queue m call).requeue fd queue' =
      { s.requeue fd queue' with mem := m, calls := s.calls ++ [call] } := by
  simp [State.handOver, State.requeue]

/-- The end of the loop is the same one round later. -/
theorem finish_cons {m : Memory Conn} {bytes : List UInt8} {call : Call} {queue : List Datagram}
    (hm : setVal s.mem d (fun c => { c with buffer := some bytes }) = some m)
    (hloop : recvLoop c.bufferSize c.callback c.args c.buffer (s.sockets fd).queue =
      (recvLoop c.bufferSize c.callback c.args (some bytes) queue).map fun r =>
        (r.1, call :: r.2.1, r.2.2)) :
    finish s fd d c = finish (s.handOver fd queue m call) fd d { c with buffer := some bytes } := by
  rw [finish, finish, queue_handOver, hloop]
  dsimp only
  cases recvLoop c.bufferSize c.callback c.args (some bytes) queue with
  | error halt => rfl
  | ok result =>
    obtain ⟨buffer, calls, queue'⟩ := result
    have htwice := setVal_setVal (g := fun c => { c with buffer := buffer }) hm
    show (access (setVal s.mem d _) >>= _) = (access (setVal m d _) >>= _)
    rw [htwice]
    apply bind_congr
    intro m'
    cases unlock m' d with
    | error halt => rfl
    | ok m'' =>
      rw [requeue_handOver]
      simp [pure, Except.pure, bind, Except.bind, State.handOver]

/-- What a buffer holds when the datagram has been received and terminated. -/
def Conn.received (c : Conn) (datagram : Datagram) : Except Halt (List UInt8) := do
  let readSize := min datagram.length c.bufferSize.toNat
  let bytes ← access c.buffer
  let bytes ← access (CMemory.memcpyTo bytes 0 datagram readSize)
  let last : Int := if (readSize : Int) - 1 ≤ c.bufferSize then readSize - 1 else c.bufferSize
  access (CMemory.memcpyTo bytes last.toNat [0] 1)

/-- What the callback is called with. -/
def Conn.call (c : Conn) (datagram : Datagram) (bytes : List UInt8) : Call :=
  let readSize := min datagram.length c.bufferSize.toNat
  { callback := c.callback, readSize := readSize, buffer := bytes, args := c.args }

/-- One round of the loop, and then the loop on what is left. -/
theorem recvLoop_succ {datagram : Datagram} (queue : List Datagram)
    (hpos : min datagram.length c.bufferSize.toNat ≠ 0) :
    recvLoop c.bufferSize c.callback c.args c.buffer (datagram :: queue) =
      (c.received datagram >>= fun bytes =>
        (recvLoop c.bufferSize c.callback c.args (some bytes) queue).map fun r =>
          (r.1, c.call datagram bytes :: r.2.1, r.2.2)) := by
  rw [recvLoop, if_neg hpos, Conn.received]
  dsimp only
  cases access c.buffer with
  | error halt => rfl
  | ok bytes =>
    simp only [bind, Except.bind]
    cases access (CMemory.memcpyTo bytes 0 datagram (min datagram.length c.bufferSize.toNat)) with
    | error halt => rfl
    | ok bytes =>
      dsimp only
      cases access (CMemory.memcpyTo bytes _ [0] 1) with
      | error halt => rfl
      | ok bytes =>
        dsimp only
        cases recvLoop c.bufferSize c.callback c.args (some bytes) queue with
        | error halt => rfl
        | ok result => rfl

/-- What one round of the loop does to the process. -/
theorem recvRound_eq {datagram : Datagram} {queue : List Datagram} (hd : valOf s.mem d = some c)
    (hqueue : (s.sockets fd).queue = datagram :: queue)
    (hpos : min datagram.length c.bufferSize.toNat ≠ 0) :
    recvRound s fd d =
      (c.received datagram >>= fun bytes =>
        (access (setVal s.mem d fun c => { c with buffer := some bytes })).map fun m =>
          (true, s.handOver fd queue m (c.call datagram bytes))) := by
  rw [recvRound, hd, hqueue, Conn.received]
  simp only [access, bind, Except.bind, if_neg hpos]
  cases c.buffer with
  | none => rfl
  | some bytes =>
    dsimp only
    cases CMemory.memcpyTo bytes 0 datagram (min datagram.length c.bufferSize.toNat) with
    | none => rfl
    | some bytes =>
      dsimp only
      cases CMemory.memcpyTo bytes _ [0] 1 with
      | none => rfl
      | some bytes =>
        dsimp only
        cases setVal s.mem d fun c => { c with buffer := some bytes } with
        | none => rfl
        | some m => rfl

/-- The rounds from here on come to what the rest of `aIOUDPSigHandler` comes to. -/
theorem rounds_finish (hd : valOf s.mem d = some c) :
    RoundsTo s fd d pending (finish s fd d c) := by
  generalize hqueue : (s.sockets fd).queue = queue
  induction queue generalizing s c with
  | nil =>
    have hround : recvRound s fd d = (fun s => (false, s)) <$> endHandler s d := by
      simp only [recvRound, hd, access, hqueue, bind, Except.bind]
      cases endHandler s d with
      | error halt => rfl
      | ok s' => rfl
    rw [finish_last hd (by rw [hqueue, recvLoop]; rfl), ← hqueue, requeue_self]
    exact .last hround
  | cons datagram queue ih =>
    by_cases hzero : min datagram.length c.bufferSize.toNat = 0
    · -- a result of 0 ends the loop
      have hround : recvRound s fd d =
          (fun s => (false, s)) <$> endHandler (s.requeue fd queue) d := by
        simp only [recvRound, hd, access, hqueue, bind, Except.bind, if_pos hzero, State.requeue]
        cases endHandler _ d with
        | error halt => rfl
        | ok s' => rfl
      have hlast : finish s fd d c = endHandler (s.requeue fd queue) d := by
        apply finish_last hd
        rw [hqueue, recvLoop, if_pos hzero]
        rfl
      rw [hlast]
      exact .last hround
    · have hround := recvRound_eq hd hqueue hzero
      have hloop := recvLoop_succ queue hzero
      rw [← hqueue] at hloop
      cases hbytes : c.received datagram with
      | error halt =>
        rw [hbytes] at hround hloop
        rw [finish_error hloop]
        exact .here hround
      | ok bytes =>
        rw [hbytes] at hround hloop
        obtain ⟨m, hm⟩ := exists_setVal (mem_of_valOf hd) fun c => { c with buffer := some bytes }
        have hd' : valOf m d = some { c with buffer := some bytes } := by
          rw [valOf_setVal hm, if_pos rfl, hd]
          rfl
        have hrest := ih (s := s.handOver fd queue m (c.call datagram bytes)) hd'
          (queue_handOver ..)
        rw [finish_cons hm hloop]
        refine .goesOn ?_ hrest
        rw [hround]
        simp only [bind, Except.bind, hm, access]
        rfl

/-- The delivery crashes or hangs in this way, or the handler gets into its loop and a later
    round does. -/
def Fails (p : Process) (fd : Int) (halt : Halt) : Prop :=
  (beginHandler p.state fd = .error halt ∧ signalStep p .deliver = none) ∨
    ∃ n s d, (.deliver :: List.replicate n .recv).foldlM signalStep p =
      some (receiving s fd d none) ∧ recvRound s fd d = .error halt ∧
        signalStep (receiving s fd d none) .recv = none

/-- From every state with a signal pending, if nothing arrives: where `aIOUDPSigHandler` returns,
    the delivery and the rounds of `recv` that follow make of the process what it makes of it;
    where it crashes or hangs, so does the delivery or, with the handler still in its loop, one
    of the rounds. -/
theorem signal_handled (p : Process) (fd : Int) (hpending : p.pending = some fd)
    (hhandler : p.handler = none) :
    (∀ s, aIOUDPSigHandler p.state fd = .ok s →
      ∃ n, (.deliver :: List.replicate n .recv).foldlM signalStep p = some (ended none s)) ∧
    ∀ halt, aIOUDPSigHandler p.state fd = .error halt → Fails p fd halt := by
  have hdeliver : signalStep p .deliver = (beginHandler p.state fd).toOption.map fun r =>
      receiving r.2 fd r.1 none := by
    simp only [signalStep, hpending, hhandler]
    cases (beginHandler p.state fd).toOption with
    | none => rfl
    | some r => rfl
  rw [aIOUDPSigHandler_begin]
  cases hbegin : beginHandler p.state fd with
  | error halt =>
    -- the handler fails before its first `recv`
    have hnone : signalStep p .deliver = none := by
      rw [hdeliver, hbegin]
      rfl
    constructor
    · intro s hs
      cases hs
    · intro halt' hhalt
      cases hhalt
      exact Or.inl ⟨hbegin, hnone⟩
  | ok r =>
    obtain ⟨d, s₁⟩ := r
    obtain ⟨c, hc⟩ := exists_valOf_of_begin hbegin
    -- the rounds taken one by one come to what the loop does at once
    have hrounds : RoundsTo s₁ fd d none (finish s₁ fd d c) := rounds_finish hc
    have hloop (n : Nat) : (.deliver :: List.replicate n .recv).foldlM signalStep p =
        (List.replicate n .recv).foldlM signalStep (receiving s₁ fd d none) := by
      rw [List.foldlM_cons, hdeliver, hbegin]
      rfl
    simp only [bind, Except.bind, hc, access]
    constructor
    · intro s hs
      rw [hs] at hrounds
      obtain ⟨n, hn⟩ := hrounds
      exact ⟨n, (hloop n).trans hn⟩
    · intro halt hhalt
      rw [hhalt] at hrounds
      obtain ⟨n, s', hn, hround⟩ := hrounds
      exact Or.inr ⟨n, s', d, (hloop n).trans hn, hround, signalStep_recv_error hround⟩

/-- Of the sockets 3 and 4 the second has a datagram. -/
def oneDatagram : Process :=
  { state := twoOpen.requeue 4 [[104, 105]], pending := some 4, handler := none }

/-- The handler returns for the socket 4; a signal of a descriptor without a connection makes
    the delivery follow a null pointer. -/
theorem signal_handled_one :
    (∃ n s, (.deliver :: List.replicate n .recv).foldlM signalStep oneDatagram =
      some (ended none s)) ∧ Fails { oneDatagram with pending := some 5 } 5 .nullPointer :=
  have ⟨n, hn⟩ := (signal_handled oneDatagram 4 rfl rfl).1 _ rfl
  ⟨⟨n, _, hn⟩, (signal_handled { oneDatagram with pending := some 5 } 5 rfl rfl).2 _ rfl⟩

/-- It is handed to the callback of its connection, its last byte overwritten. -/
example : (aIOUDPSigHandler oneDatagram.state 4).toOption.map (fun s => s.calls) =
    some [{ callback := 0, readSize := 2, buffer := [104, 0, 0, 0], args := none }] := by
  rfl

end AsyncUdp
