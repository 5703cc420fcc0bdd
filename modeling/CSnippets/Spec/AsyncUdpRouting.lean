import CSnippets.ForStd.Runs
import CSnippets.ForStd.SharedSignal
import CSnippets.Native.AsyncUdpSignals
import CSnippets.Spec.AsyncUdpDeinit
import CSnippets.Spec.UdpDrained

/-!
# Datagrams on their way to the callbacks

Seen from outside (`Sees`) the process is a `SharedSignal` for the registered sockets.
So every socket's datagrams go to its own callback, each once and in order, whatever
signals are lost; but a signal that is lost may leave a socket behind, and that is possible
as soon as two sockets are open.
-/

namespace AsyncUdp

open SentinelList

variable {p p' : Process} {s : State} {l l' l₀ new : List (Addr × Conn)} {fd : Int} {d : Addr}
  {c : Conn} {front rest : List (Addr × Conn)} {datagram : Datagram} {queue : List Datagram}

/-! ## The handler in its loop -/

/-- What a buffer of the size gets of a datagram. -/
def cut (c : Conn) (datagram : Datagram) : Datagram := datagram.take c.bufferSize.toNat

/-- The handler serves the connection `c` at `d`, whose lock it holds. -/
structure Busy (s : State) (front : List (Addr × Conn)) (d : Addr) (c : Conn)
    (rest : List (Addr × Conn)) : Prop where
  list : IsList s.mem headAddr (front ++ (d, taken c) :: rest)
  head : HeadFree s.mem
  ready : ∀ e ∈ front ++ (d, c) :: rest, Ready s.sockets e.2

/-- The connection at work is locked in memory. -/
theorem Busy.valOf_eq (h : Busy s front d c rest) : valOf s.mem d = some (taken c) :=
  (seg_append.mp h.list).2.1

/-- The head is no connection at work. -/
theorem Busy.ne_head (h : Busy s front d c rest) : headAddr ≠ d := by
  intro hhead
  exact h.list.not_mem_rest (hhead ▸ List.mem_cons_self)

/-- A queue that changes does not matter. -/
theorem Busy.requeue (h : Busy s front d c rest) (fd : Int) (queue : List Datagram) :
    Busy { s with sockets := Function.update s.sockets fd { s.sockets fd with queue := queue } }
      front d c rest where
  list := h.list
  head := h.head
  ready e he := (h.ready e he).congr fun fd' hopen =>
    ((sameButQueue_update queue).isOpen fd').trans hopen

/-- The handler begins: it finds the connection of the socket and takes its lock. -/
theorem Registered.begin (h : Registered s l []) (hfd : ∃ e ∈ l, e.2.fd = fd) :
    ∃ front d c rest m, l = front ++ (d, c) :: rest ∧ c.fd = fd ∧
      beginHandler s fd = .ok (d, { s with mem := m }) ∧
      Busy { s with mem := m } front d c rest := by
  have hlist := h.list
  rw [List.append_nil] at hlist
  have hl : ∀ e ∈ l, e.2.locked = false ∧ e.2.type = .udp := fun e he =>
    ⟨(h.ready e he).unlocked, (h.ready e he).type⟩
  obtain ⟨front, d, c, rest, rfl, hc, hfind⟩ := exists_found h.head h.list hl hfd
  have hd : valOf s.mem d = some c := (seg_append.mp hlist).2.1
  obtain ⟨m, hm, hlock⟩ := lock_free hd (h.ready (d, c) (by simp)).unlocked
  have hhead : headAddr ≠ d := fun hhead => hlist.not_mem_rest (hhead ▸ List.mem_cons_self)
  refine ⟨front, d, c, rest, m, rfl, hc, ?_, hlist.update hm, ?_, h.ready⟩
  · simp [beginHandler, hfind, hlock, bind, Except.bind, pure, Except.pure]
  · apply h.head.congr
    rw [valOf_setVal hm, if_neg hhead]

/-- The handler is done and gives the lock back. -/
theorem Busy.end (h : Busy s front d c rest) :
    ∃ m, endHandler s d = .ok { s with mem := m } ∧
      Registered { s with mem := m } (front ++ (d, c) :: rest) [] := by
  have hc := (h.ready (d, c) (by simp)).unlocked
  obtain ⟨m, hm⟩ := exists_setVal (mem_of_valOf h.valOf_eq) released
  have hunlock : setVal s.mem d (fun c => { c with locked := false }) = some m := hm
  have hlist := h.list.update hm
  rw [released_taken hc] at hlist
  refine ⟨m, ?_, ?_, ?_, h.ready⟩
  · simp [endHandler, unlock, hunlock, bind, Except.bind, pure, Except.pure]
  · rw [List.append_nil]
    exact hlist
  · apply h.head.congr
    rw [valOf_setVal hm, if_neg h.ne_head]

/-! ## One round of the loop -/

/-- `recv` finds nothing. -/
theorem recvRound_nil (h : Busy s front d c rest) (hqueue : (s.sockets fd).queue = []) :
    recvRound s fd d = (fun s => (false, s)) <$> endHandler s d := by
  simp only [recvRound, h.valOf_eq, access_some, hqueue, bind, Except.bind]
  cases endHandler s d with
  | error halt => rfl
  | ok s' => rfl

/-- `recv` returns 0. -/
theorem recvRound_empty (h : Busy s front d c rest) (hqueue : (s.sockets fd).queue = [] :: queue) :
    recvRound s fd d = (fun s => (false, s)) <$> endHandler
      { s with sockets := Function.update s.sockets fd { s.sockets fd with queue := queue } } d := by
  simp only [recvRound, h.valOf_eq, access_some, hqueue, bind, Except.bind, List.length_nil,
    Nat.zero_min, if_true]
  cases endHandler _ d with
  | error halt => rfl
  | ok s' => rfl

/-- A datagram is cut to the size of the buffer. -/
theorem length_cut (c : Conn) (datagram : Datagram) :
    (cut c datagram).length = min datagram.length c.bufferSize.toNat := by
  rw [cut, List.length_take, Nat.min_comm]

/-- `recv` writes what the buffer gets of the datagram. -/
theorem memcpyTo_cut (bytes : List UInt8) (c : Conn) (datagram : Datagram) :
    CMemory.memcpyTo bytes 0 datagram (min datagram.length c.bufferSize.toNat) =
      CMemory.memcpyTo bytes 0 (cut c datagram) (cut c datagram).length := by
  have htake : datagram.take (min datagram.length c.bufferSize.toNat) = cut c datagram := by
    rw [cut, List.take_eq_take_iff]
    omega
  rw [← length_cut, CMemory.memcpyTo, CMemory.memcpyTo, List.take_length]
  rw [← length_cut] at htake
  rw [htake]
  have hle : (cut c datagram).length ≤ datagram.length := by
    rw [length_cut]
    exact Nat.min_le_left ..
  simp only [hle, Nat.le_refl]

/-- A call made for a datagram hands it over. -/
theorem handedOver_callFor (c : Conn) (bytes : List UInt8) (hne : datagram ≠ []) :
    HandedOver c datagram (callFor c.callback c.args bytes datagram) := by
  have hall : ∀ x ∈ [datagram], x.isEmpty = false := by simpa using hne
  have hboth := handedOver_callsFor c bytes hall
  cases hboth with
  | cons hcall _ => exact hcall

/-- The call for a datagram that fits has its bytes in front, the last of them overwritten by
    the terminator. -/
structure Terminated (datagram : Datagram) (call : Call) : Prop where
  bytes : call.buffer.take datagram.length = datagram.dropLast ++ [0]

/-- So is the call that is made for it. -/
theorem terminated_callFor (c : Conn) (bytes : List UInt8) (hne : datagram ≠ []) :
    Terminated datagram (callFor c.callback c.args bytes datagram) := ⟨take_stored bytes hne⟩

/-- A datagram is received and handed over. -/
theorem recvRound_cons (h : Busy s front d c rest)
    (hqueue : (s.sockets fd).queue = datagram :: queue) (hne : datagram ≠ [])
    (hpos : 0 < c.bufferSize) :
    ∃ call bytes m, HandedOver c (cut c datagram) call ∧ Terminated (cut c datagram) call ∧
      recvRound s fd d = .ok (true,
        { s with mem := m, calls := s.calls ++ [call]
                 sockets := Function.update s.sockets fd { s.sockets fd with queue := queue } }) ∧
      Busy { s with mem := m } front d (filled (some bytes) c) rest := by
  have hc : Ready s.sockets c := h.ready (d, c) (by simp)
  obtain ⟨bytes, hbuffer, hlen⟩ := hc.buffer
  have hpos' := List.length_pos_iff.mpr hne
  have hlength := length_cut c datagram
  -- `recv` returns at least one byte, and at most as many as the buffer has
  have hcut : cut c datagram ≠ [] := by
    apply List.ne_nil_of_length_pos
    omega
  have hfit : (cut c datagram).length ≤ bytes.length := by omega
  obtain ⟨copied, hcopy, hterminate⟩ := receive_stored hcut hfit
  obtain ⟨after, hafter⟩ : ∃ after, after = stored bytes (cut c datagram) := ⟨_, rfl⟩
  obtain ⟨m, hm⟩ := exists_setVal (mem_of_valOf h.valOf_eq) (filled (some after))
  have hset : setVal s.mem d (fun c => { c with buffer := some after }) = some m := hm
  refine ⟨callFor c.callback c.args bytes (cut c datagram), after, m,
    handedOver_callFor c bytes hcut, terminated_callFor c bytes hcut, ?_, h.list.update hm, ?_, ?_⟩
  · -- so the terminator is written inside the buffer
    have hread : ¬ min datagram.length c.bufferSize.toNat = 0 := by omega
    have hbefore : ((min datagram.length c.bufferSize.toNat : Nat) : Int) - 1 ≤ c.bufferSize := by
      omega
    have hlast : (((min datagram.length c.bufferSize.toNat : Nat) : Int) - 1).toNat =
        min datagram.length c.bufferSize.toNat - 1 := by omega
    rw [← memcpyTo_cut] at hcopy
    rw [hlength, ← hafter] at hterminate
    have hbuffer' : (taken c).buffer = some bytes := hbuffer
    have hsize : (taken c).bufferSize = c.bufferSize := rfl
    simp only [recvRound, h.valOf_eq, access_some, hqueue, hsize, if_neg hread, hbuffer',
      hcopy, if_pos hbefore, hlast, hterminate, hset, bind, Except.bind, callFor, hlength,
      ← hafter]
    rfl
  · -- nothing else changes in memory
    apply h.head.congr
    rw [valOf_setVal hm, if_neg h.ne_head]
  · intro e he
    obtain hfront | he := List.mem_append.mp he
    · exact h.ready e (List.mem_append_left _ hfront)
    · obtain rfl | hrest := List.mem_cons.mp he
      · exact { type := hc.type, unlocked := hc.unlocked, isOpen := hc.isOpen
                buffer := ⟨after, rfl, hafter ▸ (length_stored hcut hfit).trans hlen⟩ }
      · exact h.ready e (by simp [hrest])

/-! ## The process from outside -/

/-- The registered sockets. -/
def fds (l : List (Addr × Conn)) : List Int := l.map fun e => e.2.fd

/-- The same connections but for the contents of their buffers. -/
def Same (l₀ l : List (Addr × Conn)) : Prop :=
  l.map (fun e => filled none e.2) = l₀.map fun e => filled none e.2

/-- The connections keep their descriptors. -/
theorem Same.fds (h : Same l₀ l) : fds l = fds l₀ := by
  have hmap := congrArg (List.map Conn.fd) h
  rw [List.map_map, List.map_map] at hmap
  exact hmap

/-- Every connection is an earlier one, but for its buffer. -/
theorem Same.exists_of_mem (h : Same l₀ l) {e : Addr × Conn} (he : e ∈ l) :
    ∃ e₀ ∈ l₀, filled none e₀.2 = filled none e.2 := by
  have hmem : filled none e.2 ∈ l.map fun e => filled none e.2 := List.mem_map_of_mem he
  rw [h] at hmem
  exact List.mem_map.mp hmem

/-- Where the handler is. -/
inductive Serving (p : Process) (l : List (Addr × Conn)) : Prop where
  | idle (hhandler : p.handler = none) (h : Registered p.state l [])
  | busy (front : List (Addr × Conn)) (d : Addr) (c : Conn) (rest : List (Addr × Conn))
      (hl : l = front ++ (d, c) :: rest) (hhandler : p.handler = some (c.fd, d))
      (h : Busy p.state front d c rest)

/-- What the socket got was handed over, with a terminator, to the callback of its own
    connection. -/
def Routed (l₀ : List (Addr × Conn)) (x : Int × Datagram) (call : Call) : Prop :=
  ∃ e ∈ l₀, e.2.fd = x.1 ∧ HandedOver e.2 (cut e.2 x.2) call ∧ Terminated (cut e.2 x.2) call

/-- The calls made for what was taken; what is empty is not handed over. -/
def Calls (l₀ : List (Addr × Conn)) (taken : List (Int × Datagram)) (calls : List Call) : Prop :=
  List.Forall₂ (Routed l₀) (taken.filter fun x => !x.2.isEmpty) calls

/-- An empty datagram looks like the end of the queue. -/
def endsLoop (_ : Int) (datagram : Datagram) : Bool := datagram.isEmpty

/-- The process as queues that share a signal: `v` is what it looks like from there. -/
structure Sees (l₀ : List (Addr × Conn)) (p : Process) (v : SharedSignal.State Int Datagram) :
    Prop where
  connections : ∃ l, Same l₀ l ∧ Serving p l
  armed : ∀ fd, Armed p.state fd ↔ fd ∈ fds l₀
  queue : ∀ fd ∈ fds l₀, v.queue fd = (p.state.sockets fd).queue
  pending : v.pending = p.pending
  owner : ∀ fd, p.pending = some fd → fd ∈ fds l₀
  handler : v.serving = p.handler.map Prod.fst
  calls : Calls l₀ v.taken p.state.calls

/-- What arrives at a registered socket. -/
def arrivals (l₀ : List (Addr × Conn)) : Signal → List (Int × Datagram)
  | .arrive fd datagram => if fd ∈ fds l₀ then [(fd, datagram)] else []
  | .deliver => []
  | .recv => []

variable {v v' : SharedSignal.State Int Datagram}

/-- What does not depend on the contents of the buffer. -/
theorem eq_of_filled {c₀ : Conn} (h : filled none c₀ = filled none c) :
    c₀.fd = c.fd ∧ c₀.callback = c.callback ∧ c₀.args = c.args ∧ c₀.bufferSize = c.bufferSize := by
  simp only [filled, Conn.mk.injEq] at h
  tauto

/-- The connection in the list now is the one that was registered. -/
theorem routed_of_handedOver (hsame : Same l₀ (front ++ (d, c) :: rest)) {call : Call}
    (h : HandedOver c (cut c datagram) call) (hterminated : Terminated (cut c datagram) call) :
    Routed l₀ (c.fd, datagram) call := by
  obtain ⟨e₀, he₀, hfilled⟩ := hsame.exists_of_mem (e := (d, c)) (by simp)
  obtain ⟨hfd, hcallback, hargs, hsize⟩ := eq_of_filled hfilled
  have hcut : cut e₀.2 datagram = cut c datagram := by rw [cut, cut, hsize]
  refine ⟨e₀, he₀, hfd, ?_⟩
  rw [hcut]
  have hhanded : HandedOver e₀.2 (cut c datagram) call :=
    { callback := h.callback.trans hcallback.symm
      args := h.args.trans hargs.symm
      readSize := h.readSize
      front := h.front }
  exact ⟨hhanded, hterminated⟩

/-- A process goes on serving while its handler and memory stay and no socket is closed. -/
theorem Serving.congr (h : Serving p l) (hhandler : p'.handler = p.handler)
    (hmem : p'.state.mem = p.state.mem)
    (hopen : ∀ fd, (p.state.sockets fd).isOpen = true → (p'.state.sockets fd).isOpen = true) :
    Serving p' l := by
  cases h with
  | idle hh h =>
    refine .idle (hhandler.trans hh) ⟨hmem ▸ h.list, hmem ▸ h.head, fun e he => ?_⟩
    exact (h.ready e he).congr hopen
  | busy front d c rest hl hh h =>
    refine .busy front d c rest hl (hhandler.trans hh)
      ⟨hmem ▸ h.list, hmem ▸ h.head, fun e he => ?_⟩
    exact (h.ready e he).congr hopen

/-- The process with another queue in one of its sockets. -/
def Process.requeue (p : Process) (fd : Int) (queue : List Datagram) : Process :=
  let sockets := Function.update p.state.sockets fd { p.state.sockets fd with queue := queue }
  { p with state := { p.state with sockets := sockets } }

/-- Writing one queue back leaves the others alone. -/
theorem requeue_queue (p : Process) (fd : Int) (queue : List Datagram) (fd' : Int) :
    ((p.requeue fd queue).state.sockets fd').queue =
      Function.update (fun fd => (p.state.sockets fd).queue) fd queue fd' := by
  show (Function.update p.state.sockets fd _ fd').queue = _
  by_cases hfd : fd' = fd
  · rw [hfd, Function.update_self, Function.update_self]
  · rw [Function.update_of_ne hfd, Function.update_of_ne hfd]

/-- Only the queues of the sockets change. -/
theorem Sees.requeue (h : Sees l₀ p v) (fd : Int) (queue : List Datagram)
    {queues : Int → List Datagram}
    (hqueues : ∀ fd' ∈ fds l₀, queues fd' = Function.update v.queue fd queue fd') :
    Sees l₀ (p.requeue fd queue) { v with queue := queues } where
  connections := by
    obtain ⟨l, hl, hserving⟩ := h.connections
    exact ⟨l, hl, hserving.congr rfl rfl fun fd' hopen =>
      ((sameButQueue_update queue).isOpen fd').trans hopen⟩
  armed fd' := ((sameButQueue_update queue).armed fd').trans (h.armed fd')
  queue fd' hfd' := by
    refine (hqueues fd' hfd').trans ?_
    rw [requeue_queue]
    by_cases hfd : fd' = fd
    · rw [hfd, Function.update_self, Function.update_self]
    · rw [Function.update_of_ne hfd, Function.update_of_ne hfd]
      exact h.queue fd' hfd'
  pending := h.pending
  owner := h.owner
  handler := h.handler
  calls := h.calls

/-- A datagram arrives at a registered socket. -/
theorem Sees.arrive (h : Sees l₀ p v) (hfd : fd ∈ fds l₀) (datagram : Datagram) :
    ∃ p', signalStep p (.arrive fd datagram) = some p' ∧
      Sees l₀ p' { v with queue := Function.update v.queue fd (v.queue fd ++ [datagram])
                          pending := some (v.pending.getD fd) } := by
  have harmed := (h.armed fd).mpr hfd
  have hsees := h.requeue fd ((p.state.sockets fd).queue ++ [datagram]) fun _ _ => rfl
  rw [signalStep, if_pos harmed.1]
  simp only [if_pos harmed]
  refine ⟨_, rfl, ?_⟩
  rw [h.queue fd hfd, h.pending]
  obtain ⟨l, hl, hserving⟩ := hsees.connections
  refine { hsees with
    connections := ⟨l, hl, hserving.congr rfl rfl fun _ hopen => hopen⟩
    pending := rfl, owner := ?_ }
  rintro fd' ⟨⟩
  cases hpending : p.pending with
  | none => exact hfd
  | some fd'' => exact h.owner fd'' hpending

/-- A datagram arrives at another socket, for which nobody asked for signals. -/
theorem Sees.arrive_other (h : Sees l₀ p v) (hfd : fd ∉ fds l₀) (datagram : Datagram) :
    ∃ p', signalStep p (.arrive fd datagram) = some p' ∧ Sees l₀ p' v := by
  have hqueues : ∀ fd' ∈ fds l₀, v.queue fd' =
      Function.update v.queue fd ((p.state.sockets fd).queue ++ [datagram]) fd' := by
    intro fd' hfd'
    rw [Function.update_of_ne]
    rintro rfl
    exact hfd hfd'
  have hsees := h.requeue fd ((p.state.sockets fd).queue ++ [datagram]) hqueues
  rw [signalStep]
  simp only [if_neg (mt (h.armed fd).mp hfd)]
  split
  · exact ⟨_, rfl, hsees⟩
  · exact ⟨p, rfl, h⟩

/-- The handler begins. -/
theorem Sees.deliver (h : Sees l₀ p v) (hpending : p.pending = some fd)
    (hhandler : p.handler = none) :
    ∃ p', signalStep p .deliver = some p' ∧
      Sees l₀ p' { v with pending := none, serving := some fd } := by
  obtain ⟨l, hl, hserving⟩ := h.connections
  cases hserving with
  | busy front d c rest _ hh _ =>
    rw [hhandler] at hh
    -- no other handler runs
    cases hh
  | idle _ hreg =>
    -- the signal is one of a registered socket, whose connection is found
    have hfd : ∃ e ∈ l, e.2.fd = fd := by
      have hmem := h.owner fd hpending
      rw [← hl.fds] at hmem
      exact List.mem_map.mp hmem
    obtain ⟨front, d, c, rest, m, rfl, rfl, hbegin, hbusy⟩ := hreg.begin hfd
    refine ⟨{ state := { p.state with mem := m }, pending := none, handler := some (c.fd, d) },
      ?_, ?_⟩
    · simp only [signalStep, hpending, hhandler, hbegin]
      rfl
    · exact
        { connections := ⟨_, hl, .busy front d c rest rfl rfl hbusy⟩
          armed := h.armed
          queue := h.queue
          pending := rfl
          owner := nofun
          handler := rfl
          calls := h.calls }

/-- The connection that the handler serves. -/
theorem Sees.busy (h : Sees l₀ p v) {conn : Addr} (hhandler : p.handler = some (fd, conn)) :
    ∃ front c rest, Same l₀ (front ++ (conn, c) :: rest) ∧ c.fd = fd ∧
      Busy p.state front conn c rest := by
  obtain ⟨l, hl, hserving⟩ := h.connections
  cases hserving with
  | idle hh _ =>
    rw [hhandler] at hh
    cases hh
  | busy front d c rest hl' hh hbusy =>
    subst hl'
    have hboth := hhandler.symm.trans hh
    simp only [Option.some.injEq, Prod.mk.injEq] at hboth
    obtain ⟨rfl, rfl⟩ := hboth
    exact ⟨front, c, rest, hl, rfl, hbusy⟩

/-- The handler runs for a registered descriptor only. -/
theorem Sees.handler_mem (h : Sees l₀ p v) {conn : Addr} (hhandler : p.handler = some (fd, conn)) :
    fd ∈ fds l₀ := by
  obtain ⟨front, c, rest, hl, rfl, -⟩ := h.busy hhandler
  rw [← hl.fds]
  exact List.mem_map_of_mem (f := fun e : Addr × Conn => e.2.fd) (a := (conn, c)) (by simp)

/-- The handler finds the queue empty and ends. -/
theorem Sees.recv_nil (h : Sees l₀ p v) {conn : Addr} (hhandler : p.handler = some (fd, conn))
    (hqueue : v.queue fd = []) :
    ∃ p', signalStep p .recv = some p' ∧ Sees l₀ p' { v with serving := none } := by
  have hwaiting := (h.queue fd (h.handler_mem hhandler)).symm.trans hqueue
  obtain ⟨front, c, rest, hl, rfl, hbusy⟩ := h.busy hhandler
  obtain ⟨m, hend, hreg⟩ := hbusy.end
  simp only [signalStep, hhandler, recvRound_nil hbusy hwaiting, hend]
  refine ⟨_, rfl, ?_⟩
  exact
    { connections := ⟨_, hl, .idle rfl hreg⟩
      armed := h.armed
      queue := h.queue
      pending := h.pending
      owner := h.owner
      handler := rfl
      calls := h.calls }

/-- The handler takes an empty datagram and ends. -/
theorem Sees.recv_empty (h : Sees l₀ p v) {conn : Addr} (hhandler : p.handler = some (fd, conn))
    (hqueue : v.queue fd = [] :: queue) :
    ∃ p', signalStep p .recv = some p' ∧
      Sees l₀ p' { v with queue := Function.update v.queue fd queue, serving := none
                          taken := v.taken ++ [(fd, [])] } := by
  have hwaiting := (h.queue fd (h.handler_mem hhandler)).symm.trans hqueue
  have hsees := h.requeue fd queue fun _ _ => rfl
  obtain ⟨front, c, rest, hl, rfl, hbusy⟩ := h.busy hhandler
  obtain ⟨m, hend, hreg⟩ := (hbusy.requeue c.fd queue).end
  simp only [signalStep, hhandler, recvRound_empty hbusy hwaiting, hend]
  refine ⟨_, rfl, ?_⟩
  exact
    { connections := ⟨_, hl, .idle rfl hreg⟩
      armed := hsees.armed
      queue := hsees.queue
      pending := hsees.pending
      owner := hsees.owner
      handler := rfl
      calls := by
        show Calls l₀ (v.taken ++ [(c.fd, [])]) p.state.calls
        rw [Calls, List.filter_append]
        exact (List.append_nil (List.filter _ v.taken)).symm ▸ h.calls }

/-- The handler takes a datagram, hands it over and goes on. -/
theorem Sees.recv_cons (h : Sees l₀ p v) (hpos : ∀ e ∈ l₀, 0 < e.2.bufferSize) {conn : Addr}
    (hhandler : p.handler = some (fd, conn)) (hqueue : v.queue fd = datagram :: queue)
    (hne : datagram ≠ []) :
    ∃ p', signalStep p .recv = some p' ∧ p'.handler = p.handler ∧
      Sees l₀ p' { v with queue := Function.update v.queue fd queue
                          taken := v.taken ++ [(fd, datagram)] } := by
  have hwaiting := (h.queue fd (h.handler_mem hhandler)).symm.trans hqueue
  have hsees := h.requeue fd queue fun _ _ => rfl
  obtain ⟨front, c, rest, hl, rfl, hbusy⟩ := h.busy hhandler
  -- the connection has kept the size of its buffer
  have hsize : 0 < c.bufferSize := by
    obtain ⟨e₀, he₀, hfilled⟩ := hl.exists_of_mem (e := (conn, c)) (by simp)
    rw [← (eq_of_filled hfilled).2.2.2]
    exact hpos e₀ he₀
  obtain ⟨call, bytes, m, hcall, hterminated, hround, hbusy'⟩ :=
    recvRound_cons hbusy hwaiting hne hsize
  simp only [signalStep, hhandler, hround]
  have hends : datagram.isEmpty = false := by simpa using hne
  -- only the contents of its buffer change
  have hsame : Same l₀ (front ++ (conn, filled (some bytes) c) :: rest) := by
    unfold Same at hl ⊢
    rw [← hl]
    simp [filled]
  have hbusy'' := hbusy'.requeue c.fd queue
  refine ⟨_, rfl, rfl, ?_⟩
  exact
    { connections :=
        ⟨_, hsame, .busy front conn _ rest rfl rfl ⟨hbusy''.list, hbusy''.head, hbusy''.ready⟩⟩
      armed := hsees.armed
      queue := hsees.queue
      pending := hsees.pending
      owner := hsees.owner
      handler := h.handler.trans (by rw [hhandler]; rfl)
      calls := by
        -- the datagram just taken belongs to the call just made
        show Calls l₀ (v.taken ++ [(c.fd, datagram)]) (p.state.calls ++ [call])
        rw [Calls, List.filter_append]
        apply List.rel_append h.calls
        rw [List.filter_cons, hends]
        exact .cons (routed_of_handedOver hl hcall hterminated) .nil }

/-- The handler makes its next call of `recv`. -/
theorem Sees.recv (h : Sees l₀ p v) (hpos : ∀ e ∈ l₀, 0 < e.2.bufferSize) {conn : Addr}
    (hhandler : p.handler = some (fd, conn)) :
    ∃ p' v', signalStep p .recv = some p' ∧ SharedSignal.Step endsLoop v [] v' ∧ Sees l₀ p' v' := by
  have hserving : v.serving = some fd := by rw [h.handler, hhandler]; rfl
  cases hqueue : v.queue fd with
  | nil =>
    obtain ⟨p', hstep, hsees⟩ := h.recv_nil hhandler hqueue
    exact ⟨p', _, hstep, .finish fd hserving hqueue, hsees⟩
  | cons datagram queue =>
    have htake : SharedSignal.Step endsLoop v [] _ := .take fd datagram queue hserving hqueue
    by_cases hne : datagram = []
    · subst hne
      obtain ⟨p', hstep, hsees⟩ := h.recv_empty hhandler hqueue
      exact ⟨p', _, hstep, htake, hsees⟩
    · obtain ⟨p', hstep, -, hsees⟩ := h.recv_cons hpos hhandler hqueue hne
      have hends : endsLoop fd datagram = false := by simpa [endsLoop] using hne
      rw [hends, ← hserving] at htake
      exact ⟨p', _, hstep, htake, hsees⟩

/-- A step is defined and is one of the queues, unless there is no signal or no handler for it. -/
theorem Sees.step (h : Sees l₀ p v) (hpos : ∀ e ∈ l₀, 0 < e.2.bufferSize) {e : Signal}
    (hstep : signalStep p e = some p') :
    ∃ v', SharedSignal.Step endsLoop v (arrivals l₀ e) v' ∧ Sees l₀ p' v' := by
  cases e with
  | arrive fd datagram =>
    rw [arrivals]
    split
    · -- a registered socket queues the datagram and raises the signal
      rename_i hfd
      obtain ⟨p₁, hstep₁, hsees⟩ := h.arrive hfd datagram
      obtain rfl := Option.some.inj (hstep₁.symm.trans hstep)
      exact ⟨_, .arrive fd datagram, hsees⟩
    · -- what arrives elsewhere is not seen
      rename_i hfd
      obtain ⟨p₁, hstep₁, hsees⟩ := h.arrive_other hfd datagram
      obtain rfl := Option.some.inj (hstep₁.symm.trans hstep)
      exact ⟨v, .stay, hsees⟩
  | deliver =>
    cases hpending : p.pending with
    | none => simp [signalStep, hpending] at hstep
    | some fd =>
      cases hhandler : p.handler with
      | some k => simp [signalStep, hpending, hhandler] at hstep
      | none =>
        obtain ⟨p₁, hstep₁, hsees⟩ := h.deliver hpending hhandler
        obtain rfl := Option.some.inj (hstep₁.symm.trans hstep)
        -- the handler serves the socket that the signal names
        refine ⟨_, .deliver fd (h.pending.trans hpending) ?_, hsees⟩
        rw [h.handler, hhandler]
        rfl
  | recv =>
    cases hhandler : p.handler with
    | none => simp [signalStep, hhandler] at hstep
    | some k =>
      obtain ⟨p₁, v', hstep₁, hview, hsees⟩ := h.recv hpos hhandler
      obtain rfl := Option.some.inj (hstep₁.symm.trans hstep)
      exact ⟨v', hview, hsees⟩

/-! ## Runs -/

/-- The registered sockets have just been opened, and signals have been asked for them and for no
    other socket. -/
structure Listening (p : Process) (l : List (Addr × Conn)) : Prop where
  registered : Registered p.state l []
  armed : ∀ fd, Armed p.state fd ↔ fd ∈ fds l
  sizes : ∀ e ∈ l, 0 < e.2.bufferSize
  queues : ∀ fd ∈ fds l, (p.state.sockets fd).queue = []
  pending : p.pending = none
  handler : p.handler = none
  calls : p.state.calls = []

/-- Nothing has arrived yet. -/
def silent : SharedSignal.State Int Datagram :=
  { queue := fun _ => [], pending := none, serving := none, taken := [] }

/-- Before the first event nothing has been received or handed over. -/
theorem Listening.sees (h : Listening p l) : Sees l p silent where
  connections := ⟨l, rfl, .idle h.handler h.registered⟩
  armed := h.armed
  queue fd hfd := (h.queues fd hfd).symm
  pending := h.pending.symm
  owner fd hfd := by
    rw [h.pending] at hfd
    cases hfd
  handler := by
    rw [h.handler]
    rfl
  calls := by
    rw [h.calls]
    exact .nil

/-- Where the receiving loop ends: the queue is empty, or an empty datagram is its next. -/
def endsAt (queue : List Datagram) : Bool := queue.head?.all List.isEmpty

/-- The handler can go on, and it comes to its end. -/
structure Proceeds (p : Process) : Prop where
  /-- It begins if a signal is pending. -/
  deliver : p.pending ≠ none → p.handler = none → (signalStep p .deliver).isSome
  /-- Its next round takes the next datagram, and is the last exactly where the loop ends. -/
  recv : ∀ fd conn, p.handler = some (fd, conn) → ∃ p', signalStep p .recv = some p' ∧
    (p'.state.sockets fd).queue = (p.state.sockets fd).queue.tail ∧
    p'.handler = if endsAt (p.state.sockets fd).queue then none else p.handler
  /-- While nothing arrives, it needs no more rounds than there are datagrams, and one. -/
  ends : ∀ fd conn, p.handler = some (fd, conn) →
    ∃ n ≤ (p.state.sockets fd).queue.length + 1, ∃ p',
      (List.replicate n .recv).foldlM signalStep p = some p' ∧ p'.handler = none

/-- A pending signal is delivered when no handler runs. -/
theorem Sees.deliver_isSome (h : Sees l₀ p v) (hpending : p.pending ≠ none)
    (hhandler : p.handler = none) : (signalStep p .deliver).isSome := by
  obtain ⟨fd, hfd⟩ := Option.ne_none_iff_exists'.mp hpending
  obtain ⟨p', hstep, -⟩ := h.deliver hfd hhandler
  rw [hstep]
  rfl

/-- What is seen without a handler has none. -/
theorem Sees.handler_eq_none (h : Sees l₀ p v) (hserving : v.serving = none) :
    p.handler = none := by
  rw [h.handler] at hserving
  exact Option.map_eq_none_iff.mp hserving

/-- The next round, as the queue of the socket shows it. -/
theorem Sees.recv_round (h : Sees l₀ p v) (hpos : ∀ e ∈ l₀, 0 < e.2.bufferSize) {conn : Addr}
    (hhandler : p.handler = some (fd, conn)) :
    ∃ p' v', signalStep p .recv = some p' ∧ Sees l₀ p' v' ∧
      (p'.state.sockets fd).queue = (p.state.sockets fd).queue.tail ∧
      p'.handler = if endsAt (p.state.sockets fd).queue then none else p.handler := by
  have hfd := h.handler_mem hhandler
  rw [← h.queue fd hfd]
  cases hqueue : v.queue fd with
  | nil =>
    -- nothing waits: `recv` fails and ends the loop
    obtain ⟨p', hstep, hsees⟩ := h.recv_nil hhandler hqueue
    refine ⟨p', _, hstep, hsees, ?_, hsees.handler_eq_none rfl⟩
    rw [← hsees.queue fd hfd]
    exact hqueue
  | cons datagram queue =>
    by_cases hne : datagram = []
    · -- 0 ends the loop as well
      subst hne
      obtain ⟨p', hstep, hsees⟩ := h.recv_empty hhandler hqueue
      refine ⟨p', _, hstep, hsees, ?_, hsees.handler_eq_none rfl⟩
      rw [← hsees.queue fd hfd]
      exact Function.update_self ..
    · -- the loop goes on to what is behind
      obtain ⟨p', hstep, hsame, hsees⟩ := h.recv_cons hpos hhandler hqueue hne
      refine ⟨p', _, hstep, hsees, ?_, ?_⟩
      · rw [← hsees.queue fd hfd]
        exact Function.update_self ..
      · have hgoesOn : endsAt (datagram :: queue) = false := by simpa [endsAt] using hne
        rw [hgoesOn, hsame]
        rfl

/-- The rounds come to an end; the induction is on the datagrams that wait. -/
theorem Sees.recv_ends (h : Sees l₀ p v) (hpos : ∀ e ∈ l₀, 0 < e.2.bufferSize) {conn : Addr}
    (hhandler : p.handler = some (fd, conn)) :
    ∃ n ≤ (p.state.sockets fd).queue.length + 1, ∃ p',
      (List.replicate n .recv).foldlM signalStep p = some p' ∧ p'.handler = none := by
  generalize hqueue : (p.state.sockets fd).queue = queue
  induction queue generalizing p v with
  | nil =>
    obtain ⟨p', v', hstep, -, -, hend⟩ := h.recv_round hpos hhandler
    rw [hqueue] at hend
    exact ⟨1, Nat.le_refl 1, p', Runs.run_cons.mpr ⟨p', hstep, rfl⟩, hend⟩
  | cons datagram queue ih =>
    obtain ⟨p', v', hstep, hsees, htail, hend⟩ := h.recv_round hpos hhandler
    rw [hqueue] at htail hend
    cases hlast : endsAt (datagram :: queue) with
    | true =>
      rw [hlast] at hend
      exact ⟨1, by simp, p', Runs.run_cons.mpr ⟨p', hstep, rfl⟩, hend⟩
    | false =>
      rw [hlast] at hend
      obtain ⟨n, hn, p'', hrun, hnone⟩ := ih hsees (hend.trans hhandler) htail
      refine ⟨n + 1, by rw [List.length_cons]; omega, p'', ?_, hnone⟩
      rw [List.replicate_succ]
      exact Runs.run_cons.mpr ⟨p', hstep, hrun⟩

/-- What is seen of a process says that its handler proceeds. -/
theorem Sees.proceeds (h : Sees l₀ p v) (hpos : ∀ e ∈ l₀, 0 < e.2.bufferSize) : Proceeds p where
  deliver := h.deliver_isSome
  recv fd conn hhandler := by
    obtain ⟨p', v', hstep, -, htail, hend⟩ := h.recv_round hpos hhandler
    exact ⟨p', hstep, htail, hend⟩
  ends fd conn hhandler := h.recv_ends hpos hhandler

/-- Whatever arrives at any number of sockets, and whenever the handler runs: it never crashes,
    hangs or goes round for ever; every registered socket's datagrams are received once and in
    order and, unless they are empty, handed with a terminator to the callback of its own
    connection; the others wait. -/
theorem datagrams_routed (p : Process) (l : List (Addr × Conn)) (h : Listening p l)
    (es : List Signal) (p' : Process) (hrun : es.foldlM signalStep p = some p') :
    Proceeds p' ∧ ∃ taken, Calls l taken p'.state.calls ∧
      ∀ fd ∈ fds l, SharedSignal.itemsOf fd (es.flatMap (arrivals l)) =
        SharedSignal.itemsOf fd taken ++ (p'.state.sockets fd).queue := by
  have hkept : ∃ v, Sees l p' v ∧ SharedSignal.Balanced ([] ++ es.flatMap (arrivals l)) v := by
    apply Runs.run_gathers (J := fun w p => ∃ v, Sees l p v ∧ SharedSignal.Balanced w v) _
      ⟨silent, h.sees, fun fd => rfl⟩ hrun
    rintro w p e p' ⟨v, hsees, hbalanced⟩ hstep
    obtain ⟨v', hview, hsees'⟩ := hsees.step h.sizes hstep
    exact ⟨v', hsees', hbalanced.step hview⟩
  obtain ⟨v, hsees, hbalanced⟩ := hkept
  refine ⟨hsees.proceeds h.sizes, v.taken, hsees.calls, fun fd hfd => ?_⟩
  rw [← hsees.queue fd hfd]
  exact hbalanced fd

/-- No datagram that is not empty is left behind: whatever arrives, when no signal is pending and
    no handler runs all queues are empty. -/
def NothingLeft (p : Process) (l : List (Addr × Conn)) : Prop :=
  ∀ (es : List Signal) (p' : Process), (∀ x ∈ es.flatMap (arrivals l), x.2 ≠ []) →
    es.foldlM signalStep p = some p' → p'.pending = none → p'.handler = none →
      ∀ fd ∈ fds l, (p'.state.sockets fd).queue = []

/-- With one socket no other one's signal is in the way. -/
theorem Listening.nothingLeft (h : Listening p l) (hone : ∀ fd ∈ fds l, ∀ fd' ∈ fds l, fd = fd') :
    NothingLeft p l := by
  intro es p' harrivals hrun hpending hhandler fd hfd
  -- the process is seen as queues with one signal, and these stay covered
  have hkept : ∃ v, Sees l p' v ∧ SharedSignal.Balanced ([] ++ es.flatMap (arrivals l)) v ∧
      ((∀ x ∈ [] ++ es.flatMap (arrivals l), endsLoop x.1 x.2 = false) →
        SharedSignal.Covered v) := by
    apply Runs.run_gathers (J := fun w p => ∃ v, Sees l p v ∧ SharedSignal.Balanced w v ∧
      ((∀ x ∈ w, endsLoop x.1 x.2 = false) → SharedSignal.Covered v)) _
      ⟨silent, h.sees, fun fd => rfl, fun _ fd hfd => absurd rfl hfd⟩ hrun
    rintro w p e p' ⟨v, hsees, hbalanced, hcovered⟩ hstep
    obtain ⟨v', hview, hsees'⟩ := hsees.step h.sizes hstep
    refine ⟨v', hsees', hbalanced.step hview, fun hw => ?_⟩
    have hw' : ∀ x ∈ w, endsLoop x.1 x.2 = false := fun x hx => hw x (List.mem_append_left _ hx)
    refine (hcovered hw').step hview ?_ (hbalanced.noStop hw')
    intro x hx fd hfd
    rw [hsees.pending] at hfd
    -- with one socket a pending signal is always the right one
    refine hone fd (hsees.owner fd hfd) x.1 ?_
    cases e with
    | arrive fd' datagram =>
      rw [arrivals] at hx
      split at hx
      · rename_i hfd'
        rw [List.mem_singleton.mp hx]
        exact hfd'
      · cases hx
    | deliver => cases hx
    | recv => cases hx
  obtain ⟨v, hsees, -, hcovered⟩ := hkept
  have hquiescent : SharedSignal.Quiescent v :=
    { pending := hsees.pending.trans hpending
      serving := by rw [hsees.handler, hhandler]; rfl }
  rw [← hsees.queue fd hfd]
  refine (hcovered fun x hx => ?_).empty hquiescent
  simpa [endsLoop] using harrivals x hx

/-- What is seen serving has a handler for that socket. -/
theorem Sees.exists_handler (h : Sees l₀ p v) (hserving : v.serving = some fd) :
    ∃ conn, p.handler = some (fd, conn) := by
  rw [h.handler] at hserving
  obtain ⟨⟨_, conn⟩, hhandler, rfl⟩ := Option.map_eq_some_iff.mp hserving
  exact ⟨conn, hhandler⟩

/-- A datagram arrives at each of two sockets before the handler runs. -/
def twoArrive (fd fd' : Int) : List Signal :=
  [.arrive fd [0], .arrive fd' [0], .deliver, .recv, .recv]

/-- The second of them is left behind. -/
theorem Listening.left_behind (h : Listening p l) {fd' : Int} (hfd : fd ∈ fds l)
    (hfd' : fd' ∈ fds l) (hne : fd ≠ fd') : ¬ NothingLeft p l := by
  intro hnothing
  obtain ⟨p₁, hstep₁, h₁⟩ := h.sees.arrive hfd [0]
  obtain ⟨p₂, hstep₂, h₂⟩ := h₁.arrive hfd' [0]
  -- one datagram waits at each of the two, and the signal is the first one's
  obtain ⟨v, hv, hpending, hserving, hqueue, hqueue'⟩ : ∃ v, Sees l p₂ v ∧ v.pending = some fd ∧
      v.serving = none ∧ v.queue fd = [[0]] ∧ v.queue fd' = [[0]] := by
    refine ⟨_, h₂, rfl, rfl, ?_, ?_⟩
    · simp [silent, hne]
    · simp [silent, hne.symm]
  obtain ⟨p₃, hstep₃, h₃⟩ :=
    hv.deliver (hv.pending.symm.trans hpending) (hv.handler_eq_none hserving)
  obtain ⟨conn₃, hhandler₃⟩ := h₃.exists_handler rfl
  obtain ⟨p₄, hstep₄, -, h₄⟩ := h₃.recv_cons h.sizes hhandler₃ hqueue (List.cons_ne_nil 0 [])
  obtain ⟨conn₄, hhandler₄⟩ := h₄.exists_handler rfl
  obtain ⟨p₅, hstep₅, h₅⟩ := h₄.recv_nil hhandler₄ (Function.update_self ..)
  have hrun : (twoArrive fd fd').foldlM signalStep p = some p₅ :=
    Runs.run_cons.mpr ⟨p₁, hstep₁, Runs.run_cons.mpr ⟨p₂, hstep₂, Runs.run_cons.mpr ⟨p₃, hstep₃,
      Runs.run_cons.mpr ⟨p₄, hstep₄, Runs.run_cons.mpr ⟨p₅, hstep₅, rfl⟩⟩⟩⟩⟩
  have harrivals : (twoArrive fd fd').flatMap (arrivals l) = [(fd, [0]), (fd', [0])] := by
    simp [twoArrive, arrivals, hfd, hfd']
  have hleft := hnothing (twoArrive fd fd') p₅ (by rw [harrivals]; simp) hrun h₅.pending.symm
    (h₅.handler_eq_none rfl) fd' hfd'
  have hfull : (p₅.state.sockets fd').queue = [[0]] := by
    rw [← h₅.queue fd' hfd', ← hqueue']
    exact Function.update_of_ne hne.symm ..
  rw [hfull] at hleft
  cases hleft

/-- Nothing is ever left behind if and only if no more than one socket is open. -/
theorem nothing_left_iff (p : Process) (l : List (Addr × Conn)) (h : Listening p l) :
    NothingLeft p l ↔ ∀ fd ∈ fds l, ∀ fd' ∈ fds l, fd = fd' := by
  constructor
  · intro hnothing fd hfd fd' hfd'
    by_contra hne
    exact h.left_behind hfd hfd' hne hnothing
  · exact h.nothingLeft

/-- The two sockets 3 and 4. -/
def twoListening : Process :=
  { state := { twoOpen with pc := .main }, pending := none, handler := none }

/-- The process with two sockets is listening. -/
theorem listening_twoListening : Listening twoListening [(8, udpConn 3), (16, udpConn 4)] where
  registered :=
    { list := quitting_twoOpen.list
      head := quitting_twoOpen.head
      ready := quitting_twoOpen.ready }
  armed fd := by
    have hfds : fd ∈ fds [(8, udpConn 3), (16, udpConn 4)] ↔ 3 ≤ fd ∧ fd ≤ 4 := by
      simp only [fds, udpConn, List.map_cons, List.map_nil, List.mem_cons, List.not_mem_nil,
        or_false]
      omega
    rw [hfds]
    simp [Armed, twoListening, twoOpen]
  sizes := by decide
  queues _ _ := rfl
  pending := rfl
  handler := rfl
  calls := rfl

/-- A run in which two sockets receive leaves a datagram behind. -/
theorem nothing_left_two : ¬ NothingLeft twoListening [(8, udpConn 3), (16, udpConn 4)] :=
  fun h => absurd ((nothing_left_iff _ _ listening_twoListening).mp h 3 (by decide) 4 (by decide))
    (by decide)

/-- The socket that is left behind has its datagram still, the other one's has been handed over. -/
theorem datagrams_routed_two :
    ∃ taken p', (twoArrive 3 4).foldlM signalStep twoListening = some p' ∧
      Calls [(8, udpConn 3), (16, udpConn 4)] taken p'.state.calls ∧
      [[0]] = SharedSignal.itemsOf 4 taken ++ (p'.state.sockets 4).queue :=
  have hrun : (twoArrive 3 4).foldlM signalStep twoListening =
      some (((twoArrive 3 4).foldlM signalStep twoListening).getD twoListening) := rfl
  have ⟨_, taken, hcalls, hqueues⟩ := datagrams_routed _ _ listening_twoListening _ _ hrun
  ⟨taken, _, hrun, hcalls, hqueues 4 (by decide)⟩

end AsyncUdp
