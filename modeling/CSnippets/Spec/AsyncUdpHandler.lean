import CSnippets.Spec.AsyncUdpFind

/-!
# The `SIGIO` handler

Once the connection is found the handler receives into its buffer until the socket is
empty. It serves every registered socket, and an interrupt changes nothing that
`aIOOpenUDPSocket` relies on.
-/

namespace AsyncUdp

open SentinelList

variable {s s' : State} {l l' new : List (Addr × Conn)} {fd : Int} {d : Addr} {c : Conn}
  {sockets sockets' : Int → Socket} {m m' : Memory Conn}

/-! ## Receiving -/

/-- The connection with other contents of its buffer. -/
def filled (buffer : Option (List UInt8)) (c : Conn) : Conn := { c with buffer := buffer }

/-- When the connection is found, the handler is its receive loop: of memory only the
    buffer of the connection changes. -/
theorem aIOUDPSigHandler_eq {s : State} (hfind : findConnection s.mem .udp fd = .ok (some d, s.mem))
    (hd : valOf s.mem d = some c) (hc : c.locked = false) :
    aIOUDPSigHandler s fd = do
      let (buffer, calls, queue) ←
        recvLoop c.bufferSize c.callback c.args c.buffer (s.sockets fd).queue
      let m ← access (setVal s.mem d (filled buffer))
      return { s with
        mem := m, calls := s.calls ++ calls,
        sockets := Function.update s.sockets fd { s.sockets fd with queue := queue } } := by
  obtain ⟨m₁, hm₁, hlock⟩ := lock_free hd hc
  have hd₁ : valOf m₁ d = some (taken c) := by
    rw [valOf_setVal hm₁, if_pos rfl, hd, Option.map_some]
  have hsame : recvLoop (taken c).bufferSize (taken c).callback (taken c).args (taken c).buffer
      (s.sockets fd).queue = recvLoop c.bufferSize c.callback c.args c.buffer
      (s.sockets fd).queue := rfl
  unfold aIOUDPSigHandler
  simp only [hfind, hlock, hd₁, hsame, access_some, bind, Except.bind]
  cases recvLoop c.bufferSize c.callback c.args c.buffer (s.sockets fd).queue with
  | error halt => rfl
  | ok result =>
    obtain ⟨buffer, calls, queue⟩ := result
    obtain ⟨m₂, hm₂⟩ := exists_setVal (mem_of_valOf hd₁) (filled buffer)
    obtain ⟨m₃, hm₃⟩ := exists_setVal (mem_of_valOf hd) (filled buffer)
    -- lock, buffer and unlock together write the buffer
    have hunlock : setVal m₂ d released = some m₃ := by
      rw [setVal_setVal hm₂, setVal_setVal hm₁, ← hm₃]
      apply setVal_congr hd
      show released (filled buffer (taken c)) = filled buffer c
      rw [← released_taken hc]
      rfl
    have hfill : setVal m₁ d (fun c => { c with buffer := buffer }) = some m₂ := hm₂
    have hrelease : setVal m₂ d (fun c => { c with locked := false }) = some m₃ := hunlock
    simp [hfill, unlock, hrelease, hm₃]

/-- The receive loop stays inside a buffer of the size it is given. -/
theorem recvLoop_ok {bufferSize : Int} {callback : Nat} {args : Option Nat} {bytes : List UInt8}
    {queue : List Datagram} (hlen : bytes.length = bufferSize.toNat) :
    ∃ bytes' calls queue', recvLoop bufferSize callback args (some bytes) queue =
      .ok (some bytes', calls, queue') ∧ bytes'.length = bufferSize.toNat := by
  induction queue generalizing bytes with
  | nil => exact ⟨bytes, [], [], rfl, hlen⟩
  | cons datagram queue ih =>
    by_cases hread : min datagram.length bufferSize.toNat = 0
    · exact ⟨bytes, [], queue, by simp [recvLoop, hread, pure, Except.pure], hlen⟩
    · -- the datagram, cut to the size of the buffer, and the zero over its last byte
      obtain ⟨readSize, hsize⟩ : ∃ k, k = min datagram.length bufferSize.toNat := ⟨_, rfl⟩
      rw [← hsize] at hread
      have hlast : (readSize : Int) - 1 ≤ bufferSize := by omega
      obtain ⟨b₁, h₁, hlen₁⟩ : ∃ b₁, CMemory.memcpyTo bytes 0 datagram readSize = some b₁ ∧
          b₁.length = bytes.length := CMemory.exists_memcpyTo (by omega) (by omega)
      obtain ⟨b₂, h₂, hlen₂⟩ : ∃ b₂, CMemory.memcpyTo b₁ ((readSize : Int) - 1).toNat [0] 1 =
          some b₂ ∧ b₂.length = b₁.length := CMemory.exists_memcpyTo (by omega) (by simp)
      obtain ⟨b₃, calls, queue', h₃, hlen₃⟩ := ih (show b₂.length = bufferSize.toNat by omega)
      refine ⟨b₃, ⟨callback, readSize, b₂, args⟩ :: calls, queue', ?_, hlen₃⟩
      simp only [recvLoop, ← hsize, if_neg hread, if_pos hlast, h₁, h₂, h₃, access_some, bind,
        Except.bind, pure, Except.pure]

/-! ## Registered connections -/

/-- A UDP connection with a buffer of the size it says. -/
structure Made (c : Conn) : Prop where
  type : c.type = .udp
  buffer : ∃ bytes, c.buffer = some bytes ∧ bytes.length = c.bufferSize.toNat

/-- A connection that `aIOOpenUDPSocket` is done with. -/
structure Ready (sockets : Int → Socket) (c : Conn) : Prop extends Made c where
  unlocked : c.locked = false
  isOpen : (sockets c.fd).isOpen = true

/-- The list holds the registered connections `l` and behind them `new`, which
    `aIOOpenUDPSocket` has not finished. -/
structure Registered (s : State) (l new : List (Addr × Conn)) : Prop where
  list : IsList s.mem headAddr (l ++ new)
  head : HeadFree s.mem
  ready : ∀ e ∈ l, Ready s.sockets e.2

/-- Whether the head is free depends on the head only. -/
theorem HeadFree.congr (h : HeadFree m) (hval : valOf m' headAddr = valOf m headAddr) :
    HeadFree m' := by
  obtain ⟨c, hc, hunlocked⟩ := h
  exact ⟨c, hval.trans hc, hunlocked⟩

/-- A connection stays ready while no socket is closed. -/
theorem Ready.congr (h : Ready sockets c)
    (hopen : ∀ fd, (sockets fd).isOpen = true → (sockets' fd).isOpen = true) :
    Ready sockets' c :=
  { h with isOpen := hopen c.fd h.isOpen }

/-- No connection stands at the address of the head. -/
theorem Registered.not_mem_head (h : Registered s l new) (hd : d ∈ (l ++ new).map Prod.fst) :
    d ≠ headAddr := by
  intro hdhead
  exact (List.nodup_cons.mp h.list.nodup).1 (hdhead ▸ hd)

/-- What `recv` and a datagram that arrives leave of the sockets: all but a queue. -/
structure SameButQueue (sockets sockets' : Int → Socket) : Prop where
  isOpen : ∀ fd, (sockets' fd).isOpen = (sockets fd).isOpen
  async : ∀ fd, (sockets' fd).async = (sockets fd).async
  sig : ∀ fd, (sockets' fd).sig = (sockets fd).sig
  owner : ∀ fd, (sockets' fd).owner = (sockets fd).owner

/-- The sockets differ in no queue from themselves. -/
theorem SameButQueue.refl (sockets : Int → Socket) : SameButQueue sockets sockets :=
  ⟨fun _ => rfl, fun _ => rfl, fun _ => rfl, fun _ => rfl⟩

/-- Which sockets are armed does not depend on their queues. -/
theorem SameButQueue.armed (h : SameButQueue s.sockets s'.sockets) (fd : Int) :
    Armed s' fd ↔ Armed s fd := by
  unfold Armed
  rw [h.isOpen, h.async, h.sig, h.owner]

/-- Whether a socket is armed depends on that socket only. -/
theorem armed_congr (h : s'.sockets fd = s.sockets fd) : Armed s' fd ↔ Armed s fd := by
  unfold Armed
  rw [h]

/-- A new queue for one socket changes nothing but queues. -/
theorem sameButQueue_update (queue : List Datagram) :
    SameButQueue sockets (Function.update sockets fd { sockets fd with queue := queue }) := by
  constructor
  all_goals
    intro fd'
    by_cases h : fd' = fd
    · rw [h, Function.update_self]
    · rw [Function.update_of_ne h]

/-! ## Interrupts -/

/-- What an interrupt changes: the queue of a socket and perhaps the contents of one
    registered buffer. -/
structure Interrupted (l : List (Addr × Conn)) (s s' : State) (l' : List (Addr × Conn)) :
    Prop where
  pc : s'.pc = s.pc
  sockets : SameButQueue s.sockets s'.sockets
  addrs : l'.map Prod.fst = l.map Prod.fst
  fds : l'.map (fun e => e.2.fd) = l.map fun e => e.2.fd
  frame : ∀ a, a ∉ l.map Prod.fst →
    nextOf s'.mem a = nextOf s.mem a ∧ valOf s'.mem a = valOf s.mem a

/-- The handler serves every registered socket. -/
theorem Registered.served (h : Registered s l new) (hfd : ∃ e ∈ l, e.2.fd = fd) :
    ∃ s' l', aIOUDPSigHandler s fd = .ok s' ∧ Registered s' l' new ∧ Interrupted l s s' l' := by
  have hl : ∀ e ∈ l, e.2.locked = false ∧ e.2.type = .udp := fun e he =>
    ⟨(h.ready e he).unlocked, (h.ready e he).type⟩
  obtain ⟨front, d, w, rest, rfl, -, hfind⟩ := exists_found h.head h.list hl hfd
  have hw : Ready s.sockets w := h.ready (d, w) (by simp)
  have hlist : IsList s.mem headAddr (front ++ (d, w) :: (rest ++ new)) := by
    simpa using h.list
  have hd : valOf s.mem d = some w := (seg_append.mp hlist).2.1
  have hdhead : headAddr ≠ d := (h.not_mem_head (by simp)).symm
  obtain ⟨bytes, hbuffer, hlen⟩ := hw.buffer
  -- of memory only the buffer of `d` changes
  obtain ⟨bytes', calls, queue, hrecv, hlen'⟩ := recvLoop_ok hlen
  obtain ⟨m', hm'⟩ := exists_setVal (mem_of_valOf hd) (filled (some bytes'))
  have hrun := aIOUDPSigHandler_eq hfind hd hw.unlocked
  rw [hbuffer, hrecv] at hrun
  simp only [bind, Except.bind, hm', access_some, pure, Except.pure] at hrun
  have hsame : SameButQueue s.sockets (Function.update s.sockets fd
      { s.sockets fd with queue := queue }) := sameButQueue_update queue
  refine ⟨_, front ++ (d, filled (some bytes') w) :: rest, hrun, ⟨?_, ?_, ?_⟩,
    ⟨rfl, hsame, ?_, ?_, ?_⟩⟩
  · simpa using hlist.update hm'
  · apply h.head.congr
    rw [valOf_setVal hm', if_neg hdhead]
  · intro e he
    have hopen : ∀ fd', (s.sockets fd').isOpen = true → _ := fun fd' hopen =>
      (hsame.isOpen fd').trans hopen
    rcases List.mem_append.mp he with hfront | hrest
    · exact (h.ready e (List.mem_append_left _ hfront)).congr hopen
    · rcases List.mem_cons.mp hrest with rfl | hrest
      · exact { type := hw.type, buffer := ⟨bytes', rfl, hlen'⟩, unlocked := hw.unlocked,
                isOpen := hopen _ hw.isOpen }
      · exact (h.ready e (by simp [hrest])).congr hopen
  · simp
  · simp [filled]
  · intro a ha
    have had : a ≠ d := fun had => ha (by simp [had])
    exact ⟨nextOf_setVal hm' a, by rw [valOf_setVal hm', if_neg had]⟩

/-- An interrupt changes a queue only, or is a handler that completes. -/
theorem interrupt_cases {e : Event} (hstep : interrupt s e = some s') :
    (s'.mem = s.mem ∧ s'.pc = s.pc ∧ SameButQueue s.sockets s'.sockets) ∨
      ∃ fd, Armed s fd ∧ aIOUDPSigHandler s fd = .ok s' := by
  unfold interrupt at hstep
  split at hstep
  · split at hstep
    · cases hstep
      exact Or.inl ⟨rfl, rfl, sameButQueue_update _⟩
    · cases hstep
      exact Or.inl ⟨rfl, rfl, .refl _⟩
  · rename_i fd
    split at hstep
    · rename_i harmed
      cases hhandler : aIOUDPSigHandler s fd with
      | error halt => simp [hhandler, Except.toOption] at hstep
      | ok s₁ =>
        rw [hhandler] at hstep
        cases hstep
        exact Or.inr ⟨fd, harmed, hhandler⟩
    · cases hstep
  · cases hstep

end AsyncUdp
