import CSnippets.Spec.AsyncUdpLedger

/-!
# What `aIODeinit` gives back

`aIODeinit` takes four steps for a connection: it reads the link and the type, frees the
buffer, closes the descriptor and frees the node. Each connection is given back by its own
descriptor and address, so in the end memory and descriptors are as they were before the
first call of `aIOOpenUDPSocket`. Signals in between change buffers and queues only.
-/

namespace AsyncUdp

open SentinelList

variable {s₀ s s' : State} {e : Event} {l new : List (Addr × Conn)} {k : List (Addr × Int)}
  {fd : Int} {a d : Addr} {m m' : Memory Conn} {addrs : List Addr} {fds : List Int} {n : Nat}
  {ok : Bool}

/-! ## What is left to give back -/

/-- Besides what it had in `s₀`, the process has the nodes at `addrs` and the open
    descriptors `fds`. -/
structure Owns (s₀ s : State) (addrs : List Addr) (fds : List Int) : Prop where
  mem : ∀ a, a ∈ s.mem ↔ a ∈ s₀.mem ∨ a ∈ addrs
  isOpen : ∀ fd, (s.sockets fd).isOpen = true ↔ (s₀.sockets fd).isOpen = true ∨ fd ∈ fds
  fresh : ∀ a ∈ addrs, a ∉ s₀.mem
  closed : ∀ fd ∈ fds, (s₀.sockets fd).isOpen = false
  addrs : addrs.Nodup
  fds : fds.Nodup

/-- What a process owns is told by the addresses in use and the open sockets. -/
theorem Owns.congr (h : Owns s₀ s addrs fds) (hmem : ∀ a, a ∈ s'.mem ↔ a ∈ s.mem)
    (hopen : ∀ fd, (s'.sockets fd).isOpen = (s.sockets fd).isOpen) : Owns s₀ s' addrs fds where
  mem a := (hmem a).trans (h.mem a)
  isOpen fd := by rw [hopen, h.isOpen]
  fresh := h.fresh
  closed := h.closed
  addrs := h.addrs
  fds := h.fds

/-- A node is freed. -/
theorem Owns.free (h : Owns s₀ s (a :: addrs) fds) (hfree : free s.mem a = some s'.mem)
    (hsockets : s'.sockets = s.sockets) : Owns s₀ s' addrs fds where
  mem b := by
    have ha := h.fresh a List.mem_cons_self
    have hout := (List.nodup_cons.mp h.addrs).1
    rw [mem_free hfree, h.mem, List.mem_cons]
    constructor
    · rintro ⟨hne, hstart | rfl | hrest⟩
      · exact Or.inl hstart
      · exact absurd rfl hne
      · exact Or.inr hrest
    · rintro (hstart | hrest)
      · exact ⟨fun heq => ha (heq ▸ hstart), Or.inl hstart⟩
      · exact ⟨fun heq => hout (heq ▸ hrest), Or.inr (Or.inr hrest)⟩
  isOpen fd := by rw [hsockets, h.isOpen]
  fresh b hb := h.fresh b (List.mem_cons_of_mem a hb)
  closed := h.closed
  addrs := (List.nodup_cons.mp h.addrs).2
  fds := h.fds

/-- A descriptor is closed. -/
theorem Owns.close (h : Owns s₀ s addrs (fd :: fds)) (hmem : s'.mem = s.mem)
    (hsockets : s'.sockets = Function.update s.sockets fd Socket.closed) :
    Owns s₀ s' addrs fds where
  mem a := by rw [hmem, h.mem]
  isOpen fd' := by
    have hfd := h.closed fd List.mem_cons_self
    have hout := (List.nodup_cons.mp h.fds).1
    rw [hsockets]
    by_cases heq : fd' = fd
    · subst heq
      rw [Function.update_self, hfd]
      simp [Socket.closed, hout]
    · rw [Function.update_of_ne heq, h.isOpen, List.mem_cons, or_iff_right heq]
  fresh := h.fresh
  closed fd' hfd' := h.closed fd' (List.mem_cons_of_mem fd hfd')
  addrs := h.addrs
  fds := (List.nodup_cons.mp h.fds).2

/-- The node at `a` is a UDP connection on `fd`, `link` comes behind it. -/
structure Held (m : Memory Conn) (a : Addr) (fd : Int) (link : Option Addr) : Prop where
  next : nextOf m a = some link
  conn : ∃ c, valOf m a = some c ∧ c.type = .udp ∧ c.fd = fd

/-- The buffer of the connection at `a` has not been freed. -/
def Buffered (m : Memory Conn) (a : Addr) : Prop :=
  ∃ c, valOf m a = some c ∧ c.buffer.isSome = true

/-- The connections that `aIODeinit` has not reached, by address and descriptor. -/
def Untouched (m : Memory Conn) : List (Addr × Int) → Prop
  | [] => True
  | (a, fd) :: k => (Held m a fd (k.head?.map Prod.fst) ∧ Buffered m a) ∧ Untouched m k

/-- `m'` is `m` but for the contents of buffers; no buffer has been freed. -/
structure Refilled (m m' : Memory Conn) : Prop where
  mem : ∀ a, a ∈ m' ↔ a ∈ m
  next : ∀ a, nextOf m' a = nextOf m a
  conn : ∀ a c, valOf m a = some c →
    ∃ buffer, valOf m' a = some (filled buffer c) ∧ (c.buffer.isSome = true → buffer.isSome = true)

/-- A memory differs in no buffer from itself. -/
theorem Refilled.refl (m : Memory Conn) : Refilled m m :=
  ⟨fun _ => Iff.rfl, fun _ => rfl, fun _ c hc => ⟨c.buffer, hc, id⟩⟩

/-- A new buffer changes neither the descriptor nor the link of a connection. -/
theorem Refilled.held {link : Option Addr} (h : Refilled m m') (hheld : Held m a fd link) :
    Held m' a fd link := by
  obtain ⟨c, hc, htype, hfd⟩ := hheld.conn
  obtain ⟨buffer, hc', -⟩ := h.conn a c hc
  exact ⟨(h.next a).trans hheld.next, _, hc', htype, hfd⟩

/-- A connection with a new buffer has one. -/
theorem Refilled.buffered (h : Refilled m m') (ha : Buffered m a) : Buffered m' a := by
  obtain ⟨c, hc, hsome⟩ := ha
  obtain ⟨buffer, hc', hbuffer⟩ := h.conn a c hc
  exact ⟨_, hc', hbuffer hsome⟩

/-- A connection that has not been reached is not reached by a new buffer. -/
theorem Refilled.untouched (h : Refilled m m') (hk : Untouched m k) : Untouched m' k := by
  induction k with
  | nil => trivial
  | cons e k ih => exact ⟨⟨h.held hk.1.1, h.buffered hk.1.2⟩, ih hk.2⟩

/-- A change of one node that is none of the connections left. -/
theorem Untouched.congr (h : Untouched m k) (hd : d ∉ k.map Prod.fst)
    (hnext : ∀ a ≠ d, nextOf m' a = nextOf m a) (hval : ∀ a ≠ d, valOf m' a = valOf m a) :
    Untouched m' k := by
  induction k with
  | nil => trivial
  | cons e k ih =>
    obtain ⟨⟨⟨hlink, c, hc, hconn⟩, hbuffered⟩, hrest⟩ := h
    rw [List.map_cons, List.mem_cons, not_or] at hd
    have hne : e.1 ≠ d := fun heq => hd.1 heq.symm
    refine ⟨⟨⟨(hnext e.1 hne).trans hlink, c, (hval e.1 hne).trans hc, hconn⟩, ?_⟩, ih hrest hd.2⟩
    obtain ⟨c', hc', hsome⟩ := hbuffered
    exact ⟨c', (hval e.1 hne).trans hc', hsome⟩

/-! ## Signals -/

/-- The receive loop never frees the buffer. -/
theorem recvLoop_isSome {bufferSize : Int} {callback : Nat} {args : Option Nat}
    {buffer buffer' : Option (List UInt8)} {queue left : List Datagram} {calls : List Call}
    (h : recvLoop bufferSize callback args buffer queue = .ok (buffer', calls, left))
    (hsome : buffer.isSome = true) : buffer'.isSome = true := by
  induction queue generalizing buffer calls with
  | nil =>
    cases h
    exact hsome
  | cons datagram queue ih =>
    unfold recvLoop at h
    dsimp only at h
    split at h
    · cases h
      exact hsome
    · -- the rest of the loop goes on with the bytes written
      cases hbytes : access buffer with
      | error halt => simp [hbytes, bind, Except.bind] at h
      | ok bytes =>
        simp only [hbytes, bind, Except.bind] at h
        split at h
        · cases h
        · split at h
          · cases h
          · split at h
            · cases h
            · rename_i result hresult
              cases h
              exact ih hresult rfl

/-- A handler that completes has changed a buffer and taken from a queue. -/
theorem Teardown.refilled (h : Teardown s addrs) (hfd : Armed s fd)
    (hok : aIOUDPSigHandler s fd = .ok s') :
    Refilled s.mem s'.mem ∧ s'.pc = s.pc ∧
      ∀ fd, (s'.sockets fd).isOpen = (s.sockets fd).isOpen := by
  rcases h.freed with ⟨l, hl⟩ | ⟨first, hhead, hfreed⟩
  · have hlist : IsList s.mem headAddr (l ++ []) := by simpa using hl.list
    obtain ⟨front, d, w, rest, rfl, -, hfind⟩ :=
      exists_found h.head hlist hl.conns (hl.armed fd hfd)
    have hval : valOf s.mem d = some w := (seg_append.mp hl.list).2.1
    rw [aIOUDPSigHandler_eq hfind hval (hl.conns (d, w) (by simp)).1] at hok
    cases hrecv : recvLoop w.bufferSize w.callback w.args w.buffer (s.sockets fd).queue with
    | error halt => simp [hrecv, bind, Except.bind] at hok
    | ok result =>
      obtain ⟨buffer, calls, queue⟩ := result
      obtain ⟨m, hset⟩ := exists_setVal (mem_of_valOf hval) (filled buffer)
      simp only [hrecv, hset, access_some, bind, Except.bind, pure, Except.pure] at hok
      cases hok
      refine ⟨⟨mem_setVal hset, nextOf_setVal hset, ?_⟩, rfl, isOpen_update rfl⟩
      intro b c hc
      rw [valOf_setVal hset]
      by_cases hb : b = d
      · subst hb
        cases hc.symm.trans hval
        rw [if_pos rfl, hval]
        exact ⟨buffer, rfl, recvLoop_isSome hrecv⟩
      · rw [if_neg hb]
        exact ⟨c.buffer, hc, id⟩
  · -- the walk would have met the freed connection
    have hnext : nextOf s.mem headAddr = some (some first) := hhead ▸ h.next
    simp [aIOUDPSigHandler, findConnection_freed h.head hnext hfreed, bind, Except.bind] at hok

/-! ## The steps of `aIODeinit` -/

/-- `aIODeinit` has `n` steps to go, and the process has what the connections left have. -/
inductive Down (s₀ s : State) : Nat → Prop where
  | deinit {k : List (Addr × Int)} (hpc : s.pc = .deinit (k.head?.map Prod.fst))
      (hleft : Untouched s.mem k) (howns : Owns s₀ s (k.map Prod.fst) (k.map Prod.snd)) :
      Down s₀ s (4 * k.length + 1)
  | freeBuffer {a : Addr} {fd : Int} {k : List (Addr × Int)}
      (hpc : s.pc = .freeBuffer a (k.head?.map Prod.fst))
      (hheld : Held s.mem a fd (k.head?.map Prod.fst)) (hbuffered : Buffered s.mem a)
      (hleft : Untouched s.mem k)
      (howns : Owns s₀ s (a :: k.map Prod.fst) (fd :: k.map Prod.snd)) :
      Down s₀ s (4 * k.length + 4)
  | close {a : Addr} {fd : Int} {k : List (Addr × Int)}
      (hpc : s.pc = .close a (k.head?.map Prod.fst))
      (hheld : Held s.mem a fd (k.head?.map Prod.fst)) (hleft : Untouched s.mem k)
      (howns : Owns s₀ s (a :: k.map Prod.fst) (fd :: k.map Prod.snd)) :
      Down s₀ s (4 * k.length + 3)
  | free {a : Addr} {k : List (Addr × Int)}
      (hpc : s.pc = .free a (k.head?.map Prod.fst)) (hleft : Untouched s.mem k)
      (howns : Owns s₀ s (a :: k.map Prod.fst) (k.map Prod.snd)) :
      Down s₀ s (4 * k.length + 2)
  | exited (hpc : s.pc = .exited) (howns : Owns s₀ s [] []) : Down s₀ s 0

/-- Signals neither take nor give back anything. -/
theorem Down.refilled (h : Down s₀ s n) (hmem : Refilled s.mem s'.mem) (hpc : s'.pc = s.pc)
    (hopen : ∀ fd, (s'.sockets fd).isOpen = (s.sockets fd).isOpen) : Down s₀ s' n := by
  cases h with
  | deinit hpc₀ hleft howns =>
    exact .deinit (hpc.trans hpc₀) (hmem.untouched hleft) (howns.congr hmem.mem hopen)
  | freeBuffer hpc₀ hheld hbuffered hleft howns =>
    exact .freeBuffer (hpc.trans hpc₀) (hmem.held hheld) (hmem.buffered hbuffered)
      (hmem.untouched hleft) (howns.congr hmem.mem hopen)
  | close hpc₀ hheld hleft howns =>
    exact .close (hpc.trans hpc₀) (hmem.held hheld) (hmem.untouched hleft)
      (howns.congr hmem.mem hopen)
  | free hpc₀ hleft howns =>
    exact .free (hpc.trans hpc₀) (hmem.untouched hleft) (howns.congr hmem.mem hopen)
  | exited hpc₀ howns => exact .exited (hpc.trans hpc₀) (howns.congr hmem.mem hopen)

/-- Nothing is left to do exactly when the program has exited. -/
theorem Down.eq_zero_iff (h : Down s₀ s n) : n = 0 ↔ s.pc = .exited := by
  cases h with
  | exited hpc howns => exact iff_of_true rfl hpc
  | deinit hpc => exact iff_of_false (by omega) (by rw [hpc]; nofun)
  | freeBuffer hpc => exact iff_of_false (by omega) (by rw [hpc]; nofun)
  | close hpc => exact iff_of_false (by omega) (by rw [hpc]; nofun)
  | free hpc => exact iff_of_false (by omega) (by rw [hpc]; nofun)

/-- Until it exits, every step of `aIODeinit` is defined. -/
theorem Down.next (h : Down s₀ s (n + 1)) (ok : Bool) :
    ∃ s', deinitStep s (.next ok) = some s' ∧ Down s₀ s' n := by
  show ∃ s', aIODeinit s (.next ok) = some s' ∧ Down s₀ s' n
  generalize hn : n + 1 = steps at h
  cases h with
  | @deinit k hpc hleft howns =>
    cases k with
    | nil =>
      -- no connection is left: `exit`
      obtain rfl : n = 0 := by simpa using hn
      refine ⟨{ s with pc := .exited }, ?_,
        .exited rfl (howns.congr (fun _ => Iff.rfl) fun _ => rfl)⟩
      simp [aIODeinit, hpc]
    | cons e k =>
      obtain ⟨a, fd⟩ := e
      -- the next connection is read while it is still allocated
      obtain ⟨⟨hheld, hbuffered⟩, hrest⟩ := hleft
      obtain ⟨c, hc, htype, hfd⟩ := hheld.conn
      obtain rfl : n = 4 * k.length + 4 := by
        rw [List.length_cons] at hn
        omega
      refine ⟨{ s with pc := .freeBuffer a (k.head?.map Prod.fst) }, ?_,
        .freeBuffer rfl hheld hbuffered hrest (howns.congr (fun _ => Iff.rfl) fun _ => rfl)⟩
      simp [aIODeinit, hpc, hheld.next, hc, htype]
  | @freeBuffer a fd k hpc hheld hbuffered hleft howns =>
    obtain ⟨c, hc, htype, hfd⟩ := hheld.conn
    obtain ⟨c', hc', hsome⟩ := hbuffered
    cases hc'.symm.trans hc
    obtain ⟨bytes, hbytes⟩ := Option.isSome_iff_exists.mp hsome
    -- its buffer is freed
    obtain ⟨m, hset⟩ := exists_setVal (mem_of_valOf hc) (filled none)
    have hval : valOf m a = some (filled none c) := by
      rw [valOf_setVal hset, if_pos rfl, hc, Option.map_some]
    have hheld' : Held m a fd (k.head?.map Prod.fst) :=
      ⟨(nextOf_setVal hset a).trans hheld.next, _, hval, htype, hfd⟩
    have hout := (List.nodup_cons.mp howns.addrs).1
    obtain rfl : n = 4 * k.length + 3 := by omega
    refine ⟨{ s with mem := m, pc := .close a (k.head?.map Prod.fst) }, ?_, .close rfl hheld' ?_ ?_⟩
    · have hset' : setVal s.mem a (fun c => { c with buffer := none }) = some m := hset
      simp [aIODeinit, hpc, hc, hbytes, hset']
    · refine hleft.congr hout (fun b _ => nextOf_setVal hset b) fun b hb => ?_
      rw [valOf_setVal hset, if_neg hb]
    · exact howns.congr (mem_setVal hset) fun _ => rfl
  | @close a fd k hpc hheld hleft howns =>
    obtain ⟨c, hc, htype, rfl⟩ := hheld.conn
    -- its socket is closed
    have hopen : (s.sockets c.fd).isOpen = true :=
      (howns.isOpen c.fd).mpr (Or.inr List.mem_cons_self)
    obtain rfl : n = 4 * k.length + 2 := by omega
    refine ⟨{ s with
      sockets := Function.update s.sockets c.fd Socket.closed,
      pc := .free a (k.head?.map Prod.fst) }, ?_, .free rfl hleft (howns.close rfl rfl)⟩
    simp [aIODeinit, hpc, hc, hopen]
  | @free a k hpc hleft howns =>
    have ha : a ∈ s.mem := (howns.mem a).mpr (Or.inr List.mem_cons_self)
    have hout := (List.nodup_cons.mp howns.addrs).1
    -- the connection itself is freed
    obtain ⟨m, hfree⟩ := exists_free ha
    obtain rfl : n = 4 * k.length + 1 := by omega
    refine ⟨{ s with mem := m, pc := .deinit (k.head?.map Prod.fst) }, ?_,
      .deinit rfl ?_ (howns.free hfree rfl)⟩
    · simp [aIODeinit, hpc, hfree]
    · refine hleft.congr hout (fun b hb => ?_) fun b hb => ?_
      · rw [nextOf_free hfree, if_neg hb]
      · rw [valOf_free hfree, if_neg hb]
  | exited => omega

/-- The steps of the process itself. -/
def isNext : Event → Bool
  | .next _ => true
  | _ => false

/-- A step of `aIODeinit` leaves one step less, an interrupt leaves as many. -/
theorem Down.step (h : Down s₀ s n) (hteardown : Teardown s addrs)
    (hstep : deinitStep s e = some s') : ∃ n', Down s₀ s' n' ∧ n' + [e].countP isNext = n := by
  have hinterrupt (hstep : interrupt s e = some s') : Down s₀ s' n := by
    obtain ⟨hmem, hpc, hsame⟩ | ⟨fd, hfd, hhandler⟩ := interrupt_cases hstep
    · exact h.refilled (hmem ▸ .refl s.mem) hpc hsame.isOpen
    · obtain ⟨hmem, hpc, hopen⟩ := hteardown.refilled hfd hhandler
      exact h.refilled hmem hpc hopen
  cases e with
  | arrive fd datagram => exact ⟨n, hinterrupt hstep, rfl⟩
  | sigio fd => exact ⟨n, hinterrupt hstep, rfl⟩
  | next ok =>
    cases n with
    | zero =>
      have hpc := h.eq_zero_iff.mp rfl
      have hundefined : deinitStep s (.next ok) = none := by simp [deinitStep, aIODeinit, hpc]
      cases hundefined.symm.trans hstep
    | succ n =>
      obtain ⟨s₁, hs₁, hdown⟩ := h.next ok
      cases hs₁.symm.trans hstep
      exact ⟨n, hdown, rfl⟩
  | call args => cases hpc : s.pc <;> simp [deinitStep, aIODeinit, hpc] at hstep
  | calloc p buffer => cases hpc : s.pc <;> simp [deinitStep, aIODeinit, hpc] at hstep
  | socket fd => cases hpc : s.pc <;> simp [deinitStep, aIODeinit, hpc] at hstep

/-- A run leaves as many steps less as `aIODeinit` has taken. -/
theorem Down.run {es : List Event} (h : Down s₀ s n) (hteardown : Teardown s addrs)
    (hrun : es.foldlM deinitStep s = some s') :
    ∃ n', Down s₀ s' n' ∧ n' + es.countP isNext = n := by
  induction es generalizing s n with
  | nil =>
    obtain rfl : s = s' := Option.some.inj hrun
    exact ⟨n, h, rfl⟩
  | cons e es ih =>
    obtain ⟨s₁, hs₁, hrest⟩ := Runs.run_cons.mp hrun
    obtain ⟨n₁, h₁, hn₁⟩ := h.step hteardown hs₁
    obtain ⟨n', h', hn'⟩ := ih h₁ (hteardown.step hs₁) hrest
    refine ⟨n', h', ?_⟩
    have hcount : ([e] ++ es).countP isNext = [e].countP isNext + es.countP isNext :=
      List.countP_append
    rw [List.singleton_append] at hcount
    omega

/-! ## From the first call to the exit -/

/-- Before the teardown no connection of the list has been reached. -/
theorem Untouched.of_list (hlist : IsList m a l)
    (hmade : ∀ e ∈ l, Made e.2) : Untouched m (l.map fun e => (e.1, e.2.fd)) := by
  induction l generalizing a with
  | nil => trivial
  | cons e l ih =>
    have hrest : IsList m e.1 ([] ++ l) := hlist.2.2
    have he := hmade e List.mem_cons_self
    have hlink : nextOf m e.1 = some ((l.map fun e => (e.1, e.2.fd)).head?.map Prod.fst) := by
      rw [List.head?_map, Option.map_map]
      exact hrest.nextOf_front
    obtain ⟨bytes, hbytes, -⟩ := he.buffer
    refine ⟨⟨⟨hlink, e.2, hlist.2.1, he.type, rfl⟩, e.2, hlist.2.1, ?_⟩,
      ih hlist.2.2 fun e he => hmade e (List.mem_cons_of_mem _ he)⟩
    rw [hbytes, Option.isSome_some]

/-- Between two calls the process has what the registered connections have. -/
theorem Ledger.owns (h : Ledger s₀ s l []) (hpc : s.pc = .main) (hlist : IsList s.mem headAddr l) :
    Owns s₀ s (l.map Prod.fst) (l.map fun e => e.2.fd) where
  mem a := by
    have hmem := h.mem a
    rwa [hpc, show inHand .main [] = [] from rfl, or_iff_left List.not_mem_nil] at hmem
  isOpen fd := by
    have hopen := h.isOpen fd
    simpa [hpc, Pc.HasSocket] using hopen
  fresh a ha := h.fresh a (Or.inl ha)
  closed fd hfd := h.closed fd (Or.inl hfd)
  addrs := (List.nodup_cons.mp hlist.nodup).2
  fds := h.nodup

/-- Two sockets are opened. -/
def openTwo : List Event :=
  upToSetOwn 8 4 3 ++ [.next true] ++ upToSetOwn 16 4 4 ++ [.next true]

/-- A signal is served before the first of two connections is freed. -/
def downTwo : List Event :=
  [.next true, .arrive 4 [104, 10], .sigio 4] ++ List.replicate 8 (.next true)

end AsyncUdp
