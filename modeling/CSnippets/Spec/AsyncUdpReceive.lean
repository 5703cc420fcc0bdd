import Mathlib.Data.List.Forall2
import CSnippets.Spec.AsyncUdpHandler

/-!
# What the callback gets

The receive loop of `aIOUDPSigHandler` hands every datagram to the callback with its
length. The terminator is written over the last byte of the datagram, so the bytes are all
there only if that byte is a NUL already. An empty datagram looks like the end of the
queue and stops the loop: what waits behind it stays in the socket.
-/

namespace AsyncUdp

open SentinelList

variable {s : State} {fd : Int} {d : Addr} {c : Conn} {front rest new : List (Addr × Conn)}
  {bytes : List UInt8} {datagram : Datagram} {datagrams queue : List Datagram}
  {bufferSize : Int} {callback : Nat} {args : Option Nat}

/-! ## One datagram -/

/-- The buffer after a datagram was received and terminated. -/
def stored (bytes : List UInt8) (datagram : Datagram) : List UInt8 :=
  datagram.dropLast ++ 0 :: bytes.drop datagram.length

/-- Storing a datagram keeps the length of the buffer. -/
theorem length_stored (hne : datagram ≠ []) (hfit : datagram.length ≤ bytes.length) :
    (stored bytes datagram).length = bytes.length := by
  have := List.length_pos_iff.mpr hne
  simp only [stored, List.length_append, List.length_dropLast, List.length_cons, List.length_drop]
  omega

/-- `recv` and the write of the terminator, both inside the buffer. -/
theorem receive_stored (hne : datagram ≠ []) (hfit : datagram.length ≤ bytes.length) :
    ∃ filled, CMemory.memcpyTo bytes 0 datagram datagram.length = some filled ∧
      CMemory.memcpyTo filled (datagram.length - 1) [0] 1 = some (stored bytes datagram) := by
  have hpos := List.length_pos_iff.mpr hne
  have hcopy : CMemory.memcpyTo bytes 0 datagram datagram.length =
      some (datagram ++ bytes.drop datagram.length) := by
    rw [CMemory.memcpyTo_zero hfit (Nat.le_refl _), List.take_length, CMemory.splice_zero]
  refine ⟨_, hcopy, ?_⟩
  have hlen : (datagram ++ bytes.drop datagram.length).length = bytes.length := by
    rw [List.length_append, List.length_drop]
    omega
  -- the terminator stands where the last byte was
  have hlast : datagram.length - 1 + 1 = datagram.length := by omega
  rw [CMemory.memcpyTo, if_pos ⟨by omega, Nat.le_refl 1⟩, CMemory.splice,
    show [(0 : UInt8)].take 1 = [0] from rfl, List.length_singleton, hlast, List.drop_left,
    List.take_append_of_le_length (by omega), ← List.dropLast_eq_take, List.append_assoc]
  rfl

/-- The call for a datagram. -/
def callFor (callback : Nat) (args : Option Nat) (bytes : List UInt8) (datagram : Datagram) :
    Call :=
  { callback := callback, readSize := datagram.length, buffer := stored bytes datagram,
    args := args }

/-- A datagram that is not empty is stored and called back, and the loop goes on. -/
theorem recvLoop_cons (hne : datagram ≠ []) (hlen : bytes.length = bufferSize.toNat)
    (hfit : datagram.length ≤ bufferSize.toNat) :
    recvLoop bufferSize callback args (some bytes) (datagram :: queue) = do
      let (buffer, calls, queue) ←
        recvLoop bufferSize callback args (some (stored bytes datagram)) queue
      return (buffer, callFor callback args bytes datagram :: calls, queue) := by
  have hpos := List.length_pos_iff.mpr hne
  obtain ⟨filled, hcopy, hterminate⟩ := receive_stored hne (hlen ▸ hfit)
  have hsize : min datagram.length bufferSize.toNat = datagram.length := Nat.min_eq_left hfit
  have hbefore : (datagram.length : Int) - 1 ≤ bufferSize := by omega
  have hlast : ((datagram.length : Int) - 1).toNat = datagram.length - 1 := by omega
  rw [recvLoop]
  simp only [hsize, if_neg (Nat.ne_of_gt hpos), access_some, hcopy, if_pos hbefore, hlast,
    hterminate, bind, Except.bind]
  rfl

/-! ## The loop -/

/-- The buffer after some datagrams. -/
def storedAll (bytes : List UInt8) (datagrams : List Datagram) : List UInt8 :=
  datagrams.foldl stored bytes

/-- The calls for some datagrams. -/
def callsFor (callback : Nat) (args : Option Nat) : List UInt8 → List Datagram → List Call
  | _, [] => []
  | bytes, datagram :: datagrams =>
    callFor callback args bytes datagram :: callsFor callback args (stored bytes datagram) datagrams

/-- Each datagram has one call. -/
theorem length_callsFor (callback : Nat) (args : Option Nat) (bytes : List UInt8)
    (datagrams : List Datagram) :
    (callsFor callback args bytes datagrams).length = datagrams.length := by
  induction datagrams generalizing bytes with
  | nil => rfl
  | cons datagram datagrams ih => rw [callsFor, List.length_cons, List.length_cons, ih]

/-- Datagrams that are not empty are handed over one after the other. -/
theorem recvLoop_append {buffer : Option (List UInt8)} {calls : List Call} {left : List Datagram}
    (hlen : bytes.length = bufferSize.toNat) (hne : [] ∉ datagrams)
    (hfit : ∀ d ∈ datagrams, d.length ≤ bufferSize.toNat)
    (hqueue : recvLoop bufferSize callback args (some (storedAll bytes datagrams)) queue =
      .ok (buffer, calls, left)) :
    recvLoop bufferSize callback args (some bytes) (datagrams ++ queue) =
      .ok (buffer, callsFor callback args bytes datagrams ++ calls, left) := by
  induction datagrams generalizing bytes with
  | nil => exact hqueue
  | cons datagram datagrams ih =>
    rw [List.mem_cons, not_or] at hne
    rw [List.forall_mem_cons] at hfit
    have hne' : datagram ≠ [] := Ne.symm hne.1
    have hstored := (length_stored hne' (hlen ▸ hfit.1)).trans hlen
    rw [List.cons_append, recvLoop_cons hne' hlen hfit.1, ih hstored hne.2 hfit.2 hqueue]
    rfl

/-- Storing datagrams keeps the length of the buffer. -/
theorem length_storedAll (hlen : bytes.length = bufferSize.toNat) (hne : [] ∉ datagrams)
    (hfit : ∀ d ∈ datagrams, d.length ≤ bufferSize.toNat) :
    (storedAll bytes datagrams).length = bufferSize.toNat := by
  induction datagrams generalizing bytes with
  | nil => exact hlen
  | cons datagram datagrams ih =>
    rw [List.mem_cons, not_or] at hne
    rw [List.forall_mem_cons] at hfit
    exact ih ((length_stored (Ne.symm hne.1) (hlen ▸ hfit.1)).trans hlen) hne.2 hfit.2

/-- An empty datagram ends the loop like the end of the queue. -/
theorem recvLoop_empty (bufferSize : Int) (callback : Nat) (args : Option Nat)
    (buffer : Option (List UInt8)) (queue : List Datagram) :
    recvLoop bufferSize callback args buffer ([] :: queue) = .ok (buffer, [], queue) := by
  simp [recvLoop, pure, Except.pure]

/-! ## The handler -/

/-- The connection `c` is the first one registered for the socket `fd`, with others in front
    of it and behind it. -/
structure Serves (s : State) (fd : Int) (front rest new : List (Addr × Conn)) (d : Addr)
    (c : Conn) : Prop where
  registered : Registered s (front ++ (d, c) :: rest) new
  own : c.fd = fd
  first : ∀ e ∈ front, e.2.fd ≠ fd

/-- The handler makes the calls of its receive loop and leaves what the loop leaves. -/
theorem Serves.handler (h : Serves s fd front rest new d c) {buffer : Option (List UInt8)}
    {calls : List Call} {left : List Datagram}
    (hrecv : recvLoop c.bufferSize c.callback c.args c.buffer (s.sockets fd).queue =
      .ok (buffer, calls, left)) :
    ∃ s', aIOUDPSigHandler s fd = .ok s' ∧ s'.calls = s.calls ++ calls ∧
      (s'.sockets fd).queue = left := by
  have hc : Ready s.sockets c := h.registered.ready (d, c) (by simp)
  have hlist : IsList s.mem headAddr (front ++ (d, c) :: (rest ++ new)) := by
    simpa using h.registered.list
  -- the search passes the connections in front, which belong to other sockets
  have hpassed : ∀ e ∈ front, Passed fd e.2 := fun e he =>
    ⟨(h.registered.ready e (List.mem_append_left _ he)).unlocked,
      fun hmatch => h.first e he hmatch.2⟩
  have hfind := findConnection_found h.registered.head hlist hpassed hc.unlocked hc.type h.own
  have hd : valOf s.mem d = some c := (seg_append.mp hlist).2.1
  obtain ⟨m, hm⟩ := exists_setVal (mem_of_valOf hd) (filled buffer)
  have hrun := aIOUDPSigHandler_eq hfind hd hc.unlocked
  rw [hrecv] at hrun
  simp only [hm, access_some, bind, Except.bind, pure, Except.pure] at hrun
  exact ⟨_, hrun, rfl, by simp⟩

/-- The handler runs, hands the datagrams `before` over, then `datagram` with its length and
    all of its bytes at the front of the buffer, and then whatever comes. -/
def PassesWhole (s : State) (fd : Int) (c : Conn) (before : List Datagram) (datagram : Datagram) :
    Prop :=
  ∃ s' calls call more, aIOUDPSigHandler s fd = .ok s' ∧
    s'.calls = s.calls ++ calls ++ call :: more ∧ calls.length = before.length ∧
    call.callback = c.callback ∧ call.readSize = (datagram.length : Int) ∧
    call.buffer.take datagram.length = datagram

/-- The front of the buffer is the datagram with its last byte overwritten. -/
theorem take_stored (bytes : List UInt8) (hne : datagram ≠ []) :
    (stored bytes datagram).take datagram.length = datagram.dropLast ++ [0] := by
  have hpos := List.length_pos_iff.mpr hne
  have hlen : (datagram.dropLast ++ [(0 : UInt8)]).length = datagram.length := by
    rw [List.length_append, List.length_dropLast, List.length_singleton]
    omega
  have hstored : stored bytes datagram =
      (datagram.dropLast ++ [0]) ++ bytes.drop datagram.length := by simp [stored]
  rw [hstored, ← hlen, List.take_left]

/-- That is the datagram if its last byte is a NUL already. -/
theorem take_stored_eq_self (bytes : List UInt8) (hne : datagram ≠ []) :
    (stored bytes datagram).take datagram.length = datagram ↔ datagram.getLast? = some 0 := by
  rw [take_stored bytes hne]
  constructor
  · intro h
    rw [← h, List.getLast?_concat]
  · intro h
    exact List.dropLast_append_getLast? 0 h

/-- However the buffer was filled before, a datagram that fits is handed over whole if and only
    if its last byte is a NUL. -/
theorem handler_passes_whole_iff (h : Serves s fd front rest new d c)
    {before after : List Datagram} {datagram : Datagram}
    (hqueue : (s.sockets fd).queue = before ++ datagram :: after)
    (hbefore : ∀ x ∈ before, x ≠ [] ∧ x.length ≤ c.bufferSize.toNat) (hne : datagram ≠ [])
    (hfit : datagram.length ≤ c.bufferSize.toNat) :
    PassesWhole s fd c before datagram ↔ datagram.getLast? = some 0 := by
  obtain ⟨bytes, hbuffer, hlen⟩ := (h.registered.ready (d, c) (by simp)).buffer
  have hnil : [] ∉ before := fun hmem => (hbefore [] hmem).1 rfl
  have hstored := length_storedAll hlen hnil fun x hx => (hbefore x hx).2
  have hstored' := (length_stored hne (hstored ▸ hfit)).trans hstored
  -- the rest of the queue does not matter
  obtain ⟨bytes', calls, left, hrest, -⟩ : ∃ bytes' calls left, recvLoop c.bufferSize c.callback
      c.args (some (stored (storedAll bytes before) datagram)) after =
      .ok (some bytes', calls, left) ∧ bytes'.length = c.bufferSize.toNat := recvLoop_ok hstored'
  have hloop : recvLoop c.bufferSize c.callback c.args (some (storedAll bytes before))
      (datagram :: after) = .ok (some bytes',
        callFor c.callback c.args (storedAll bytes before) datagram :: calls, left) := by
    rw [recvLoop_cons hne hstored hfit, hrest]
    rfl
  have hrecv := recvLoop_append hlen hnil (fun x hx => (hbefore x hx).2) hloop
  rw [← hbuffer, ← hqueue] at hrecv
  obtain ⟨s₁, hrun, hcalls₁, -⟩ := h.handler hrecv
  rw [← take_stored_eq_self (storedAll bytes before) hne]
  constructor
  · rintro ⟨s', calls', call, more, hrun', hcalls, hcount, -, -, htake⟩
    rw [hrun, Except.ok.injEq] at hrun'
    rw [← hrun', hcalls₁, List.append_assoc] at hcalls
    have hsame := List.append_cancel_left hcalls
    -- the call in the place of the datagram
    have hcount' : (callsFor c.callback c.args bytes before).length = calls'.length := by
      rw [length_callsFor, hcount]
    have hcall := (List.cons.inj (List.append_inj hsame hcount').2).1
    rw [← hcall] at htake
    exact htake
  · intro htake
    refine ⟨s₁, callsFor c.callback c.args bytes before,
      callFor c.callback c.args (storedAll bytes before) datagram, calls, hrun, ?_,
      length_callsFor .., rfl, rfl, htake⟩
    rw [hcalls₁, List.append_assoc]

/-- A connection with a buffer of 4 bytes, in which something was received before. -/
def fourBytes : Conn :=
  { type := .udp, fd := 3, sAddr := 0, sinPort := 1111, bufferSize := 4,
    buffer := some [120, 121, 122, 0], callback := 7, args := none, locked := false }

/-- Its socket with datagrams in the queue. -/
def oneSocket (queue : List Datagram) : State :=
  { mem := (Finmap.singleton headAddr
      ⟨{ fourBytes with type := .none, buffer := none }, some 8⟩).insert 8 ⟨fourBytes, none⟩,
    sockets := fun _ =>
      { isOpen := true, async := true, sig := true, owner := true, queue := queue },
    pc := .main, calls := [] }

/-- The process with one socket serves it. -/
theorem serves_oneSocket (queue : List Datagram) :
    Serves (oneSocket queue) 3 [] [] [] 8 fourBytes where
  registered := {
    list := ⟨rfl, rfl, rfl⟩
    head := ⟨_, rfl, rfl⟩
    ready := by
      intro e he
      obtain rfl := List.mem_singleton.mp he
      exact { type := rfl, buffer := ⟨_, rfl, rfl⟩, unlocked := rfl, isOpen := rfl } }
  own := rfl
  first := fun e he => absurd he List.not_mem_nil

/-- A datagram that ends with a NUL, behind one that does not. -/
theorem handler_passes_whole_terminated :
    PassesWhole (oneSocket [[104, 105], [111, 107, 0]]) 3 fourBytes [[104, 105]] [111, 107, 0] := by
  have hqueue : ((oneSocket [[104, 105], [111, 107, 0]]).sockets 3).queue =
      [[104, 105]] ++ [111, 107, 0] :: [] := rfl
  exact (handler_passes_whole_iff (serves_oneSocket _) hqueue (by decide) (by decide)
    (by decide)).mpr rfl

/-- Of "hi" the callback gets two bytes, the second of them a NUL. -/
theorem last_byte_overwritten :
    ¬ PassesWhole (oneSocket [[104, 105]]) 3 fourBytes [] [104, 105] := by
  rintro ⟨s', calls, call, more, hrun, hcalls, hcount, -, -, htake⟩
  have hrecv : recvLoop 4 7 none (some [120, 121, 122, 0]) [[104, 105]] =
      .ok (some [104, 0, 122, 0], [⟨7, 2, [104, 0, 122, 0], none⟩], []) := by rfl
  obtain ⟨s₁, hrun₁, hcalls₁, -⟩ := (serves_oneSocket [[104, 105]]).handler hrecv
  rw [hrun, Except.ok.injEq] at hrun₁
  have hnil : calls = [] := List.length_eq_zero_iff.mp hcount
  rw [hrun₁, hcalls₁, hnil, List.append_nil] at hcalls
  have hcall := (List.cons.inj (List.append_cancel_left hcalls)).1
  rw [← hcall] at htake
  exact absurd htake (by decide)

end AsyncUdp
