import CSnippets.Spec.TcpClientCorrect

/-!
# Nothing is lost on the way

However the two streams are cut, what the client has printed, what is on its way to it and
what is on its way to the server are together the greeting and all tokens in order; and while
the client waits something is on its way. Where a `recv` leaves no room for the terminator
of a string the programs read behind their buffers, and nothing more can be said.
-/

namespace EchoServer

variable {peer : Peer} {s s' : State} {n : Nat}

/-- `recv` leaves room for a terminator. -/
def Short : Event → Prop
  | .type _ => True
  | .greet => True
  | .serve n => n < bufferLength
  | .reply n => n < bufferLength

/-- The byte behind what `recv` stores is a NUL already. -/
def Terminated (s : State) : Event → Prop
  | .type _ => True
  | .greet => True
  | .serve n => s.message[n]? = some 0
  | .reply n => s.serverMessage[n]? = some 0

/-- What is on its way between the two. -/
def inFlight (s : State) : List UInt8 := s.toClient ++ (s.greeting ++ s.toServer)

/-- No byte is lost, doubled or moved, and the client does not wait for nothing. -/
structure Together (peer : Peer) (s : State) : Prop where
  stream : s.replies.flatten ++ inFlight s = peer.greeting ++ s.sent.flatten
  live : s.waiting = true → ∃ e, CanHappen s e ∧ Short e

/-- The string that is read behind a `recv` has no end in the buffer. -/
def Unended (s : State) : Event → Prop
  | .type _ => False
  | .greet => False
  | .serve n => 0 ∉ CMemory.splice s.message 0 (s.toServer.take n)
  | .reply n => 0 ∉ CMemory.splice s.serverMessage 0 (s.toClient.take n)

/-- The run comes to a step in which a program reads behind its buffer. -/
def ReadsBehind (s : State) (es : List Event) : Prop :=
  ∃ front e rest s', es = front ++ e :: rest ∧ front.foldlM step s = some s' ∧
    Unended s' e ∧ step s' e = none

/-- The greeting is written, or the server or the client receives a byte. -/
theorem Streams.together (h : Streams peer s) : Together peer s where
  stream := h.stream
  live hw := by
    have hsize : 1 < bufferLength := by decide
    have hflight := h.waiting hw
    by_cases hgreeting : s.greeting = []
    · by_cases hclient : s.toClient = []
      · have hserver : s.toServer ≠ [] := by
          intro hserver
          apply hflight
          rw [hclient, hgreeting, hserver]
          rfl
        have hpos := List.length_pos_iff.mpr hserver
        exact ⟨.serve 1, ⟨hgreeting, by omega, by omega, by omega⟩, hsize⟩
      · have hpos := List.length_pos_iff.mpr hclient
        exact ⟨.reply 1, ⟨hw, by omega, by omega, by omega⟩, hsize⟩
    · exact ⟨.greet, hgreeting, trivial⟩

/-! ## Steps -/

/-- A step that can happen and finds a terminator is defined and keeps the streams. -/
theorem Streams.step (h : Streams peer s) {e : Event} (hcan : CanHappen s e)
    (hnext : Terminated s e) :
    ∃ s', EchoServer.step s e = some s' ∧ Streams peer s' ∧ (Zeroed s → Zeroed s') := by
  cases e with
  | type token =>
    exact ⟨_, type_eq h.clientMessage hcan.1 hcan.2, h.typed hcan.2,
      fun hz => ⟨hz.serverMessage, hz.message⟩⟩
  | greet => exact ⟨s.greeted, rfl, h.greeted, fun hz => ⟨hz.serverMessage, hz.message⟩⟩
  | serve n =>
    obtain ⟨hg, -, hbuf, hn⟩ := hcan
    have hmessage : n ≤ s.message.length := by
      rw [h.message]
      exact hbuf
    exact ⟨_, serve_eq hmessage hn hg h.nul.2 hnext, h.served hg hbuf, fun hz => hz.served hbuf⟩
  | reply n =>
    obtain ⟨hw, -, hbuf, hn⟩ := hcan
    have hmessage : n ≤ s.serverMessage.length := by
      rw [h.serverMessage]
      exact hbuf
    exact ⟨_, reply_eq hmessage hn hw h.nul.1 hnext, h.replied hbuf, fun hz => hz.replied hbuf⟩

/-! ## Zeroed buffers -/

/-- Behind a `recv` that leaves room a zeroed buffer has its terminator. -/
theorem Zeroed.terminated (h : Zeroed s) {e : Event} (hshort : Short e) : Terminated s e := by
  cases e with
  | type token => trivial
  | greet => trivial
  | serve n =>
    show s.message[n]? = some 0
    rw [h.message, List.getElem?_replicate, if_pos (show n < bufferLength from hshort)]
  | reply n =>
    show s.serverMessage[n]? = some 0
    rw [h.serverMessage, List.getElem?_replicate, if_pos (show n < bufferLength from hshort)]

/-- A string that fills a zeroed buffer has no end in it. -/
theorem Streams.unended (h : Streams peer s) (hz : Zeroed s) {e : Event} (hcan : CanHappen s e)
    (hlong : ¬ Short e) : Unended s e ∧ EchoServer.step s e = none := by
  cases e with
  | type token => exact absurd trivial hlong
  | greet => exact absurd trivial hlong
  | serve n =>
    obtain ⟨hg, -, hbuf, hn⟩ := hcan
    -- the bytes fill the buffer, so no zero is left behind them
    have hfull : ¬ n < bufferLength := hlong
    have hnext : s.message[n]? ≠ some 0 := by
      rw [hz.message, List.getElem?_replicate, if_neg hfull]
      simp
    refine ⟨?_, serve_full hz.message hn hg h.nul.2 hnext⟩
    have hsplice : CMemory.splice s.message 0 (s.toServer.take n) = s.toServer.take n := by
      apply CMemory.splice_full
      rw [h.message, List.length_take]
      omega
    show 0 ∉ CMemory.splice s.message 0 (s.toServer.take n)
    rw [hsplice]
    exact fun h0 => h.nul.2 (List.mem_of_mem_take h0)
  | reply n =>
    obtain ⟨hw, -, hbuf, hn⟩ := hcan
    -- the buffer of the replies is as long
    have hfull : ¬ n < bufferLength := hlong
    have hnext : s.serverMessage[n]? ≠ some 0 := by
      rw [hz.serverMessage, List.getElem?_replicate, if_neg hfull]
      simp
    refine ⟨?_, reply_full hz.serverMessage hbuf hn hw h.nul.1 hnext⟩
    have hsplice : CMemory.splice s.serverMessage 0 (s.toClient.take n) = s.toClient.take n := by
      apply CMemory.splice_full
      rw [h.serverMessage, List.length_take]
      omega
    show 0 ∉ CMemory.splice s.serverMessage 0 (s.toClient.take n)
    rw [hsplice]
    exact fun h0 => h.nul.1 (List.mem_of_mem_take h0)

/-! ## Whole runs -/

/-- Steps that leave room keep the streams and the zeroed buffers. -/
theorem Streams.step_short (h : Streams peer s) (hz : Zeroed s) {e : Event} (hcan : CanHappen s e)
    (hshort : Short e) (hstep : EchoServer.step s e = some s') : Streams peer s' ∧ Zeroed s' := by
  obtain ⟨s'', hs'', h'', hz''⟩ := h.step hcan (hz.terminated hshort)
  obtain rfl : s' = s'' := Option.some.inj (hstep.symm.trans hs'')
  exact ⟨h'', hz'' hz⟩

/-- Whatever is typed and however the streams are cut: if there is a NUL behind all that `recv`
    stores, the two programs go on and no byte is lost. From zeroed buffers on, that is so
    exactly if every `recv` leaves room for a terminator; otherwise the run comes to a step in
    which a program reads behind its buffer. -/
theorem streams_kept (hstart : Start peer s) {es : List Event}
    (hcan : Runs.StepsMeet step CanHappen s es) :
    (Runs.StepsMeet step Terminated s es → Runs.Safe step (Together peer) s es) ∧
    (Zeroed s → (Runs.Safe step (Together peer) s es ↔
      Runs.StepsMeet step (fun _ e => Short e) s es) ∧
      (¬ Runs.StepsMeet step (fun _ e => Short e) s es → ReadsBehind s es)) := by
  refine ⟨fun hnext => ?_, fun hz => ⟨?_, fun hlong => ?_⟩⟩
  · apply Runs.Safe.of_invariant (J := Streams peer) (C := fun s e => CanHappen s e ∧ Terminated s e)
      (fun s h => h.together) _ hstart.streams (hcan.and hnext)
    intro s e h hC
    obtain ⟨s', hs', h', -⟩ := h.step hC.1 hC.2
    exact ⟨s', hs', h'⟩
  · apply Runs.safe_iff_stepsMeet (J := fun s => Streams peer s ∧ Zeroed s) (K := CanHappen) _ _
      ⟨hstart.streams, hz⟩ hstart.streams.together hcan
    · exact fun s e s' hJ hK hshort hs' => hJ.1.step_short hJ.2 hK hshort hs'
    · intro s e hJ _ hK
      constructor
      · rintro ⟨s', hs', _⟩
        by_contra hlong
        cases (hJ.1.unended hJ.2 hK hlong).2.symm.trans hs'
      · intro hshort
        obtain ⟨s', hs', h', -⟩ := hJ.1.step hK (hJ.2.terminated hshort)
        exact ⟨s', hs', h'.together⟩
  · -- the first `recv` that leaves no room
    obtain ⟨front, e, rest, s', rfl, hrun, hJ, hK, hlong⟩ :=
      Runs.exists_unmet (J := fun s => Streams peer s ∧ Zeroed s) (K := CanHappen)
        (fun s e s' hJ hK hshort hs' => hJ.1.step_short hJ.2 hK hshort hs')
        ⟨hstart.streams, hz⟩ hcan hlong
    exact ⟨front, e, rest, s', rfl, hrun, hJ.1.unended hJ.2 hK hlong⟩

/-- "hi" is echoed in two pieces, and two bytes of the greeting are taken for its reply. -/
def cutGreeting : List Event :=
  [.greet, .type [104, 105], .serve 1, .reply 2, .type [33], .serve 2, .reply 36]

instance (s : State) : ∀ e, Decidable (Terminated s e)
  | .type _ => inferInstanceAs (Decidable True)
  | .greet => inferInstanceAs (Decidable True)
  | .serve n => inferInstanceAs (Decidable (s.message[n]? = some 0))
  | .reply n => inferInstanceAs (Decidable (s.serverMessage[n]? = some 0))

/-- In the run that takes the greeting for a reply the streams are kept. -/
theorem streams_kept_greeting :
    Runs.Safe step (Together .multiServer) (connected .multiServer) cutGreeting :=
  (streams_kept (start_connected .multiServer) (by decide +kernel)).1 (by decide +kernel)

end EchoServer
