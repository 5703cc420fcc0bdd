import CSnippets.Spec.PosixMessageQueuesEnd

/-!
# Both processes end

If one of the two ever leaves its loop there is a stop word. Under a fair schedule it lets
both leave: the client leaves behind the message with it, and the server has then nothing to
wait for but the messages up to that one, which are in the queue.
-/

namespace PosixMessageQueues

open FairSchedule

/-- What `printf` shows of a chunk: it ends at the first NUL. -/
def shown (c : List UInt8) : List UInt8 := c.takeWhile (· != 0)

/-- Both have left. The server has received the chunks up to the first with the stop word, and
    has printed those in front of it; nothing is left in the queue. -/
structure Stopped (bytes : List UInt8) (s : State) : Prop where
  client : s.client = .left
  server : s.server = .left
  read : s.read = upToStop (LineInput.pieces (maxSize - 1) bytes)
  received : s.received = s.read.map padded
  printed : s.printed = s.read.dropLast.map shown
  queue : s.queue.items = []

/-- Both processes have left their loops. -/
def BothLeft (s : State) : Prop := s.client = .left ∧ s.server = .left

/-- The state after `m` turns, when the client has the input `bytes`. -/
def after (bytes : List UInt8) (clientBuffer : Fin maxSize → UInt8)
    (serverBuffer : Fin (maxSize + 1) → UInt8) (sched : Nat → Event) (m : Nat) : State :=
  exec (step (ofList bytes)) sched (State.start clientBuffer serverBuffer) m

variable {stdin : Input} {s s' : State} {n r k : Nat} {bytes : List UInt8}

/-- The server waits for nothing that will not come. -/
theorem Flow.server_live (h : Flow stdin s n r) (hclient : s.client = .left)
    (hserver : s.server ≠ .left) : (PosixMessageQueues.serverStep s).isSome := by
  by_contra hnone
  have hstuck := h.stuck_iff.2.mp (Option.not_isSome_iff_eq_none.mp hnone)
  obtain ⟨hreceive, hempty⟩ := hstuck.resolve_left hserver
  -- it would have received the message with the stop word, and have gone on
  obtain ⟨k, rfl, -, hstop, -⟩ := h.client.place_at hclient
  obtain ⟨-, hun⟩ := h.server.place_at hreceive
  have hall : r = k + 1 := by
    have hlength := congrArg List.length h.queue
    rw [List.length_append, h.client.length_sent, h.server.length_received] at hlength
    rw [BoundedQueue.length] at hempty
    omega
  have hle : r ≤ k := hun.le hstop
  omega

/-- As long as one of the two has not left, one of them can go on. -/
theorem Flow.live_both (h : Flow stdin s n r) (hleft : ¬ BothLeft s) :
    ∃ e, (PosixMessageQueues.step stdin s e).isSome := by
  by_cases hclient : s.client = .left
  · have hserver : s.server ≠ .left := fun hserver => hleft ⟨hclient, hserver⟩
    exact ⟨.server, h.server_live hclient hserver⟩
  · exact h.live hclient

/-- One of the two leaves on nothing but the stop word. -/
theorem Flow.stop_of_left (h : Flow stdin s n r) (hleft : s.client = .left ∨ s.server = .left) :
    ∃ k, stops (chunk stdin k) = true := by
  obtain hclient | hserver := hleft
  · obtain ⟨k, -, -, hstop, -⟩ := h.client.place_at hclient
    exact ⟨k, hstop⟩
  · obtain ⟨k, -, -, hstop, -⟩ := h.left hserver
    exact ⟨k, hstop⟩

/-- When both have left, the messages and texts are those of the pieces up to the stop word. -/
theorem Flow.stopped (h : Flow (ofList bytes) s n r) (hleft : BothLeft s) : Stopped bytes s := by
  obtain ⟨hclient, hserver⟩ := hleft
  obtain ⟨-, hread, hsent⟩ := h.sent_of_left hclient
  obtain ⟨k, rfl, rfl, hstop, hun⟩ := h.left hserver
  have hrounds : (List.range (k + 1)).map (chunk (ofList bytes)) = s.read := by
    rw [hread, map_chunk_upToStop hun hstop]
  have hall : s.received = s.sent := by rw [h.client.sent, h.server.received]
  refine ⟨hclient, hserver, hread, ?_, ?_, ?_⟩
  · rw [hall, hsent, hread]
  · obtain ⟨j, hj, -, hprinted, -⟩ := h.server.place_at hserver
    obtain rfl : k = j := Nat.succ.inj hj
    rw [hprinted, texts, ← hrounds, List.range_succ, List.map_append, List.map_singleton,
      List.dropLast_concat, List.map_map]
    rfl
  · have hqueue := h.queue
    rw [hall] at hqueue
    exact List.self_eq_append_right.mp hqueue

/-- When both have left they can do nothing more. -/
theorem Stopped.step {e : Event} (h : Stopped bytes s) :
    PosixMessageQueues.step stdin s e = none := by
  cases e with
  | client =>
    show clientStep stdin s = none
    rw [clientStep, h.client]
  | server =>
    show serverStep s = none
    rw [serverStep, h.server]

/-- Whatever the two processes find in their buffers, under every fair schedule: if one of them
    ever leaves its loop there is a chunk with the stop word, and if there is one both leave
    for good, the server with all chunks in front of it printed. -/
theorem both_stop (bytes : List UInt8) (clientBuffer : Fin maxSize → UInt8)
    (serverBuffer : Fin (maxSize + 1) → UInt8) (sched : Nat → Event) (hfair : Fair sched) :
    ((∃ m, (after bytes clientBuffer serverBuffer sched m).client = .left ∨
        (after bytes clientBuffer serverBuffer sched m).server = .left) →
      ∃ c ∈ LineInput.pieces (maxSize - 1) bytes, stops c = true) ∧
    ((∃ c ∈ LineInput.pieces (maxSize - 1) bytes, stops c = true) →
      ∃ n, ∀ m, n ≤ m → Stopped bytes (after bytes clientBuffer serverBuffer sched m)) := by
  constructor
  · intro ⟨m, hleft⟩
    obtain ⟨i, r, hflow⟩ := flow_exec (ofList bytes) clientBuffer serverBuffer sched m
    exact exists_stop_iff.mpr (hflow.stop_of_left hleft)
  · intro h
    obtain ⟨k, hstop⟩ := exists_stop_iff.mp h
    -- there are only so many steps, and one can be made until both have left
    have hends : ∃ n, BothLeft (after bytes clientBuffer serverBuffer sched n) :=
      hfair.eventually (J := fun s => ∃ n r, Flow (ofList bytes) s n r)
        (fun s e s' ⟨n, r, h⟩ hstep => ⟨h.step hstep, h.lower hstop hstep⟩)
        (fun s ⟨n, r, h⟩ hleft => h.live_both hleft) ⟨0, 0, flow_start clientBuffer serverBuffer⟩
    obtain ⟨n, hleft⟩ := hends
    obtain ⟨i, r, hflow⟩ := flow_exec (ofList bytes) clientBuffer serverBuffer sched n
    refine ⟨n, fun m hle => exec_keeps (J := Stopped bytes) ?_ (hflow.stopped hleft) hle⟩
    intro s e s' h hstep
    cases h.step.symm.trans hstep

/-- The lines "hi" and "exit": the server has printed "hi". -/
theorem both_stop_hi :
    ∃ n, ∀ m, n ≤ m → Stopped [104, 105, 10, 101, 120, 105, 116, 10]
      (after [104, 105, 10, 101, 120, 105, 116, 10] (fun _ => 0) (fun _ => 0) alternate m) := by
  apply (both_stop _ _ _ alternate fair_alternate).2
  refine ⟨[101, 120, 105, 116, 10], ?_, rfl⟩
  simp [LineInput.pieces, LineInput.line, maxSize]

end PosixMessageQueues
