import CSnippets.ForStd.FairSchedule
import CSnippets.ForStd.LineInput
import CSnippets.Spec.PosixMessageQueuesCorrect

/-!
# Does the client end?

The client leaves its loop on a chunk with the stop word, and on nothing else: it does not
look at what `fgets` returns, and at the end of its input it sends empty messages for ever.
If there is a stop word, client and server run for so many steps, and one of them can
always go on until the client has left; so it leaves under every fair schedule, with the
chunks up to that one sent.
-/

namespace PosixMessageQueues

open FairSchedule

/-- A standard input that ends. -/
abbrev ofList (bytes : List UInt8) : Input := fun i => bytes[i]?

/-- The chunks up to the first with the stop word. -/
def upToStop : List (List UInt8) → List (List UInt8)
  | [] => []
  | c :: cs => if stops c then [c] else c :: upToStop cs

variable {stdin : Input} {s s' : State} {n r k : Nat} {bytes : List UInt8}

/-! ## The chunks of a finite input -/

/-- On a finite input `fgets` returns the next line of what is left, or its beginning. -/
theorem line_ofList (bytes : List UInt8) (pos n : Nat) :
    line (ofList bytes) pos n = LineInput.line n (bytes.drop pos) := by
  induction n generalizing pos with
  | zero => rfl
  | succ n ih =>
    rw [line]
    cases hget : bytes[pos]? with
    | none =>
      rw [List.drop_of_length_le (List.getElem?_eq_none_iff.mp hget)]
      simp only [ofList, hget]
      rfl
    | some b =>
      obtain ⟨hlt, hb⟩ := List.getElem?_eq_some_iff.mp hget
      rw [List.drop_eq_getElem_cons hlt, hb, LineInput.line]
      simp only [ofList, hget, ih]

/-- The chunk of a round is the line behind those of the rounds before. -/
theorem chunk_ofList (bytes : List UInt8) (k : Nat) :
    chunk (ofList bytes) k =
      LineInput.line (maxSize - 1) (bytes.drop (position (ofList bytes) k)) := by
  rw [chunk, line_ofList]

/-- Round by round the pieces of the input are read. -/
theorem pieces_drop (bytes : List UInt8) (k : Nat) :
    LineInput.pieces (maxSize - 1) (bytes.drop (position (ofList bytes) k)) =
      (LineInput.pieces (maxSize - 1) bytes).drop k := by
  induction k with
  | zero => rfl
  | succ k ih =>
    have hnext : bytes.drop (position (ofList bytes) (k + 1)) =
        (bytes.drop (position (ofList bytes) k)).drop (chunk (ofList bytes) k).length := by
      rw [List.drop_drop, position_succ]
    rw [← List.drop_drop, ← ih, hnext, chunk_ofList]
    by_cases hend : bytes.drop (position (ofList bytes) k) = []
    · rw [hend, List.drop_nil, LineInput.pieces, List.drop_nil]
    · rw [LineInput.pieces_cons (by decide) hend]
      rfl

/-- Behind the last piece the chunks are empty. -/
theorem chunk_eq_piece (bytes : List UInt8) (k : Nat) :
    chunk (ofList bytes) k = ((LineInput.pieces (maxSize - 1) bytes)[k]?).getD [] := by
  have hdrop := pieces_drop bytes k
  rw [chunk_ofList]
  by_cases hend : bytes.drop (position (ofList bytes) k) = []
  · rw [hend, LineInput.pieces] at hdrop
    rw [hend, List.getElem?_eq_none (List.drop_eq_nil_iff.mp hdrop.symm)]
    rfl
  · rw [LineInput.pieces_cons (by decide) hend] at hdrop
    have hhead := congrArg List.head? hdrop
    rw [List.head?_drop, List.head?_cons] at hhead
    rw [← hhead]
    rfl

/-- The chunks up to the stop word are the first ones. -/
theorem upToStop_front (cs : List (List UInt8)) : upToStop cs <+: cs := by
  induction cs with
  | nil => exact List.prefix_rfl
  | cons c cs ih =>
    rw [upToStop]
    split
    · exact List.cons_prefix_cons.mpr ⟨rfl, List.nil_prefix⟩
    · exact List.cons_prefix_cons.mpr ⟨rfl, ih⟩

/-- The chunks of the rounds up to the first with the stop word. -/
theorem map_upToStop {cs : List (List UInt8)} (hun : ∀ j < k, stops ((cs[j]?).getD []) = false)
    (hstop : stops ((cs[k]?).getD []) = true) :
    (List.range (k + 1)).map (fun j => (cs[j]?).getD []) = upToStop cs := by
  induction cs generalizing k with
  | nil => cases hstop
  | cons c cs ih =>
    rw [List.range_succ_eq_map, List.map_cons, List.map_map, upToStop]
    cases k with
    | zero =>
      have hc : stops c = true := hstop
      rw [if_pos hc]
      rfl
    | succ k =>
      have hc : stops c = false := hun 0 (Nat.succ_pos k)
      have hrest := ih (fun j hj => hun (j + 1) (Nat.succ_lt_succ hj)) hstop
      rw [hc, ← hrest]
      rfl

/-- Up to the round that stops, the chunks read are the pieces up to the stop word. -/
theorem map_chunk_upToStop (hun : Unstopped (ofList bytes) k)
    (hstop : stops (chunk (ofList bytes) k) = true) :
    (List.range (k + 1)).map (chunk (ofList bytes)) =
      upToStop (LineInput.pieces (maxSize - 1) bytes) := by
  have hchunk : chunk (ofList bytes) =
      fun j => ((LineInput.pieces (maxSize - 1) bytes)[j]?).getD [] :=
    funext (chunk_eq_piece bytes)
  rw [Unstopped, hchunk] at hun
  rw [hchunk] at hstop ⊢
  exact map_upToStop hun hstop

/-- Some chunk has the stop word. -/
theorem exists_stop_iff :
    (∃ c ∈ LineInput.pieces (maxSize - 1) bytes, stops c = true) ↔
      ∃ k, stops (chunk (ofList bytes) k) = true := by
  constructor
  · intro ⟨c, hc, hstop⟩
    obtain ⟨k, hk⟩ := List.mem_iff_getElem?.mp hc
    refine ⟨k, ?_⟩
    rw [chunk_eq_piece, hk]
    exact hstop
  · intro ⟨k, hstop⟩
    rw [chunk_eq_piece] at hstop
    -- past the end of input the chunk is empty and does not stop the loop
    cases hget : (LineInput.pieces (maxSize - 1) bytes)[k]? with
    | none =>
      rw [hget] at hstop
      cases hstop
    | some c =>
      rw [hget] at hstop
      exact ⟨c, List.mem_of_getElem? hget, hstop⟩

/-! ## How much there is left to do -/

/-- The steps that the client has left when `k` is the first round with the stop word. -/
def clientLeft (k : Nat) (s : State) : Nat :=
  match s.client with
  | .read => 3 * (k + 1 - s.sent.length)
  | .send => 3 * (k + 1 - s.sent.length) - 1
  | .test => 3 * (k + 1 - s.sent.length) + 1
  | .left => 0

/-- The steps that the server has left. -/
def serverLeft (k : Nat) (s : State) : Nat :=
  match s.server with
  | .receive => 3 * (k + 1 - s.received.length)
  | .terminate _ => 3 * (k + 1 - s.received.length) + 2
  | .test => 3 * (k + 1 - s.received.length) + 1
  | .left => 0

/-- The client goes on or leaves. -/
theorem clientStep_test (hpc : s.client = .test) (h : clientStep stdin s = some s') :
    s'.client = .read ∨ s'.client = .left := by
  simp only [clientStep, hpc, Option.bind_eq_bind, Option.bind_eq_some_iff, Option.pure_def,
    Option.some.injEq] at h
  obtain ⟨_, _, c, _, rfl⟩ := h
  by_cases hc : c = 0
  · exact .inr (if_neg (not_not_intro hc))
  · exact .inl (if_pos hc)

/-- The server goes on or leaves. -/
theorem serverStep_test (hpc : s.server = .test) (h : serverStep s = some s') :
    s'.server = .receive ∨ s'.server = .left := by
  simp only [serverStep, hpc, Option.bind_eq_bind, Option.bind_eq_some_iff, Option.pure_def] at h
  obtain ⟨_, _, c, _, h⟩ := h
  split at h
  · obtain rfl := Option.some.inj h
    exact .inr rfl
  · cases htext : CMemory.cString s.serverBuffer with
    | none =>
      rw [htext] at h
      cases h
    | some text =>
      rw [htext] at h
      obtain rfl := Option.some.inj h
      exact .inl rfl

/-- In front of the stop word. -/
theorem Unstopped.le (h : Unstopped stdin n) (hstop : stops (chunk stdin k) = true) : n ≤ k := by
  by_contra hlt
  rw [h k (by omega)] at hstop
  cases hstop

/-- The client has sent as many messages as it has had rounds. -/
theorem ClientFlow.length_sent (h : ClientFlow stdin s n) : s.sent.length = n := by
  rw [h.sent, length_messages]

/-- The server has received as many messages as it has had rounds. -/
theorem ServerFlow.length_received (h : ServerFlow stdin s r) : s.received.length = r := by
  rw [h.received, length_messages]

/-- A step of the client is one less for it to do, and leaves the server alone. -/
theorem Flow.client_lower (h : Flow stdin s n r) (hstop : stops (chunk stdin k) = true)
    (hstep : PosixMessageQueues.clientStep stdin s = some s') :
    clientLeft k s' < clientLeft k s ∧ KeepsServer s s' := by
  have hlen := h.client.length_sent
  cases hpc : s.client with
  | read =>
    obtain ⟨s'', hs'', hpc', hclient, hkeep, -⟩ := h.client.read hpc
    obtain rfl : s'' = s' := Option.some.inj (hs''.symm.trans hstep)
    have hle := (h.client.place_at hpc).2.2.le hstop
    have hlen' := hclient.length_sent
    refine ⟨?_, hkeep⟩
    simp only [clientLeft, hpc, hpc']
    omega
  | send =>
    by_cases hroom : s.queue.length < 10
    · obtain ⟨s'', hs'', hpc', hclient, hkeep, -⟩ := h.client.send hpc hroom
      obtain rfl : s'' = s' := Option.some.inj (hs''.symm.trans hstep)
      have hle := (h.client.place_at hpc).2.2.2.le hstop
      have hlen' := hclient.length_sent
      refine ⟨?_, hkeep⟩
      simp only [clientLeft, hpc, hpc']
      omega
    · -- the client blocks
      have hfull : s.queue.length = 10 := Nat.le_antisymm s.queue.length_le (Nat.le_of_not_lt hroom)
      simp [PosixMessageQueues.clientStep, hpc, BoundedQueue.put_of_full hfull] at hstep
  | test =>
    obtain ⟨s'', hs'', hclient, hkeep, -⟩ := h.client.test hpc
    obtain rfl : s'' = s' := Option.some.inj (hs''.symm.trans hstep)
    have hlen' := hclient.length_sent
    refine ⟨?_, hkeep⟩
    obtain hpc' | hpc' := clientStep_test hpc hstep
    · simp only [clientLeft, hpc, hpc']
      omega
    · simp only [clientLeft, hpc, hpc']
      omega
  | left =>
    rw [PosixMessageQueues.clientStep, hpc] at hstep
    cases hstep

/-- The same for the server. -/
theorem Flow.server_lower (h : Flow stdin s n r) (hstop : stops (chunk stdin k) = true)
    (hstep : PosixMessageQueues.serverStep s = some s') :
    serverLeft k s' < serverLeft k s ∧ KeepsClient s s' := by
  have hlen := h.server.length_received
  cases hpc : s.server with
  | receive =>
    cases hqueue : s.queue.items with
    | nil =>
      -- the server blocks
      have hempty : s.queue.length = 0 := by rw [BoundedQueue.length, hqueue, List.length_nil]
      simp [PosixMessageQueues.serverStep, hpc, BoundedQueue.get_of_empty hempty] at hstep
    | cons message rest =>
      obtain rfl := h.front hqueue
      obtain ⟨s'', hs'', hpc', hserver, hkeep, -⟩ := h.server.receive hpc hqueue
      obtain rfl : s'' = s' := Option.some.inj (hs''.symm.trans hstep)
      have hle := (h.server.place_at hpc).2.le hstop
      have hlen' := hserver.length_received
      refine ⟨?_, hkeep⟩
      simp only [serverLeft, hpc, hpc']
      omega
  | terminate bytesRead =>
    obtain ⟨s'', hs'', hpc', hserver, hkeep, -⟩ := h.server.terminate hpc
    obtain rfl : s'' = s' := Option.some.inj (hs''.symm.trans hstep)
    have hlen' := hserver.length_received
    refine ⟨?_, hkeep⟩
    simp only [serverLeft, hpc, hpc']
    omega
  | test =>
    obtain ⟨s'', hs'', hserver, hkeep, -⟩ := h.server.test hpc
    obtain rfl : s'' = s' := Option.some.inj (hs''.symm.trans hstep)
    have hlen' := hserver.length_received
    refine ⟨?_, hkeep⟩
    obtain hpc' | hpc' := serverStep_test hpc hstep
    · simp only [serverLeft, hpc, hpc']
      omega
    · simp only [serverLeft, hpc, hpc']
      omega
  | left =>
    rw [PosixMessageQueues.serverStep, hpc] at hstep
    cases hstep

/-- Every step of the two is one less for them to do. -/
theorem Flow.lower {e : Event} (h : Flow stdin s n r) (hstop : stops (chunk stdin k) = true)
    (hstep : PosixMessageQueues.step stdin s e = some s') :
    clientLeft k s' + serverLeft k s' < clientLeft k s + serverLeft k s := by
  cases e with
  | client =>
    obtain ⟨hlower, hkeep⟩ := h.client_lower hstop hstep
    have hsame : serverLeft k s' = serverLeft k s := by
      rw [serverLeft, serverLeft, hkeep.server, hkeep.received]
    omega
  | server =>
    obtain ⟨hlower, hkeep⟩ := h.server_lower hstop hstep
    have hsame : clientLeft k s' = clientLeft k s := by
      rw [clientLeft, clientLeft, hkeep.client, hkeep.sent]
    omega

/-- As long as the client has not left, one of the two can go on. -/
theorem Flow.live (h : Flow stdin s n r) (hleft : s.client ≠ .left) :
    ∃ e, (PosixMessageQueues.step stdin s e).isSome := by
  cases hclient : PosixMessageQueues.clientStep stdin s with
  | some s' => exact ⟨.client, Option.isSome_iff_exists.mpr ⟨s', hclient⟩⟩
  | none =>
    -- the client waits for room in the queue
    obtain ⟨hsend, hfull⟩ := (h.stuck_iff.1.mp hclient).resolve_left hleft
    cases hserver : PosixMessageQueues.serverStep s with
    | some s' => exact ⟨.server, Option.isSome_iff_exists.mpr ⟨s', hserver⟩⟩
    | none =>
      obtain hserverLeft | ⟨-, hempty⟩ := h.stuck_iff.2.mp hserver
      · obtain ⟨k, rfl, -, hstop, -⟩ := h.left hserverLeft
        have hun := (h.client.place_at hsend).2.2.2
        have := hun.le hstop
        omega
      · omega

/-! ## The end of the client -/

/-- What the client has read and sent when it has left. -/
theorem Flow.sent_of_left (h : Flow (ofList bytes) s n r) (hleft : s.client = .left) :
    (∃ k, stops (chunk (ofList bytes) k) = true) ∧
      s.read = upToStop (LineInput.pieces (maxSize - 1) bytes) ∧
      s.sent = (upToStop (LineInput.pieces (maxSize - 1) bytes)).map padded := by
  obtain ⟨k, rfl, hread, hstop, hun⟩ := h.client.place_at hleft
  have hmap := map_chunk_upToStop hun hstop
  refine ⟨⟨k, hstop⟩, ?_, ?_⟩
  · rw [hread, chunks, hmap, List.filter_eq_self]
    intro c hc
    have hne := LineInput.ne_nil_of_mem_pieces (by decide) ((upToStop_front _).subset hc)
    exact decide_eq_true hne
  · rw [h.client.sent, messages, ← hmap, List.map_map]
    rfl

/-- The client has left. -/
def Gone (stdin : Input) (s : State) : Prop := (∃ n r, Flow stdin s n r) ∧ s.client = .left

/-- No step brings the client back once it has left. -/
theorem Gone.step {e : Event} (h : Gone stdin s) (hstop : stops (chunk stdin k) = true)
    (hstep : PosixMessageQueues.step stdin s e = some s') : Gone stdin s' := by
  obtain ⟨⟨n, r, hflow⟩, hleft⟩ := h
  refine ⟨hflow.step hstep, ?_⟩
  cases e with
  | client =>
    have hblocked := hflow.stuck_iff.1.mpr (.inl hleft)
    cases hblocked.symm.trans hstep
  | server => rw [(hflow.server_lower hstop hstep).2.client, hleft]

/-- From some time on the client has left, and has sent the chunks up to the one with the stop
    word, which are those it has read. -/
def Ends (bytes : List UInt8) (clientBuffer : Fin maxSize → UInt8)
    (serverBuffer : Fin (maxSize + 1) → UInt8) (sched : Nat → Event) : Prop :=
  ∃ n, ∀ m, n ≤ m → ∃ s,
    exec (step (ofList bytes)) sched (State.start clientBuffer serverBuffer) m = s ∧
    s.client = .left ∧ s.read = upToStop (LineInput.pieces (maxSize - 1) bytes) ∧
    s.sent = s.read.map padded

/-- The invariant holds at every time of every schedule. -/
theorem flow_exec (stdin : Input) (clientBuffer : Fin maxSize → UInt8)
    (serverBuffer : Fin (maxSize + 1) → UInt8) (sched : Nat → Event) (m : Nat) :
    ∃ n r, Flow stdin (exec (step stdin) sched (State.start clientBuffer serverBuffer) m) n r := by
  have hstart : ∃ n r, Flow stdin (State.start clientBuffer serverBuffer) n r :=
    ⟨0, 0, flow_start clientBuffer serverBuffer⟩
  apply exec_keeps (J := fun s => ∃ n r, Flow stdin s n r) (n := 0) _ hstart (Nat.zero_le m)
  intro s e s' ⟨n, r, h⟩ hstep
  exact h.step hstep

/-- The client leaves on nothing but the stop word. -/
theorem Ends.exists_stop {clientBuffer : Fin maxSize → UInt8}
    {serverBuffer : Fin (maxSize + 1) → UInt8} {sched : Nat → Event}
    (h : Ends bytes clientBuffer serverBuffer sched) :
    ∃ c ∈ LineInput.pieces (maxSize - 1) bytes, stops c = true := by
  obtain ⟨n, hn⟩ := h
  obtain ⟨s, hs, hleft, -⟩ := hn n (Nat.le_refl n)
  obtain ⟨i, r, hflow⟩ := flow_exec (ofList bytes) clientBuffer serverBuffer sched n
  rw [hs] at hflow
  exact exists_stop_iff.mpr (hflow.sent_of_left hleft).1

/-- Whatever the two processes find in their buffers: under every fair schedule the client
    sends the chunks of its input up to the one with the stop word and ends, if and only if
    there is one. -/
theorem client_ends_iff (bytes : List UInt8) (clientBuffer : Fin maxSize → UInt8)
    (serverBuffer : Fin (maxSize + 1) → UInt8) (sched : Nat → Event) (hfair : Fair sched) :
    Ends bytes clientBuffer serverBuffer sched ↔
      ∃ c ∈ LineInput.pieces (maxSize - 1) bytes, stops c = true := by
  constructor
  · exact Ends.exists_stop
  · intro h
    obtain ⟨k, hstop⟩ := exists_stop_iff.mp h
    -- the client leaves, as there are only so many steps
    obtain ⟨n, hleft⟩ := hfair.eventually
      (J := fun s => ∃ n r, Flow (ofList bytes) s n r)
      (fun s e s' ⟨n, r, h⟩ hstep => ⟨h.step hstep, h.lower hstop hstep⟩)
      (fun s ⟨n, r, h⟩ hleft => h.live hleft) ⟨0, 0, flow_start clientBuffer serverBuffer⟩
    have hstays (m : Nat) (hle : n ≤ m) :=
      exec_keeps (J := Gone (ofList bytes)) (fun s e s' h hstep => h.step hstop hstep)
        ⟨flow_exec _ clientBuffer serverBuffer sched n, hleft⟩ hle
    refine ⟨n, ?_⟩
    intro m hle
    obtain ⟨⟨i, r, h⟩, hleft'⟩ := hstays m hle
    obtain ⟨-, hread, hsent⟩ := h.sent_of_left hleft'
    exact ⟨_, rfl, hleft', hread, by rw [hsent, hread]⟩

/-- The two have their turns one after the other. -/
def alternate (n : Nat) : Event := if n % 2 = 0 then .client else .server

/-- The schedule that alternates is fair. -/
theorem fair_alternate : Fair alternate := by
  intro e n
  cases e with
  | client => exact ⟨2 * n, by omega, if_pos (by omega)⟩
  | server => exact ⟨2 * n + 1, by omega, if_neg (by omega)⟩

/-- The lines "hi" and "exit", and one that is not read. -/
theorem client_ends_stop_word :
    Ends [104, 105, 10, 101, 120, 105, 116, 10, 33, 10] (fun _ => 0) (fun _ => 0) alternate := by
  apply (client_ends_iff _ _ _ alternate fair_alternate).mpr
  refine ⟨[101, 120, 105, 116, 10], ?_, rfl⟩
  simp [LineInput.pieces, LineInput.line, maxSize]

/-- The line "hi" alone: the client never leaves. -/
theorem client_never_ends : ¬ Ends [104, 105, 10] (fun _ => 0) (fun _ => 0) alternate := by
  intro h
  obtain ⟨c, hc, hstop⟩ := h.exists_stop
  have hpieces : LineInput.pieces (maxSize - 1) [104, 105, 10] = [[104, 105, 10]] := by
    simp [LineInput.pieces, LineInput.line, maxSize]
  rw [hpieces, List.mem_singleton] at hc
  rw [hc] at hstop
  cases hstop

end PosixMessageQueues
