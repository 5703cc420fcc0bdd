import Mathlib.Data.List.TakeWhile
import CSnippets.ForStd.Runs
import CSnippets.Native.PosixMessageQueues

/-!
# What the server prints

The client tests the buffer it has sent and the server the buffer it has received, so
both leave their loops on the same message, the last one sent. The chunks that the server
prints are those that the client has read as long as there is something to read: at the
end of its input the client goes on sending, and what follows a NUL is not printed.
-/

namespace PosixMessageQueues

/-- `MSG_STOP` without its terminator -/
def stopWord : List UInt8 := [101, 120, 105, 116]

/-- The chunk begins with the stop word. -/
def stops (chunk : List UInt8) : Bool := stopWord.isPrefixOf chunk

/-- A chunk as it is sent, with zeros behind it. -/
def padded (chunk : List UInt8) : List UInt8 :=
  chunk ++ List.replicate (maxSize - chunk.length) 0

/-- Client and server agree on where to stop. -/
structure StopAgreed (s : State) : Prop where
  /-- the server leaves on the first chunk that begins with the stop word, and has then
      received all that was sent -/
  leaves : s.server = .left → ∃ front c, s.read = front ++ [c] ∧ (∀ d ∈ front, stops d = false) ∧
    stops c = true ∧ s.sent.getLast? = some (padded c) ∧ s.received = s.sent
  /-- no message follows the one with the stop word -/
  last : ∀ front message back, s.sent = front ++ message :: back → stops message = true →
    back = []
  drained : s.client = .left → s.server = .left → s.queue.items = []
  /-- the terminator of the server is inside its buffer -/
  inside : ∀ bytesRead, s.server = .terminate bytesRead → bytesRead < s.serverBuffer.length

/-- The chunks printed are those read in front of the stop word, from the first on. -/
def InOrder (s : State) : Prop := s.printed <+: s.read.takeWhile fun c => !stops c

variable (stdin : Input)

/-- How much of the input is read in the first `k` rounds of the client. -/
def position : Nat → Nat
  | 0 => 0
  | k + 1 => position k + (line stdin (position k) (maxSize - 1)).length

/-- The chunk read in round `k`, empty at the end of the input. -/
def chunk (k : Nat) : List UInt8 := line stdin (position stdin k) (maxSize - 1)

/-- Up to the stop word there is always something to read, and it contains no NUL. -/
def TextUntilStop : Prop :=
  ∀ k, (∀ j < k, stops (chunk stdin j) = false) →
    chunk stdin k ≠ [] ∧ (stops (chunk stdin k) = false → 0 ∉ chunk stdin k)

variable {stdin} {s s' : State}

/-! ## Chunks and messages -/

/-- `fgets` reads at most as much as it has room for. -/
theorem length_line_le {pos n : Nat} : (line stdin pos n).length ≤ n := by
  induction n generalizing pos with
  | zero => exact Nat.le_refl 0
  | succ n ih =>
    rw [line]
    split
    · exact Nat.zero_le _
    · split
      · simp
      · exact Nat.succ_le_succ ih

/-- A chunk leaves room for its terminator. -/
theorem length_chunk_lt (k : Nat) : (chunk stdin k).length < maxSize := by
  have hle : (chunk stdin k).length ≤ maxSize - 1 := length_line_le
  have hpos : 0 < maxSize := by decide
  omega

/-- All messages have the size of the buffer. -/
theorem length_padded (k : Nat) : (padded (chunk stdin k)).length = maxSize := by
  have hlt : (chunk stdin k).length < maxSize := length_chunk_lt k
  rw [padded, List.length_append, List.length_replicate]
  omega

/-- The stop word is a text. -/
theorem stopWord_text : 0 ∉ stopWord := by decide

/-- Zeros behind it do not decide whether a chunk stops. -/
theorem stops_zeros (c : List UInt8) (n : Nat) : stops (c ++ List.replicate n 0) = stops c := by
  rw [Bool.eq_iff_iff, stops, stops, List.isPrefixOf_iff_prefix, List.isPrefixOf_iff_prefix]
  exact CMemory.prefix_zeros stopWord_text

/-- A message stops exactly if its chunk does. -/
theorem stops_padded (c : List UInt8) : stops (padded c) = stops c := stops_zeros c _

/-- A chunk as it is received, with its terminator. -/
theorem padded_concat (c : List UInt8) :
    padded c ++ [0] = c ++ List.replicate (maxSize - c.length + 1) 0 := by
  rw [padded, List.replicate_succ', List.append_assoc]

/-- The chunk that stops is not empty. -/
theorem ne_nil_of_stops {c : List UInt8} (h : stops c = true) : c ≠ [] := by
  rintro rfl
  cases h

/-- `strlen(MSG_STOP)` is 4, so both tests compare the stop word without its terminator. -/
theorem strlen_msgStop : CMemory.strlen msgStop = some 4 := by rfl

/-- The test of both loops. -/
theorem strncmp_stop {bytes : List UInt8} (hlen : maxSize ≤ bytes.length) :
    ∃ c, CMemory.strncmp bytes msgStop 4 = some c ∧ (c = 0 ↔ stops bytes = true) := by
  have hword : stopWord.length ≤ bytes.length := Nat.le_trans (by decide) hlen
  obtain ⟨c, hc, hiff⟩ := CMemory.strncmp_word stopWord_text hword
  refine ⟨c, hc, ?_⟩
  rw [hiff, stops, List.isPrefixOf_iff_prefix]

/-- `memset` makes the message of an empty chunk. -/
theorem clear_buffer {buffer : List UInt8} (hbuffer : buffer.length = maxSize) :
    CMemory.clear buffer maxSize = padded [] := by
  rw [CMemory.clear, CMemory.splice_zero, List.length_replicate,
    List.drop_of_length_le (Nat.le_of_eq hbuffer), List.append_nil]
  rfl

/-- `memset` and `fgets` make a padded chunk. -/
theorem memcpyTo_clear {buffer c : List UInt8} (hbuffer : buffer.length = maxSize)
    (hc : c.length < maxSize) :
    CMemory.memcpyTo (CMemory.clear buffer maxSize) 0 (c ++ [0]) (c.length + 1) =
      some (padded c) := by
  have hclear : CMemory.clear buffer maxSize = List.replicate maxSize 0 := clear_buffer hbuffer
  have hzeros : maxSize - c.length = 1 + (maxSize - (c.length + 1)) := by omega
  have hfits : c.length + 1 ≤ (List.replicate maxSize (0 : UInt8)).length := by
    rw [List.length_replicate]
    exact hc
  rw [hclear, CMemory.memcpyTo_zero hfits (by simp), List.take_of_length_le (by simp),
    CMemory.splice_zero, List.drop_replicate, padded, hzeros, List.replicate_add,
    List.append_assoc]
  simp

/-! ## The two loops -/

variable (stdin)

/-- The messages of the first rounds. -/
def messages (n : Nat) : List (List UInt8) := (List.range n).map fun k => padded (chunk stdin k)

/-- What `fgets` has read in the first rounds. -/
def chunks (n : Nat) : List (List UInt8) := ((List.range n).map (chunk stdin)).filter (· ≠ [])

/-- What is printed of the first messages. -/
def texts (n : Nat) : List (List UInt8) :=
  (List.range n).map fun k => (chunk stdin k).takeWhile (· != 0)

/-- The stop word is not at the beginning of the first chunks. -/
def Unstopped (n : Nat) : Prop := ∀ j < n, stops (chunk stdin j) = false

/-- The client at each place of its loop, when `n` messages have been sent. -/
def ClientAt (buffer : List UInt8) (pos : Nat) (read : List (List UInt8)) (n : Nat) :
    ClientPc → Prop
  | .read => pos = position stdin n ∧ read = chunks stdin n ∧ Unstopped stdin n
  | .send =>
    pos = position stdin (n + 1) ∧ read = chunks stdin (n + 1) ∧
      buffer = padded (chunk stdin n) ∧ Unstopped stdin n
  | .test =>
    ∃ k, n = k + 1 ∧ pos = position stdin n ∧ read = chunks stdin n ∧
      buffer = padded (chunk stdin k) ∧ Unstopped stdin k
  | .left =>
    ∃ k, n = k + 1 ∧ read = chunks stdin n ∧ stops (chunk stdin k) = true ∧ Unstopped stdin k

/-- The client has sent the first `n` messages. -/
structure ClientFlow (s : State) (n : Nat) : Prop where
  sent : s.sent = messages stdin n
  length : s.clientBuffer.length = maxSize
  place : ClientAt stdin s.clientBuffer s.pos s.read n s.client

/-- The server at each place of its loop, when it has received `r` messages. -/
def ServerAt (buffer : List UInt8) (printed : List (List UInt8)) (r : Nat) : ServerPc → Prop
  | .receive => printed = texts stdin r ∧ Unstopped stdin r
  | .terminate bytesRead =>
    bytesRead = maxSize ∧ ∃ k, r = k + 1 ∧ buffer.take maxSize = padded (chunk stdin k) ∧
      printed = texts stdin k ∧ Unstopped stdin k
  | .test =>
    ∃ k, r = k + 1 ∧ buffer = padded (chunk stdin k) ++ [0] ∧ printed = texts stdin k ∧
      Unstopped stdin k
  | .left =>
    ∃ k, r = k + 1 ∧ stops (chunk stdin k) = true ∧ printed = texts stdin k ∧ Unstopped stdin k

/-- The server has received the first `r` messages. -/
structure ServerFlow (s : State) (r : Nat) : Prop where
  received : s.received = messages stdin r
  length : s.serverBuffer.length = maxSize + 1
  place : ServerAt stdin s.serverBuffer s.printed r s.server

/-- The invariant: `n` messages have been sent and `r` received. -/
structure Flow (s : State) (n r : Nat) : Prop where
  client : ClientFlow stdin s n
  server : ServerFlow stdin s r
  queue : s.sent = s.received ++ s.queue.items

variable {stdin} {n r : Nat}

/-- A step of the client. -/
structure KeepsServer (s s' : State) : Prop where
  server : s'.server = s.server
  buffer : s'.serverBuffer = s.serverBuffer
  received : s'.received = s.received
  printed : s'.printed = s.printed

/-- A step of the server. -/
structure KeepsClient (s s' : State) : Prop where
  client : s'.client = s.client
  buffer : s'.clientBuffer = s.clientBuffer
  pos : s'.pos = s.pos
  read : s'.read = s.read
  sent : s'.sent = s.sent

/-- A step of the client leaves the server where it is. -/
theorem ServerFlow.keep (h : ServerFlow stdin s r) (hkeep : KeepsServer s s') :
    ServerFlow stdin s' r where
  received := hkeep.received.trans h.received
  length := by rw [hkeep.buffer, h.length]
  place := by
    rw [hkeep.buffer, hkeep.printed, hkeep.server]
    exact h.place

/-- A step of the server leaves the client where it is. -/
theorem ClientFlow.keep (h : ClientFlow stdin s n) (hkeep : KeepsClient s s') :
    ClientFlow stdin s' n where
  sent := hkeep.sent.trans h.sent
  length := by rw [hkeep.buffer, h.length]
  place := by
    rw [hkeep.buffer, hkeep.pos, hkeep.read, hkeep.client]
    exact h.place

/-- Each round reads on where the one before has stopped. -/
theorem position_succ : position stdin (n + 1) = position stdin n + (chunk stdin n).length := by
  rfl

/-- What the invariant says of the client at its place. -/
theorem ClientFlow.place_at (h : ClientFlow stdin s n) {pc : ClientPc} (hpc : s.client = pc) :
    ClientAt stdin s.clientBuffer s.pos s.read n pc :=
  hpc ▸ h.place

/-- What the invariant says of the server at its place. -/
theorem ServerFlow.place_at (h : ServerFlow stdin s r) {pc : ServerPc} (hpc : s.server = pc) :
    ServerAt stdin s.serverBuffer s.printed r pc :=
  hpc ▸ h.place

/-- Each round sends one message more. -/
theorem messages_succ : messages stdin (n + 1) = messages stdin n ++ [padded (chunk stdin n)] := by
  rw [messages, messages, List.range_succ, List.map_append]
  rfl

/-- Each round prints one text more. -/
theorem texts_succ :
    texts stdin (n + 1) = texts stdin n ++ [(chunk stdin n).takeWhile (· != 0)] := by
  rw [texts, texts, List.range_succ, List.map_append]
  rfl

/-- Each round reads one chunk more, or finds the end of the input. -/
theorem chunks_succ :
    chunks stdin (n + 1) =
      chunks stdin n ++ if chunk stdin n = [] then [] else [chunk stdin n] := by
  rw [chunks, chunks, List.range_succ, List.map_append, List.filter_append]
  by_cases h : chunk stdin n = [] <;> simp [h]

/-- A round that does not stop is followed by another one. -/
theorem Unstopped.succ (h : Unstopped stdin n) (hn : stops (chunk stdin n) = false) :
    Unstopped stdin (n + 1) := by
  intro j hj
  obtain hj | rfl := Nat.lt_succ_iff_lt_or_eq.mp hj
  · exact h j hj
  · exact hn

/-! ## The client -/

/-- `fgets` leaves the padded chunk of this round in the buffer, empty or not. -/
theorem ClientFlow.read (h : ClientFlow stdin s n) (hpc : s.client = .read) :
    ∃ s', clientStep stdin s = some s' ∧ s'.client = .send ∧ ClientFlow stdin s' n ∧
      KeepsServer s s' ∧ s'.queue = s.queue := by
  obtain ⟨hpos, hread, hun⟩ := h.place_at hpc
  have hline : line stdin s.pos (maxSize - 1) = chunk stdin n := by rw [hpos, chunk]
  rw [clientStep, hpc]
  simp only [hline]
  by_cases hnil : chunk stdin n = []
  · rw [if_pos hnil]
    -- the input has ended: the buffer keeps its zeros
    have hbuffer : CMemory.clear s.clientBuffer maxSize = padded (chunk stdin n) := by
      rw [clear_buffer h.length, hnil]
    refine ⟨_, rfl, rfl, ⟨h.sent, ?_, ?_, ?_, hbuffer, hun⟩, ⟨rfl, rfl, rfl, rfl⟩, rfl⟩
    · rw [hbuffer, length_padded]
    · rw [position_succ, hnil, hpos]
      rfl
    · rw [chunks_succ, if_pos hnil, List.append_nil, hread]
  · rw [if_neg hnil, memcpyTo_clear h.length (length_chunk_lt n)]
    refine ⟨_, rfl, rfl, ⟨h.sent, length_padded n, ?_, ?_, rfl, hun⟩, ⟨rfl, rfl, rfl, rfl⟩, rfl⟩
    · rw [position_succ, hpos]
    · rw [chunks_succ, if_neg hnil, hread]

/-- With room in the queue the client sends its buffer. -/
theorem ClientFlow.send (h : ClientFlow stdin s n) (hpc : s.client = .send)
    (hroom : s.queue.length < 10) :
    ∃ s', clientStep stdin s = some s' ∧ s'.client = .test ∧ ClientFlow stdin s' (n + 1) ∧
      KeepsServer s s' ∧ s'.queue.items = s.queue.items ++ [padded (chunk stdin n)] ∧
      s'.sent = s.sent ++ [padded (chunk stdin n)] := by
  obtain ⟨hpos, hread, hbuffer, hun⟩ := h.place_at hpc
  have hmessage : s.clientBuffer.take maxSize = padded (chunk stdin n) := by
    rw [hbuffer, List.take_of_length_le (Nat.le_of_eq (length_padded n))]
  obtain ⟨queue, hput, hitems⟩ := BoundedQueue.put_of_lt hroom (padded (chunk stdin n))
  rw [clientStep, hpc]
  simp only [hmessage, hput]
  refine ⟨_, rfl, rfl, ⟨?_, h.length, n, rfl, hpos, hread, hbuffer, hun⟩, ⟨rfl, rfl, rfl, rfl⟩,
    hitems, rfl⟩
  rw [messages_succ, ← h.sent]

/-- The client leaves its loop exactly on the chunk that stops. -/
theorem ClientFlow.test (h : ClientFlow stdin s n) (hpc : s.client = .test) :
    ∃ s', clientStep stdin s = some s' ∧ ClientFlow stdin s' n ∧ KeepsServer s s' ∧
      s'.queue = s.queue ∧ s'.sent = s.sent ∧
      (Unstopped stdin n → s'.client = .read) := by
  obtain ⟨k, rfl, hpos, hread, hbuffer, hun⟩ := h.place_at hpc
  obtain ⟨c, hc, hiff⟩ := strncmp_stop (Nat.le_of_eq h.length.symm)
  rw [hbuffer, stops_padded] at hiff
  rw [clientStep, hpc]
  simp only [strlen_msgStop, hc, Option.bind_eq_bind, Option.bind_some, Option.pure_def]
  by_cases hstop : stops (chunk stdin k) = true
  · rw [if_neg (not_not_intro (hiff.mpr hstop))]
    refine ⟨_, rfl, ⟨h.sent, h.length, k, rfl, hread, hstop, hun⟩, ⟨rfl, rfl, rfl, rfl⟩, rfl, rfl,
      fun hun' => ?_⟩
    rw [hun' k (Nat.lt_succ_self k)] at hstop
    cases hstop
  · have hgo : stops (chunk stdin k) = false := Bool.eq_false_iff.mpr hstop
    rw [if_pos fun hzero => hstop (hiff.mp hzero)]
    exact ⟨_, rfl, ⟨h.sent, h.length, hpos, hread, hun.succ hgo⟩, ⟨rfl, rfl, rfl, rfl⟩, rfl, rfl,
      fun _ => rfl⟩

/-! ## The server -/

/-- The message at the front of the queue is the next one. -/
theorem ServerFlow.receive (h : ServerFlow stdin s r) (hpc : s.server = .receive)
    {rest : List (List UInt8)} (hqueue : s.queue.items = padded (chunk stdin r) :: rest) :
    ∃ s', serverStep s = some s' ∧ s'.server = .terminate maxSize ∧ ServerFlow stdin s' (r + 1) ∧
      KeepsClient s s' ∧ s'.queue.items = rest ∧
      s'.received = s.received ++ [padded (chunk stdin r)] := by
  obtain ⟨hprinted, hun⟩ := h.place_at hpc
  obtain ⟨queue, hget, hitems⟩ := BoundedQueue.get_of_cons hqueue
  have hlength : (padded (chunk stdin r)).length = maxSize := length_padded r
  have hfits : (padded (chunk stdin r)).length ≤ s.serverBuffer.length := by
    rw [hlength, h.length]
    exact Nat.le_succ _
  rw [serverStep, hpc]
  simp only [hget, CMemory.memcpyTo_zero hfits (Nat.le_refl _), Option.bind_eq_bind,
    Option.bind_some, Option.pure_def, List.take_length]
  refine ⟨_, rfl, by rw [hlength], ⟨?_, ?_, hlength, r, rfl, ?_, hprinted, hun⟩,
    ⟨rfl, rfl, rfl, rfl, rfl⟩, hitems, rfl⟩
  · rw [messages_succ, ← h.received]
  · rw [CMemory.length_splice (by omega), h.length]
  · rw [CMemory.splice_zero, List.take_left' hlength]

/-- The server writes its terminator behind the message, inside its buffer. -/
theorem ServerFlow.terminate (h : ServerFlow stdin s r) {bytesRead : Nat}
    (hpc : s.server = .terminate bytesRead) :
    ∃ s', serverStep s = some s' ∧ s'.server = .test ∧ ServerFlow stdin s' r ∧
      KeepsClient s s' ∧ s'.queue = s.queue ∧ s'.received = s.received := by
  obtain ⟨rfl, k, rfl, hbuffer, hprinted, hun⟩ := h.place_at hpc
  have hwrite : CMemory.memcpyTo s.serverBuffer maxSize [0] 1 =
      some (padded (chunk stdin k) ++ [0]) := by
    have hrest : s.serverBuffer.drop (maxSize + 1) = [] :=
      List.drop_of_length_le (Nat.le_of_eq h.length)
    rw [CMemory.memcpyTo, if_pos ⟨Nat.le_of_eq h.length.symm, Nat.le_refl 1⟩, CMemory.splice,
      hbuffer, List.take_of_length_le (Nat.le_refl 1), List.length_singleton, hrest,
      List.append_nil]
  rw [serverStep, hpc]
  simp only [hwrite, Option.bind_eq_bind, Option.bind_some, Option.pure_def]
  refine ⟨_, rfl, rfl, ⟨h.received, ?_, k, rfl, rfl, hprinted, hun⟩, ⟨rfl, rfl, rfl, rfl, rfl⟩,
    rfl, rfl⟩
  rw [List.length_append, length_padded, List.length_singleton]

/-- The server prints the text and goes on, or leaves its loop on the chunk that stops. -/
theorem ServerFlow.test (h : ServerFlow stdin s r) (hpc : s.server = .test) :
    ∃ s', serverStep s = some s' ∧ ServerFlow stdin s' r ∧ KeepsClient s s' ∧
      s'.queue = s.queue ∧ s'.received = s.received ∧
      (Unstopped stdin r → s'.server = .receive) := by
  obtain ⟨k, rfl, hbuffer, hprinted, hun⟩ := h.place_at hpc
  have hlength : maxSize ≤ s.serverBuffer.length := by
    rw [h.length]
    exact Nat.le_succ _
  obtain ⟨c, hc, hiff⟩ := strncmp_stop hlength
  -- behind the message the buffer is zero, so `strncmp` and `printf` find its end
  have hbytes : s.serverBuffer =
      chunk stdin k ++ List.replicate (maxSize - (chunk stdin k).length + 1) 0 := by
    rw [hbuffer, padded_concat]
  have htext : CMemory.cString s.serverBuffer =
      some ((chunk stdin k).takeWhile (· != 0)) := by
    rw [hbytes, CMemory.cString_padded (Nat.succ_pos _)]
  rw [hbytes, stops_zeros] at hiff
  rw [serverStep, hpc]
  simp only [strlen_msgStop, hc, htext, Option.bind_eq_bind, Option.bind_some, Option.pure_def]
  -- the stop message ends the server before it is printed
  by_cases hstop : stops (chunk stdin k) = true
  · rw [if_pos (hiff.mpr hstop)]
    refine ⟨_, rfl, ⟨h.received, h.length, k, rfl, hstop, hprinted, hun⟩,
      ⟨rfl, rfl, rfl, rfl, rfl⟩, rfl, rfl, fun hun' => ?_⟩
    rw [hun' k (Nat.lt_succ_self k)] at hstop
    cases hstop
  · have hgo : stops (chunk stdin k) = false := Bool.eq_false_iff.mpr hstop
    rw [if_neg fun hzero => hstop (hiff.mp hzero)]
    refine ⟨_, rfl, ⟨h.received, h.length, ?_, hun.succ hgo⟩, ⟨rfl, rfl, rfl, rfl, rfl⟩, rfl, rfl,
      fun _ => rfl⟩
    rw [texts_succ, hprinted]

/-! ## The run -/

/-- Each round sends one message. -/
theorem length_messages : (messages stdin n).length = n := by
  rw [messages, List.length_map, List.length_range]

/-- The message of a round is its padded chunk. -/
theorem getElem?_messages {k : Nat} (hk : k < n) :
    (messages stdin n)[k]? = some (padded (chunk stdin k)) := by
  rw [messages, List.getElem?_map, List.getElem?_range hk]
  rfl

/-- Nothing is received that has not been sent. -/
theorem Flow.received_le (h : Flow stdin s n r) : r ≤ n := by
  have hlength := congrArg List.length h.queue
  rw [List.length_append, h.client.sent, h.server.received, length_messages,
    length_messages] at hlength
  omega

/-- The oldest message in the queue is the next one of the client. -/
theorem Flow.front (h : Flow stdin s n r) {message : List UInt8} {rest : List (List UInt8)}
    (hqueue : s.queue.items = message :: rest) : message = padded (chunk stdin r) := by
  have hsent : messages stdin n = messages stdin r ++ message :: rest := by
    rw [← h.client.sent, ← h.server.received, ← hqueue, h.queue]
  have hlength : n = r + (rest.length + 1) := by
    have hlength := congrArg List.length hsent
    rwa [List.length_append, length_messages, length_messages, List.length_cons] at hlength
  have hget : (messages stdin n)[r]? = some message := by
    rw [hsent, List.getElem?_append_right (by rw [length_messages]), length_messages, Nat.sub_self]
    rfl
  rw [getElem?_messages (by omega)] at hget
  exact (Option.some.inj hget).symm

/-- Every step of the client keeps the invariant. -/
theorem Flow.clientStep (h : Flow stdin s n r) (hstep : clientStep stdin s = some s') :
    ∃ n, Flow stdin s' n r := by
  cases hpc : s.client with
  | read =>
    obtain ⟨s'', hs'', -, hclient, hkeep, hqueue⟩ := h.client.read hpc
    obtain rfl : s'' = s' := Option.some.inj (hs''.symm.trans hstep)
    refine ⟨n, hclient, h.server.keep hkeep, ?_⟩
    rw [hclient.sent, ← h.client.sent, hkeep.received, hqueue]
    exact h.queue
  | send =>
    by_cases hroom : s.queue.length < 10
    · obtain ⟨s'', hs'', -, hclient, hkeep, hqueue, hsent⟩ := h.client.send hpc hroom
      obtain rfl : s'' = s' := Option.some.inj (hs''.symm.trans hstep)
      refine ⟨n + 1, hclient, h.server.keep hkeep, ?_⟩
      rw [hsent, hkeep.received, hqueue, h.queue, List.append_assoc]
    · -- the client blocks
      have hfull : s.queue.length = 10 := Nat.le_antisymm s.queue.length_le (Nat.le_of_not_lt hroom)
      simp [PosixMessageQueues.clientStep, hpc, BoundedQueue.put_of_full hfull] at hstep
  | test =>
    obtain ⟨s'', hs'', hclient, hkeep, hqueue, hsent, -⟩ := h.client.test hpc
    obtain rfl : s'' = s' := Option.some.inj (hs''.symm.trans hstep)
    refine ⟨n, hclient, h.server.keep hkeep, ?_⟩
    rw [hsent, hkeep.received, hqueue]
    exact h.queue
  | left =>
    rw [PosixMessageQueues.clientStep, hpc] at hstep
    cases hstep

/-- Every step of the server keeps the invariant. -/
theorem Flow.serverStep (h : Flow stdin s n r) (hstep : serverStep s = some s') :
    ∃ r, Flow stdin s' n r := by
  cases hpc : s.server with
  | receive =>
    cases hqueue : s.queue.items with
    | nil =>
      -- the server blocks
      have hempty : s.queue.length = 0 := by rw [BoundedQueue.length, hqueue, List.length_nil]
      simp [PosixMessageQueues.serverStep, hpc, BoundedQueue.get_of_empty hempty] at hstep
    | cons message rest =>
      obtain rfl := h.front hqueue
      obtain ⟨s'', hs'', -, hserver, hkeep, hrest, hreceived⟩ := h.server.receive hpc hqueue
      obtain rfl : s'' = s' := Option.some.inj (hs''.symm.trans hstep)
      refine ⟨r + 1, h.client.keep hkeep, hserver, ?_⟩
      rw [hkeep.sent, h.queue, hqueue, hreceived, hrest, List.append_assoc]
      rfl
  | terminate bytesRead =>
    obtain ⟨s'', hs'', -, hserver, hkeep, hqueue, hreceived⟩ := h.server.terminate hpc
    obtain rfl : s'' = s' := Option.some.inj (hs''.symm.trans hstep)
    refine ⟨r, h.client.keep hkeep, hserver, ?_⟩
    rw [hkeep.sent, h.queue, hqueue, hreceived]
  | test =>
    obtain ⟨s'', hs'', hserver, hkeep, hqueue, hreceived, -⟩ := h.server.test hpc
    obtain rfl : s'' = s' := Option.some.inj (hs''.symm.trans hstep)
    refine ⟨r, h.client.keep hkeep, hserver, ?_⟩
    rw [hkeep.sent, h.queue, hqueue, hreceived]
  | left =>
    rw [PosixMessageQueues.serverStep, hpc] at hstep
    cases hstep

/-- Both start in the first round, whatever their buffers hold. -/
theorem flow_start (clientBuffer : Fin maxSize → UInt8)
    (serverBuffer : Fin (maxSize + 1) → UInt8) :
    Flow stdin (State.start clientBuffer serverBuffer) 0 0 := by
  have hun : Unstopped stdin 0 := fun _ hj => absurd hj (Nat.not_lt_zero _)
  have hclient : (List.ofFn clientBuffer).length = maxSize := List.length_ofFn
  have hserver : (List.ofFn serverBuffer).length = maxSize + 1 := List.length_ofFn
  rw [State.start]
  generalize List.ofFn clientBuffer = buffer at hclient
  generalize List.ofFn serverBuffer = buffer' at hserver
  exact ⟨⟨rfl, hclient, rfl, rfl, hun⟩, ⟨rfl, hserver, rfl, hun⟩, rfl⟩

/-- The client has gone on behind each message but the last. -/
theorem ClientFlow.unstopped (h : ClientFlow stdin s n) {j : Nat} (hj : j + 1 < n) :
    stops (chunk stdin j) = false := by
  cases hpc : s.client with
  | read => exact (h.place_at hpc).2.2 j (by omega)
  | send => exact (h.place_at hpc).2.2.2 j (by omega)
  | test =>
    obtain ⟨k, rfl, -, -, -, hun⟩ := h.place_at hpc
    exact hun j (by omega)
  | left =>
    obtain ⟨k, rfl, -, -, hun⟩ := h.place_at hpc
    exact hun j (by omega)

/-- Behind a message with the stop word the client reads nothing more. -/
theorem ClientFlow.read_eq (h : ClientFlow stdin s (n + 1)) (hstop : stops (chunk stdin n) = true) :
    s.read = chunks stdin (n + 1) := by
  have hun : ¬ Unstopped stdin (n + 1) := by
    intro hun
    rw [hun n (Nat.lt_succ_self n)] at hstop
    cases hstop
  cases hpc : s.client with
  | read => exact absurd (h.place_at hpc).2.2 hun
  | send => exact absurd (h.place_at hpc).2.2.2 hun
  | test =>
    obtain ⟨k, -, -, hread, -, -⟩ := h.place_at hpc
    exact hread
  | left =>
    obtain ⟨k, -, hread, -, -⟩ := h.place_at hpc
    exact hread

/-- When the server has left its loop it has received everything. -/
theorem Flow.left (h : Flow stdin s n r) (hleft : s.server = .left) :
    ∃ k, n = k + 1 ∧ r = k + 1 ∧ stops (chunk stdin k) = true ∧ Unstopped stdin k := by
  obtain ⟨k, rfl, hstop, -, hun⟩ := h.server.place_at hleft
  have hle := h.received_le
  have hlast : ¬ k + 1 < n := by
    intro hlt
    rw [h.client.unstopped hlt] at hstop
    cases hstop
  exact ⟨k, by omega, rfl, hstop, hun⟩

/-- Under the invariant both agree on where to stop. -/
theorem Flow.stopAgreed (h : Flow stdin s n r) : StopAgreed s := by
  constructor
  · intro hleft
    obtain ⟨k, rfl, rfl, hstop, hun⟩ := h.left hleft
    refine ⟨chunks stdin k, chunk stdin k, ?_, ?_, hstop, ?_, ?_⟩
    · rw [h.client.read_eq hstop, chunks_succ, if_neg (ne_nil_of_stops hstop)]
    · intro d hd
      rw [chunks, List.mem_filter, List.mem_map] at hd
      obtain ⟨⟨j, hj, rfl⟩, -⟩ := hd
      exact hun j (List.mem_range.mp hj)
    · rw [h.client.sent, messages_succ, List.getLast?_concat]
    · rw [h.server.received, h.client.sent]
  · -- behind a message that is not the last the client has tested and gone on
    intro front message back hsent hstop
    rw [h.client.sent] at hsent
    have hlength := congrArg List.length hsent
    rw [length_messages, List.length_append, List.length_cons] at hlength
    have hget : (messages stdin n)[front.length]? = some message := by
      rw [hsent, List.getElem?_append_right (Nat.le_refl _), Nat.sub_self]
      rfl
    rw [getElem?_messages (by omega)] at hget
    obtain rfl := Option.some.inj hget
    rw [stops_padded] at hstop
    by_contra hback
    have hpos := List.length_pos_iff.mpr hback
    rw [h.client.unstopped (by omega)] at hstop
    cases hstop
  · intro _ hleft
    obtain ⟨k, rfl, rfl, -, -⟩ := h.left hleft
    have hqueue := h.queue
    rw [h.client.sent, h.server.received] at hqueue
    exact List.self_eq_append_right.mp hqueue
  · intro bytesRead hpc
    rw [(h.server.place_at hpc).1, h.server.length]
    exact Nat.lt_succ_self _

/-- Every step of either keeps the invariant. -/
theorem Flow.step {e : Event} (h : Flow stdin s n r) (hstep : step stdin s e = some s') :
    ∃ n r, Flow stdin s' n r := by
  cases e with
  | client =>
    obtain ⟨n, h⟩ := h.clientStep hstep
    exact ⟨n, r, h⟩
  | server =>
    obtain ⟨r, h⟩ := h.serverStep hstep
    exact ⟨n, r, h⟩

/-- What the invariant gives holds in every state of every run. -/
theorem flow_run {P : State → Prop} (hP : ∀ s n r, Flow stdin s n r → P s)
    (clientBuffer : Fin maxSize → UInt8) (serverBuffer : Fin (maxSize + 1) → UInt8)
    (schedule : List Event) :
    Runs.Always (PosixMessageQueues.step stdin) P (State.start clientBuffer serverBuffer)
      schedule := by
  apply Runs.Always.of_preserved (J := fun s => ∃ n r, Flow stdin s n r)
  · exact fun s ⟨n, r, h⟩ => hP s n r h
  · exact fun s e s' ⟨n, r, h⟩ hstep => h.step hstep
  · exact ⟨0, 0, flow_start clientBuffer serverBuffer⟩

/-- Whatever the client reads, client and server stop at the same message. -/
theorem stop_agreed (stdin : Input) (clientBuffer : Fin maxSize → UInt8)
    (serverBuffer : Fin (maxSize + 1) → UInt8) (schedule : List Event) :
    Runs.Always (PosixMessageQueues.step stdin) StopAgreed (State.start clientBuffer serverBuffer)
      schedule :=
  flow_run (fun _ _ _ h => h.stopAgreed) clientBuffer serverBuffer schedule

/-- No step is undefined: a process is stuck only where it blocks, and behind its loop. -/
theorem Flow.stuck_iff (h : Flow stdin s n r) :
    (PosixMessageQueues.clientStep stdin s = none ↔
      s.client = .left ∨ s.client = .send ∧ s.queue.length = 10) ∧
    (PosixMessageQueues.serverStep s = none ↔
      s.server = .left ∨ s.server = .receive ∧ s.queue.length = 0) := by
  -- the client waits for room and for nothing else, the server for a message
  constructor
  · cases hpc : s.client with
    | read =>
      obtain ⟨s', hs', -⟩ := h.client.read hpc
      simp [hs']
    | send =>
      by_cases hroom : s.queue.length < 10
      · obtain ⟨s', hs', -⟩ := h.client.send hpc hroom
        simp [hs', Nat.ne_of_lt hroom]
      · have hfull : s.queue.length = 10 :=
          Nat.le_antisymm s.queue.length_le (Nat.le_of_not_lt hroom)
        simp [PosixMessageQueues.clientStep, hpc, BoundedQueue.put_of_full hfull, hfull]
    | test =>
      obtain ⟨s', hs', -⟩ := h.client.test hpc
      simp [hs']
    | left => simp [PosixMessageQueues.clientStep, hpc]
  · cases hpc : s.server with
    | receive =>
      cases hqueue : s.queue.items with
      | nil =>
        have hempty : s.queue.length = 0 := by rw [BoundedQueue.length, hqueue, List.length_nil]
        simp [PosixMessageQueues.serverStep, hpc, BoundedQueue.get_of_empty hempty, hempty]
      | cons message rest =>
        -- the first message queued is the next one due
        obtain rfl := h.front hqueue
        obtain ⟨s', hs', -⟩ := h.server.receive hpc hqueue
        simp [hs', BoundedQueue.length, hqueue]
    | terminate bytesRead =>
      obtain ⟨s', hs', -⟩ := h.server.terminate hpc
      simp [hs']
    | test =>
      obtain ⟨s', hs', -⟩ := h.server.test hpc
      simp [hs']
    | left => simp [PosixMessageQueues.serverStep, hpc]

/-! ## The texts -/

/-- More rounds read more. -/
theorem chunks_mono {m : Nat} (h : n ≤ m) : chunks stdin n <+: chunks stdin m := by
  induction h with
  | refl => exact List.prefix_rfl
  | step _ ih =>
    rw [chunks_succ]
    exact ih.trans (List.prefix_append _ _)

/-- As long as there is text, all of it is printed. -/
theorem TextUntilStop.texts_eq (h : TextUntilStop stdin) (hun : Unstopped stdin n) :
    texts stdin n = chunks stdin n := by
  induction n with
  | zero => rfl
  | succ n ih =>
    have hun' : Unstopped stdin n := fun j hj => hun j (by omega)
    obtain ⟨hne, htext⟩ := h n hun'
    have hzero : 0 ∉ chunk stdin n := htext (hun n (Nat.lt_succ_self n))
    have hall : (chunk stdin n).takeWhile (· != 0) = chunk stdin n := by
      rw [List.takeWhile_eq_self_iff]
      intro b hb
      exact bne_iff_ne.mpr fun hb0 => hzero (hb0 ▸ hb)
    rw [texts_succ, chunks_succ, if_neg hne, hall, ih hun']

/-- The texts printed are those of the first messages received, none of which stops. -/
theorem ServerFlow.printed (h : ServerFlow stdin s r) :
    ∃ p ≤ r, s.printed = texts stdin p ∧ Unstopped stdin p := by
  cases hpc : s.server with
  | receive =>
    exact ⟨r, Nat.le_refl r, (h.place_at hpc)⟩
  | terminate bytesRead =>
    obtain ⟨-, k, rfl, -, hprinted⟩ := h.place_at hpc
    exact ⟨k, Nat.le_succ k, hprinted⟩
  | test =>
    obtain ⟨k, rfl, -, hprinted⟩ := h.place_at hpc
    exact ⟨k, Nat.le_succ k, hprinted⟩
  | left =>
    obtain ⟨k, rfl, -, hprinted⟩ := h.place_at hpc
    exact ⟨k, Nat.le_succ k, hprinted⟩

/-- All chunks of the rounds so far have been read. -/
theorem ClientFlow.chunks_read (h : ClientFlow stdin s n) : chunks stdin n <+: s.read := by
  cases hpc : s.client with
  | read =>
    exact (h.place_at hpc).2.1 ▸ List.prefix_rfl
  | send =>
    rw [(h.place_at hpc).2.1]
    exact chunks_mono (Nat.le_succ n)
  | test =>
    obtain ⟨k, -, -, hread, -⟩ := h.place_at hpc
    exact hread ▸ List.prefix_rfl
  | left =>
    obtain ⟨k, -, hread, -⟩ := h.place_at hpc
    exact hread ▸ List.prefix_rfl

/-- With text up to the stop word, the chunks are printed in order. -/
theorem Flow.inOrder (h : Flow stdin s n r) (htext : TextUntilStop stdin) : InOrder s := by
  obtain ⟨p, hp, hprinted, hun⟩ := h.server.printed
  -- printed, received, sent, read: each is behind the next
  have hprefix : chunks stdin p <+: s.read :=
    (chunks_mono (Nat.le_trans hp h.received_le)).trans h.client.chunks_read
  have hgo : ∀ c ∈ chunks stdin p, (!stops c) = true := by
    intro c hc
    rw [chunks, List.mem_filter, List.mem_map] at hc
    obtain ⟨⟨j, hj, rfl⟩, -⟩ := hc
    rw [hun j (List.mem_range.mp hj)]
    rfl
  obtain ⟨rest, hrest⟩ := hprefix
  rw [InOrder, hprinted, htext.texts_eq hun, ← hrest, List.takeWhile_append_of_pos hgo]
  exact List.prefix_append _ _

/-- Only a round that reads text prints what it has read. -/
theorem text_of_printed {l : List (List UInt8)} (htexts : texts stdin (n + 1) <+: l)
    (hchunks : l <+: chunks stdin (n + 1)) : chunk stdin n ≠ [] ∧ 0 ∉ chunk stdin n := by
  have htexts_length : (texts stdin (n + 1)).length = n + 1 := by
    rw [texts, List.length_map, List.length_range]
  have hrange : ((List.range (n + 1)).map (chunk stdin)).length = n + 1 := by
    rw [List.length_map, List.length_range]
  have hchunks_le : (chunks stdin (n + 1)).length ≤ n + 1 := by
    rw [chunks]
    exact Nat.le_trans (List.length_filter_le _ _) (Nat.le_of_eq hrange)
  have hle := htexts.length_le
  have hle' := hchunks.length_le
  -- so many texts need as many chunks
  have hall : ∀ c ∈ (List.range (n + 1)).map (chunk stdin), decide (c ≠ []) = true := by
    rw [← List.length_filter_eq_length_iff, hrange]
    exact Nat.le_antisymm hchunks_le (by rw [← chunks]; omega)
  have heq : (List.range (n + 1)).map (fun k => (chunk stdin k).takeWhile (· != 0)) =
      (List.range (n + 1)).map (chunk stdin) := by
    rw [← List.filter_eq_self.mpr hall]
    have hl : texts stdin (n + 1) = l := htexts.eq_of_length_le (by omega)
    exact hl.trans (hchunks.eq_of_length_le (by omega))
  have hmem : n ∈ List.range (n + 1) := List.mem_range.mpr (Nat.lt_succ_self n)
  constructor
  · exact of_decide_eq_true (hall _ (List.mem_map_of_mem hmem))
  · have hself := List.map_inj_left.mp heq n hmem
    rw [List.takeWhile_eq_self_iff] at hself
    intro hzero
    exact absurd (hself 0 hzero) (by decide)

/-! ## Rounds -/

/-- The client reads and sends, the server receives and prints. -/
def round : List Event := [.client, .client, .client, .server, .server, .server]

/-- One round of both sends, receives and prints one chunk that does not stop. -/
theorem Flow.round (h : Flow stdin s r r) (hclient : s.client = .read)
    (hserver : s.server = .receive) (hgo : stops (chunk stdin r) = false) :
    ∃ s', round.foldlM (PosixMessageQueues.step stdin) s = some s' ∧
      Flow stdin s' (r + 1) (r + 1) ∧ s'.client = .read ∧ s'.server = .receive := by
  have hun : Unstopped stdin (r + 1) := Unstopped.succ (h.client.place_at hclient).2.2 hgo
  have hempty : s.queue.items = [] := by
    have hqueue := h.queue
    rw [h.client.sent, h.server.received] at hqueue
    exact List.self_eq_append_right.mp hqueue
  -- the client
  obtain ⟨s₁, h₁, hpc₁, hclient₁, hkeep₁, hqueue₁⟩ := h.client.read hclient
  have hroom : s₁.queue.length < 10 := by
    rw [hqueue₁, BoundedQueue.length, hempty]
    decide
  obtain ⟨s₂, h₂, hpc₂, hclient₂, hkeep₂, hqueue₂, -⟩ := hclient₁.send hpc₁ hroom
  obtain ⟨s₃, h₃, hclient₃, hkeep₃, hqueue₃, -, hpc₃⟩ := hclient₂.test hpc₂
  have hserver₃ := ((h.server.keep hkeep₁).keep hkeep₂).keep hkeep₃
  have hreceive : s₃.server = .receive := by
    rw [hkeep₃.server, hkeep₂.server, hkeep₁.server, hserver]
  have hitems : s₃.queue.items = [padded (chunk stdin r)] := by
    rw [hqueue₃, hqueue₂, hqueue₁, hempty, List.nil_append]
  -- the server
  obtain ⟨s₄, h₄, hpc₄, hserver₄, hkeep₄, hqueue₄, -⟩ := hserver₃.receive hreceive hitems
  obtain ⟨s₅, h₅, hpc₅, hserver₅, hkeep₅, hqueue₅, -⟩ := hserver₄.terminate hpc₄
  obtain ⟨s₆, h₆, hserver₆, hkeep₆, hqueue₆, -, hpc₆⟩ := hserver₅.test hpc₅
  have hclient₆ := ((hclient₃.keep hkeep₄).keep hkeep₅).keep hkeep₆
  refine ⟨s₆, ?_, ⟨hclient₆, hserver₆, ?_⟩, ?_, hpc₆ hun⟩
  · exact Runs.run_cons.mpr ⟨s₁, h₁, Runs.run_cons.mpr ⟨s₂, h₂, Runs.run_cons.mpr ⟨s₃, h₃,
      Runs.run_cons.mpr ⟨s₄, h₄, Runs.run_cons.mpr ⟨s₅, h₅, Runs.run_cons.mpr ⟨s₆, h₆, rfl⟩⟩⟩⟩⟩⟩
  · rw [hclient₆.sent, hserver₆.received, hqueue₆, hqueue₅, hqueue₄, List.append_nil]
  · rw [hkeep₆.client, hkeep₅.client, hkeep₄.client, hpc₃ hun]

/-- As many rounds as there are chunks without the stop word. -/
theorem exists_rounds (clientBuffer : Fin maxSize → UInt8)
    (serverBuffer : Fin (maxSize + 1) → UInt8) (hun : Unstopped stdin n) :
    ∃ (schedule : List Event) (s : State), schedule.foldlM (PosixMessageQueues.step stdin)
        (State.start clientBuffer serverBuffer) = some s ∧
      Flow stdin s n n ∧ s.client = .read ∧ s.server = .receive := by
  induction n with
  | zero => exact ⟨[], _, rfl, flow_start clientBuffer serverBuffer, rfl, rfl⟩
  | succ n ih =>
    obtain ⟨schedule, s, hrun, hflow, hclient, hserver⟩ := ih fun j hj =>
      hun j (by omega)
    obtain ⟨s', hround, hflow', hpcs⟩ := hflow.round hclient hserver (hun n (Nat.lt_succ_self n))
    refine ⟨schedule ++ round, s', ?_, hflow', hpcs⟩
    rw [List.foldlM_append, hrun]
    exact hround

/-- If all schedules print in order, there is text up to the stop word. -/
theorem textUntilStop_of_inOrder (clientBuffer : Fin maxSize → UInt8)
    (serverBuffer : Fin (maxSize + 1) → UInt8)
    (h : ∀ (schedule : List Event) (s : State), schedule.foldlM (PosixMessageQueues.step stdin)
      (State.start clientBuffer serverBuffer) = some s → InOrder s) : TextUntilStop stdin := by
  intro k hun
  by_cases hstop : stops (chunk stdin k) = true
  · refine ⟨ne_nil_of_stops hstop, fun hgo => ?_⟩
    rw [hstop] at hgo
    cases hgo
  · have hun' : Unstopped stdin (k + 1) := Unstopped.succ hun (Bool.eq_false_iff.mpr hstop)
    obtain ⟨schedule, s, hrun, hflow, hclient, hserver⟩ :=
      exists_rounds clientBuffer serverBuffer hun'
    have hinOrder := h schedule s hrun
    -- after the last round both have no more than `k + 1` chunks to show
    rw [InOrder, (hflow.server.place_at hserver).1, (hflow.client.place_at hclient).2.1] at hinOrder
    obtain ⟨hne, htext⟩ := text_of_printed hinOrder (List.takeWhile_prefix _)
    exact ⟨hne, fun _ => htext⟩

/-- In every schedule client and server stop at the same message, and all schedules print
    the chunks in order exactly if the input is text up to the stop word. -/
theorem printed_in_order_iff (stdin : Input) (clientBuffer : Fin maxSize → UInt8)
    (serverBuffer : Fin (maxSize + 1) → UInt8) :
    (∀ schedule, Runs.Always (PosixMessageQueues.step stdin) (fun s => InOrder s ∧ StopAgreed s)
      (State.start clientBuffer serverBuffer) schedule) ↔ TextUntilStop stdin := by
  constructor
  · intro h
    apply textUntilStop_of_inOrder clientBuffer serverBuffer
    exact fun schedule s hrun => ((h schedule).final hrun).1
  · intro htext schedule
    exact flow_run (fun _ _ _ h => ⟨h.inOrder htext, h.stopAgreed⟩) clientBuffer serverBuffer
      schedule

/-- Behind the line "hi" the input ends, and the server prints an empty chunk that the
    client has not read. -/
theorem end_of_input_printed :
    ¬ ∀ schedule, Runs.Always (PosixMessageQueues.step fun i => [104, 105, 10][i]?)
      (fun s => InOrder s ∧ StopAgreed s) (State.start (fun _ => 0) fun _ => 0) schedule := by
  intro hordered
  have htext := textUntilStop_of_inOrder (fun _ => 0) (fun _ => 0)
    fun schedule s hrun => ((hordered schedule).final hrun).1
  have hun : ∀ j < 1, stops (chunk (fun i => [104, 105, 10][i]?) j) = false := by
    intro j hj
    obtain rfl : j = 0 := by omega
    rfl
  exact (htext 1 hun).1 rfl

end PosixMessageQueues
