import CSnippets.ForStd.Runs
import CSnippets.Native.TcpClient
import CSnippets.Spec.EchoServerCorrect

/-!
# Does the client print what it sent?

The two streams carry no marks between messages. What the client has printed, what
is on its way to it and what is on its way to the server are together the greeting
and all tokens in order; a reply is the token just sent exactly when `recv` cuts the
stream behind that token, and with `multi_server.c` the greeting lies before it.
-/

namespace EchoServer

variable {peer : Peer} {s s' : State}

/-- White space, at which `scanf("%s")` stops. -/
def isSpace (b : UInt8) : Bool := b == 32 || (9 ≤ b && b ≤ 13)

/-- A token that fits into `client_message` with its terminator. -/
structure IsToken (token : List UInt8) : Prop where
  ne_nil : token ≠ []
  length : token.length + 1 < bufferLength
  nul : 0 ∉ token
  space : ∀ b ∈ token, isSpace b = false

/-- What can happen: a token is typed when the client asks for one, and `recv` returns
    some of the bytes that are there. -/
def CanHappen (s : State) : Event → Prop
  | .type token => s.waiting = false ∧ IsToken token
  | .greet => s.greeting ≠ []
  | .serve n => s.greeting = [] ∧ 0 < n ∧ n ≤ bufferLength ∧ n ≤ s.toServer.length
  | .reply n => s.waiting = true ∧ 0 < n ∧ n ≤ bufferLength ∧ n ≤ s.toClient.length

/-- The `k`-th reply is the `k`-th token. -/
def Echoed (s : State) : Prop := s.replies <+: s.sent

/-- The connection is made and nothing has happened on it. -/
structure Start (peer : Peer) (s : State) : Prop where
  clientMessage : s.clientMessage.length + 1 = bufferLength
  serverMessage : s.serverMessage.length = bufferLength
  message : s.message.length = bufferLength
  waiting : s.waiting = false
  sent : s.sent = []
  replies : s.replies = []
  toServer : s.toServer = []
  toClient : s.toClient = []
  greeting : s.greeting = peer.greeting

/-- The two buffers that nobody initialises are zero. -/
structure Zeroed (s : State) : Prop where
  serverMessage : s.serverMessage = List.replicate bufferLength 0
  message : s.message = List.replicate bufferLength 0

/-- The byte behind what a `recv` stores is a NUL already; the client's `recv` returns
    as many bytes as the token has that it has just sent, and the tokens sent to
    `multi_server.c` are together a part of the greeting. -/
def Whole (peer : Peer) (s : State) : Event → Prop
  | .type _ => True
  | .greet => True
  | .serve n => s.message[n]? = some 0
  | .reply n => s.serverMessage[n]? = some 0 ∧
      (∃ token, s.sent.getLast? = some token ∧ n = token.length) ∧
      (peer = .multiServer → s.sent.flatten <+: EchoServer.greeting)

/-! ## The streams -/

/-- The buffers keep their sizes, the streams hold what has been sent and not yet been
    printed, and while the client waits they are not empty. -/
structure Streams (peer : Peer) (s : State) : Prop where
  clientMessage : s.clientMessage.length + 1 = bufferLength
  serverMessage : s.serverMessage.length = bufferLength
  message : s.message.length = bufferLength
  tokens : ∀ token ∈ s.sent, IsToken token
  stream : s.replies.flatten ++ (s.toClient ++ (s.greeting ++ s.toServer)) =
    peer.greeting ++ s.sent.flatten
  waiting : s.waiting = true → s.toClient ++ (s.greeting ++ s.toServer) ≠ []

/-- Moreover the replies are the tokens sent, but for one that the client waits for. -/
structure Flow (peer : Peer) (s : State) : Prop extends Streams peer s where
  echoed : s.replies <+: s.sent
  count : s.sent.length = s.replies.length + if s.waiting then 1 else 0
  greeted : peer = .multiServer → s.replies.flatten <+: EchoServer.greeting

/-- Nothing has been sent yet. -/
theorem Start.streams (h : Start peer s) : Streams peer s where
  clientMessage := h.clientMessage
  serverMessage := h.serverMessage
  message := h.message
  tokens := by simp [h.sent]
  stream := by simp [h.sent, h.replies, h.toServer, h.toClient, h.greeting]
  waiting := by simp [h.waiting]

/-- Nor has anything been printed. -/
theorem Start.flow (h : Start peer s) : Flow peer s where
  toStreams := h.streams
  echoed := by simp [h.sent, h.replies]
  count := by simp [h.sent, h.replies, h.waiting]
  greeted := by simp [h.replies]

/-- There is no NUL in what either server writes first. -/
theorem greeting_nul (peer : Peer) : 0 ∉ peer.greeting := by
  cases peer with
  | server => exact List.not_mem_nil
  | multiServer =>
    show 0 ∉ EchoServer.greeting
    decide

/-- No NUL is on its way. -/
theorem Streams.nul (h : Streams peer s) : 0 ∉ s.toClient ∧ 0 ∉ s.toServer := by
  have hall : 0 ∉ peer.greeting ++ s.sent.flatten := by
    rw [List.mem_append, List.mem_flatten]
    rintro (hg | ⟨token, htoken, h0⟩)
    · exact greeting_nul peer hg
    · exact (h.tokens token htoken).nul h0
  rw [← h.stream] at hall
  simp only [List.mem_append, not_or] at hall
  exact ⟨hall.2.1, hall.2.2.2⟩

/-- While the client waits, the last token is the only one without a reply. -/
theorem Flow.waiting_sent (h : Flow peer s) (hw : s.waiting = true) :
    ∃ token, s.sent = s.replies ++ [token] := by
  obtain ⟨rest, hrest⟩ := h.echoed
  have hcount := h.count
  rw [← hrest, hw, if_pos rfl, List.length_append] at hcount
  obtain ⟨token, rfl⟩ := List.length_eq_one_iff.mp (by omega : rest.length = 1)
  exact ⟨token, hrest.symm⟩

/-- What is on its way while the client waits for `token`. -/
theorem Flow.waiting_stream (h : Flow peer s) {token : List UInt8}
    (hsent : s.sent = s.replies ++ [token]) :
    s.replies.flatten ++ (s.toClient ++ (s.greeting ++ s.toServer)) =
      peer.greeting ++ (s.replies.flatten ++ token) := by
  rw [h.stream, hsent, List.flatten_append, List.flatten_singleton]

/-- A front of the stream that is no longer than what has arrived has arrived. -/
private theorem take_eq_of_append {token front rest behind : List UInt8}
    (h : front ++ rest = token ++ behind) (hlength : token.length ≤ front.length) :
    front.take token.length = token := by
  have htake := congrArg (List.take token.length) h
  rwa [List.take_append_of_le_length hlength, List.take_left] at htake

/-- White space in the greeting is never part of a run of tokens. -/
private theorem greeting_space {front : List UInt8} (hfront : front <+: EchoServer.greeting)
    (hspace : ∀ b ∈ front, isSpace b = false) :
    ∃ b rest, EchoServer.greeting = front ++ rest ∧ b ∈ rest ∧ isSpace b = true := by
  obtain ⟨rest, hrest⟩ := hfront
  have hmem : (32 : UInt8) ∈ EchoServer.greeting := by decide
  rw [← hrest, List.mem_append] at hmem
  refine ⟨32, rest, hrest.symm, ?_, by decide⟩
  rcases hmem with hf | hr
  · exact absurd (hspace 32 hf) (by decide)
  · exact hr

/-- Tokens in a row contain no blank. -/
private theorem flatten_space {tokens : List (List UInt8)} (h : ∀ token ∈ tokens, IsToken token) :
    ∀ b ∈ tokens.flatten, isSpace b = false := by
  intro b hb
  obtain ⟨token, htoken, hmem⟩ := List.mem_flatten.mp hb
  exact (h token htoken).space b hmem

/-- The bytes that a `recv` of the client returns are the token it waits for exactly
    when there are as many, and no part of the greeting is in the way. -/
theorem Flow.take_eq_iff (h : Flow peer s) {token : List UInt8} {n : Nat}
    (hsent : s.sent = s.replies ++ [token]) (hn : n ≤ s.toClient.length) :
    s.toClient.take n = token ↔
      n = token.length ∧ (peer = .multiServer → s.sent.flatten <+: EchoServer.greeting) := by
  have hstream := h.waiting_stream hsent
  have hflatten : s.sent.flatten = s.replies.flatten ++ token := by
    rw [hsent, List.flatten_append, List.flatten_singleton]
  constructor
  · intro htake
    have hlength : n = token.length := by
      rw [← htake, List.length_take]
      omega
    refine ⟨hlength, fun hpeer => ?_⟩
    -- the greeting goes on behind the replies, and has white space there
    have htokens : ∀ b ∈ s.replies.flatten, isSpace b = false := by
      apply flatten_space
      intro reply hreply
      exact h.tokens reply (hsent ▸ List.mem_append_left _ hreply)
    obtain ⟨b, rest, hrest, hb, hspace⟩ := greeting_space (h.greeted hpeer) htokens
    have hgreeting : peer.greeting = s.replies.flatten ++ rest := by
      rw [hpeer]
      exact hrest
    rw [hgreeting, List.append_assoc, List.append_right_inj] at hstream
    have hsplit : s.toClient.take n ++ (s.toClient.drop n ++ (s.greeting ++ s.toServer)) =
        rest ++ (s.replies.flatten ++ token) := by
      rw [← List.append_assoc, List.take_append_drop, hstream]
    rw [htake] at hsplit
    rw [hflatten, hrest, List.prefix_append_right_inj]
    obtain ⟨behind, hbehind, -⟩ | ⟨behind, hbehind, -⟩ := List.append_eq_append_iff.mp hsplit
    · exact ⟨behind, hbehind.symm⟩
    · -- a token over the end of the greeting would have its white space
      have hmem : b ∈ token := hbehind ▸ List.mem_append_left _ hb
      have htoken : token ∈ s.sent := by
        rw [hsent]
        simp
      rw [(h.tokens token htoken).space b hmem] at hspace
      cases hspace
  · rintro ⟨rfl, hpeer⟩
    cases peer with
    | server =>
      -- nothing else was ever sent
      have hfront : s.toClient ++ (s.greeting ++ s.toServer) = token ++ [] := by
        have hreplies : s.replies.flatten ++ (s.toClient ++ (s.greeting ++ s.toServer)) =
            s.replies.flatten ++ token := hstream
        rw [List.append_nil]
        exact List.append_cancel_left hreplies
      exact take_eq_of_append hfront hn
    | multiServer =>
      obtain ⟨behind, hbehind⟩ := hpeer rfl
      have hgreeting : Peer.greeting .multiServer = s.replies.flatten ++ (token ++ behind) := by
        rw [← List.append_assoc, ← hflatten, hbehind]
        rfl
      rw [hgreeting, List.append_assoc, List.append_right_inj, List.append_assoc] at hstream
      exact take_eq_of_append hstream hn

/-! ## Steps -/

/-- The token is in the buffer and on its way. -/
def State.typed (s : State) (token : List UInt8) : State :=
  { s with
    clientMessage := CMemory.splice s.clientMessage 0 (token ++ [0]), waiting := true,
    sent := s.sent ++ [token], toServer := s.toServer ++ token }

/-- The greeting is on its way. -/
def State.greeted (s : State) : State :=
  { s with toClient := s.toClient ++ s.greeting, greeting := [] }

/-- The server has passed `n` bytes on. -/
def State.served (s : State) (n : Nat) : State :=
  { s with
    message := CMemory.clear s.message n, toServer := s.toServer.drop n,
    toClient := s.toClient ++ s.toServer.take n }

/-- The client has printed `n` bytes. -/
def State.replied (s : State) (n : Nat) : State :=
  { s with
    serverMessage := CMemory.clear s.serverMessage n, waiting := false,
    replies := s.replies ++ [s.toClient.take n], toClient := s.toClient.drop n }

/-- The client sends exactly the token typed. -/
theorem type_eq {token : List UInt8} (hbuf : s.clientMessage.length + 1 = bufferLength)
    (hw : s.waiting = false) (ht : IsToken token) : type s token = some (s.typed token) := by
  have hfit : token.length + 1 ≤ s.clientMessage.length := by
    have := ht.length
    omega
  have hwhole : (token ++ [0]).take (token.length + 1) = token ++ [0] :=
    List.take_of_length_le (by simp)
  have htext : CMemory.cString (CMemory.splice s.clientMessage 0 (token ++ [0])) = some token := by
    rw [CMemory.splice_zero, List.append_assoc]
    exact CMemory.cString_eq_some.mpr ⟨ht.nul, _, rfl⟩
  have hfront : (CMemory.splice s.clientMessage 0 (token ++ [0])).take token.length = token := by
    rw [CMemory.splice_zero, List.append_assoc, List.take_left]
  rw [type, hw, CMemory.memcpyTo_zero hfit (by simp), hwhole]
  simp only [CMemory.strlen, htext, Option.map_some, Option.bind_eq_bind, Option.bind_some, hfront]
  rfl

/-- The client prints exactly what `recv` returned. -/
theorem reply_eq {n : Nat} (hbuf : n ≤ s.serverMessage.length) (hn : n ≤ s.toClient.length)
    (hw : s.waiting = true) (hnul : 0 ∉ s.toClient) (hnext : s.serverMessage[n]? = some 0) :
    reply s n = some (s.replied n) := by
  have hlength : (s.toClient.take n).length = n := by
    rw [List.length_take]
    omega
  have htext : CMemory.cString (CMemory.splice s.serverMessage 0 (s.toClient.take n)) =
      some (s.toClient.take n) := by
    rw [CMemory.cString_splice fun h0 => hnul (List.mem_of_mem_take h0), hlength]
    exact hnext
  have hclear : CMemory.clear (CMemory.splice s.serverMessage 0 (s.toClient.take n)) n =
      CMemory.clear s.serverMessage n := by
    have := CMemory.clear_splice s.serverMessage (s.toClient.take n)
    rwa [hlength] at this
  rw [reply, hw, CMemory.memcpyTo_zero hbuf hn]
  simp only [htext, if_pos, Option.bind_eq_bind, Option.bind_some, hlength, hclear]
  rfl

/-- Without a NUL behind what `recv` stores, a zeroed buffer is full, and `printf`
    reads on behind it. -/
theorem reply_full {n : Nat} (hz : s.serverMessage = List.replicate bufferLength 0)
    (hbuf : n ≤ bufferLength) (hn : n ≤ s.toClient.length) (hw : s.waiting = true)
    (hnul : 0 ∉ s.toClient) (hnext : s.serverMessage[n]? ≠ some 0) : reply s n = none := by
  have hlength : s.serverMessage.length = bufferLength := by rw [hz, List.length_replicate]
  have hfull : n = bufferLength := by
    by_contra hne
    rw [hz, List.getElem?_replicate, if_pos (by omega)] at hnext
    exact hnext rfl
  have hsplice : CMemory.splice s.serverMessage 0 (s.toClient.take n) = s.toClient.take n :=
    CMemory.splice_full (by rw [List.length_take]; omega)
  have htext : CMemory.cString (s.toClient.take n) = none :=
    CMemory.cString_eq_none.mpr fun h0 => hnul (List.mem_of_mem_take h0)
  rw [reply, hw, CMemory.memcpyTo_zero (by omega) hn, hsplice]
  simp [htext]

/-- The server passes on exactly what `recv` returned. -/
theorem serve_eq {n : Nat} (hbuf : n ≤ s.message.length) (hn : n ≤ s.toServer.length)
    (hg : s.greeting = []) (hnul : 0 ∉ s.toServer) (hnext : s.message[n]? = some 0) :
    serve s n = some (s.served n) := by
  have hlength : (s.toServer.take n).length = n := by
    rw [List.length_take]
    omega
  have hchunk : 0 ∉ s.toServer.take n := fun h0 => hnul (List.mem_of_mem_take h0)
  have hecho := echo_text (show (s.toServer.take n).length ≤ s.message.length by omega) hchunk
    (by rw [hlength]; exact hnext)
  rw [serve, if_pos hg, hecho, hlength]
  rfl

/-- Nor does the server find the end of a string that fills its zeroed buffer. -/
theorem serve_full {n : Nat} (hz : s.message = List.replicate bufferLength 0)
    (hn : n ≤ s.toServer.length) (hg : s.greeting = []) (hnul : 0 ∉ s.toServer)
    (hnext : s.message[n]? ≠ some 0) : serve s n = none := by
  have hfull : bufferLength ≤ n := by
    by_contra hlt
    rw [hz, List.getElem?_replicate, if_pos (by omega)] at hnext
    exact hnext rfl
  have hchunk : 0 ∉ s.toServer.take n := fun h0 => hnul (List.mem_of_mem_take h0)
  have hecho := echo_full hchunk (by rw [List.length_take]; omega)
  have hmessage : s.message = zeroed := hz
  rw [serve, if_pos hg, hmessage, hecho]
  rfl

/-- Clearing keeps the length of the buffer. -/
theorem length_clear {bytes : List UInt8} {n : Nat} (h : n ≤ bytes.length) :
    (CMemory.clear bytes n).length = bytes.length :=
  CMemory.length_splice (by rw [List.length_replicate]; omega)

/-- A typed token goes behind all that is on its way. -/
theorem Streams.typed (h : Streams peer s) {token : List UInt8} (ht : IsToken token) :
    Streams peer (s.typed token) where
  clientMessage := by
    have hbuf := h.clientMessage
    have hlen := ht.length
    show (CMemory.splice s.clientMessage 0 (token ++ [0])).length + 1 = bufferLength
    rw [CMemory.length_splice (by rw [List.length_append, List.length_singleton]; omega)]
    exact hbuf
  serverMessage := h.serverMessage
  message := h.message
  tokens token' hmem := by
    rcases List.mem_append.mp hmem with hold | hnew
    · exact h.tokens token' hold
    · rw [List.mem_singleton.mp hnew]
      exact ht
  stream := by
    show s.replies.flatten ++ (s.toClient ++ (s.greeting ++ (s.toServer ++ token))) =
      peer.greeting ++ (s.sent ++ [token]).flatten
    rw [List.flatten_append, List.flatten_singleton, ← List.append_assoc peer.greeting, ← h.stream]
    simp only [List.append_assoc]
  waiting _ := by
    show s.toClient ++ (s.greeting ++ (s.toServer ++ token)) ≠ []
    simp [ht.ne_nil]

/-- The greeting stays where it is between the two streams. -/
theorem Streams.greeted (h : Streams peer s) : Streams peer s.greeted := by
  have hflight : (s.toClient ++ s.greeting) ++ ([] ++ s.toServer) =
      s.toClient ++ (s.greeting ++ s.toServer) := by
    rw [List.nil_append, List.append_assoc]
  exact
    { h with
      stream := (congrArg (s.replies.flatten ++ ·) hflight).trans h.stream
      waiting := fun hw => (congrArg (· ≠ []) hflight).mpr (h.waiting hw) }

/-- What the server passes on goes from one stream into the other. -/
theorem Streams.served (h : Streams peer s) {n : Nat} (hg : s.greeting = [])
    (hbuf : n ≤ bufferLength) : Streams peer (s.served n) := by
  have hmessage : n ≤ s.message.length := by
    rw [h.message]
    exact hbuf
  have hflight : (s.toClient ++ s.toServer.take n) ++ (s.greeting ++ s.toServer.drop n) =
      s.toClient ++ (s.greeting ++ s.toServer) := by
    rw [hg, List.nil_append, List.nil_append, List.append_assoc, List.take_append_drop]
  exact
    { h with
      message := (length_clear hmessage).trans h.message
      stream := (congrArg (s.replies.flatten ++ ·) hflight).trans h.stream
      waiting := fun hw => (congrArg (· ≠ []) hflight).mpr (h.waiting hw) }

/-- What the client prints leaves the stream. -/
theorem Streams.replied (h : Streams peer s) {n : Nat} (hbuf : n ≤ bufferLength) :
    Streams peer (s.replied n) := by
  have hmessage : n ≤ s.serverMessage.length := by
    rw [h.serverMessage]
    exact hbuf
  refine { h with
    serverMessage := (length_clear hmessage).trans h.serverMessage
    stream := ?_
    waiting := nofun }
  show (s.replies ++ [s.toClient.take n]).flatten ++
    (s.toClient.drop n ++ (s.greeting ++ s.toServer)) = peer.greeting ++ s.sent.flatten
  rw [← h.stream, List.flatten_append, List.flatten_singleton, List.append_assoc,
    ← List.append_assoc (s.toClient.take n), List.take_append_drop]

/-- What a server has sent from a zeroed buffer leaves it zeroed. -/
theorem Zeroed.served (h : Zeroed s) {n : Nat} (hbuf : n ≤ bufferLength) : Zeroed (s.served n) where
  serverMessage := h.serverMessage
  message := by
    show CMemory.clear s.message n = _
    rw [h.message]
    exact CMemory.clear_zeros hbuf

/-- And so does what the client has printed. -/
theorem Zeroed.replied (h : Zeroed s) {n : Nat} (hbuf : n ≤ bufferLength) :
    Zeroed (s.replied n) where
  serverMessage := by
    show CMemory.clear s.serverMessage n = _
    rw [h.serverMessage]
    exact CMemory.clear_zeros hbuf
  message := h.message

/-- A typed token is the one that has no reply yet. -/
theorem Flow.typed (h : Flow peer s) {token : List UInt8} (hw : s.waiting = false)
    (ht : IsToken token) : Flow peer (s.typed token) where
  toStreams := h.toStreams.typed ht
  echoed := h.echoed.trans (List.prefix_append _ _)
  count := by
    have hcount := h.count
    rw [hw, if_neg (by simp)] at hcount
    show (s.sent ++ [token]).length = s.replies.length + if true = true then 1 else 0
    rw [List.length_append, List.length_singleton, if_pos rfl]
    omega
  greeted := h.greeted

/-- A reply that the client waits for and gets whole. -/
theorem Flow.replied (h : Flow peer s) {n : Nat} (hw : s.waiting = true) (hbuf : n ≤ bufferLength)
    (hn : n ≤ s.toClient.length) (hwhole : Whole peer s (.reply n)) : Flow peer (s.replied n) := by
  obtain ⟨-, ⟨token, hlast, hlength⟩, hpeer⟩ := hwhole
  obtain ⟨token', hsent⟩ := h.waiting_sent hw
  obtain rfl : token' = token := by
    rw [hsent, List.getLast?_append] at hlast
    exact Option.some.inj hlast
  have htake := (h.take_eq_iff hsent hn).mpr ⟨hlength, hpeer⟩
  -- all tokens are answered now
  have hall : s.replies ++ [s.toClient.take n] = s.sent := by rw [htake, hsent]
  refine ⟨h.toStreams.replied hbuf, ?_, ?_, fun hmulti => ?_⟩
  · show s.replies ++ [s.toClient.take n] <+: s.sent
    exact ⟨[], by rw [List.append_nil, hall]⟩
  · show s.sent.length = (s.replies ++ [s.toClient.take n]).length + if false = true then 1 else 0
    rw [hall, if_neg Bool.false_ne_true, Nat.add_zero]
  · show (s.replies ++ [s.toClient.take n]).flatten <+: EchoServer.greeting
    rw [hall]
    exact hpeer hmulti

/-- A step that can happen and meets the condition is defined and keeps the streams
    in order. -/
theorem Flow.step (h : Flow peer s) {e : Event} (hcan : CanHappen s e) (hwhole : Whole peer s e) :
    ∃ s', EchoServer.step s e = some s' ∧ Flow peer s' ∧ (Zeroed s → Zeroed s') := by
  cases e with
  | type token =>
    exact ⟨_, type_eq h.clientMessage hcan.1 hcan.2, h.typed hcan.1 hcan.2,
      fun hz => ⟨hz.serverMessage, hz.message⟩⟩
  | greet =>
    exact ⟨s.greeted, rfl, { h with toStreams := h.toStreams.greeted },
      fun hz => ⟨hz.serverMessage, hz.message⟩⟩
  | serve n =>
    obtain ⟨hg, -, hbuf, hn⟩ := hcan
    have hmessage : n ≤ s.message.length := by
      rw [h.message]
      exact hbuf
    exact ⟨_, serve_eq hmessage hn hg h.nul.2 hwhole,
      { h with toStreams := h.toStreams.served hg hbuf }, fun hz => hz.served hbuf⟩
  | reply n =>
    obtain ⟨hw, -, hbuf, hn⟩ := hcan
    have hmessage : n ≤ s.serverMessage.length := by
      rw [h.serverMessage]
      exact hbuf
    exact ⟨_, reply_eq hmessage hn hw h.nul.1 hwhole.1, h.replied hw hbuf hn hwhole,
      fun hz => hz.replied hbuf⟩

/-- From zeroed buffers on, a step that is defined and leaves the replies right meets
    the condition. -/
theorem Flow.whole (h : Flow peer s) (hz : Zeroed s) {e : Event} (hcan : CanHappen s e)
    (hstep : EchoServer.step s e = some s') (hechoed : Echoed s') : Whole peer s e := by
  cases e with
  | type token => trivial
  | greet => trivial
  | serve n =>
    obtain ⟨hg, -, -, hn⟩ := hcan
    show s.message[n]? = some 0
    by_contra hnext
    have hnone := serve_full hz.message hn hg h.nul.2 hnext
    cases hnone.symm.trans hstep
  | reply n =>
    obtain ⟨hw, -, hbuf, hn⟩ := hcan
    have hmessage : n ≤ s.serverMessage.length := by
      rw [h.serverMessage]
      exact hbuf
    by_cases hnext : s.serverMessage[n]? = some 0
    · have heq := reply_eq hmessage hn hw h.nul.1 hnext
      obtain rfl := Option.some.inj (heq.symm.trans hstep)
      obtain ⟨token, hsent⟩ := h.waiting_sent hw
      -- the new reply is the token that had none
      have hreply : s.replies ++ [s.toClient.take n] <+: s.replies ++ [token] := by
        rw [← hsent]
        exact hechoed
      rw [List.prefix_append_right_inj] at hreply
      have htake : s.toClient.take n = token := by
        obtain ⟨rest, hrest⟩ := hreply
        exact (List.cons.inj hrest).1
      obtain ⟨hlength, hpeer⟩ := (h.take_eq_iff hsent hn).mp htake
      refine ⟨hnext, ⟨token, ?_, hlength⟩, hpeer⟩
      rw [hsent, List.getLast?_append]
      rfl
    · have hnone := reply_full hz.serverMessage hbuf hn hw h.nul.1 hnext
      cases hnone.symm.trans hstep

/-! ## Whole runs -/

/-- If every `recv` returns a whole token, the replies are the tokens sent. From
    zeroed buffers on, the replies of a run are the tokens sent only then. -/
theorem replies_echoed (hstart : Start peer s) {es : List Event}
    (hcan : Runs.StepsMeet step CanHappen s es) :
    (Runs.StepsMeet step (Whole peer) s es → Runs.Safe step Echoed s es) ∧
    (Zeroed s → (Runs.Safe step Echoed s es ↔ Runs.StepsMeet step (Whole peer) s es)) := by
  constructor
  · intro hwhole
    -- the condition is enough: it keeps the flow, and the flow is echoed
    apply Runs.Safe.of_invariant (J := Flow peer) (C := fun s e => CanHappen s e ∧ Whole peer s e)
      (fun s h => h.echoed) _ hstart.flow (hcan.and hwhole)
    intro s e h hC
    obtain ⟨s', hs', h', -⟩ := h.step hC.1 hC.2
    exact ⟨s', hs', h'⟩
  · intro hz
    -- from zeroed buffers the first step that breaks the condition is seen
    apply Runs.safe_iff_stepsMeet (J := fun s => Flow peer s ∧ Zeroed s) (K := CanHappen) _ _
      ⟨hstart.flow, hz⟩ hstart.flow.echoed hcan
    · intro s e s' hJ hK hC hs'
      obtain ⟨s'', hs'', h'', hz''⟩ := hJ.1.step hK hC
      obtain rfl : s' = s'' := Option.some.inj (hs'.symm.trans hs'')
      exact ⟨h'', hz'' hJ.2⟩
    · intro s e hJ _ hK
      constructor
      · rintro ⟨s', hs', hechoed⟩
        exact hJ.1.whole hJ.2 hK hs' hechoed
      · intro hC
        obtain ⟨s', hs', h', -⟩ := hJ.1.step hK hC
        exact ⟨s', hs', h'.echoed⟩

instance (token : List UInt8) : Decidable (IsToken token) :=
  decidable_of_iff (token ≠ [] ∧ token.length + 1 < bufferLength ∧ 0 ∉ token ∧
      token.all fun b => !isSpace b)
    ⟨fun ⟨h₁, h₂, h₃, h₄⟩ => ⟨h₁, h₂, h₃, by simpa using h₄⟩,
      fun ⟨h₁, h₂, h₃, h₄⟩ => ⟨h₁, h₂, h₃, by simpa using h₄⟩⟩

instance (s : State) : Decidable (Echoed s) := inferInstanceAs (Decidable (s.replies <+: s.sent))

instance (s : State) : ∀ e, Decidable (CanHappen s e)
  | .type token => inferInstanceAs (Decidable (s.waiting = false ∧ IsToken token))
  | .greet => inferInstanceAs (Decidable (s.greeting ≠ []))
  | .serve n => inferInstanceAs (Decidable (s.greeting = [] ∧ 0 < n ∧ n ≤ bufferLength ∧
      n ≤ s.toServer.length))
  | .reply n => inferInstanceAs (Decidable (s.waiting = true ∧ 0 < n ∧ n ≤ bufferLength ∧
      n ≤ s.toClient.length))

instance (s : State) (n : Nat) :
    Decidable (∃ token, s.sent.getLast? = some token ∧ n = token.length) :=
  decidable_of_iff (s.sent.getLast?.any fun token => n = token.length)
    (by cases s.sent.getLast? <;> simp)

instance (peer : Peer) (s : State) : ∀ e, Decidable (Whole peer s e)
  | .type _ => inferInstanceAs (Decidable True)
  | .greet => inferInstanceAs (Decidable True)
  | .serve n => inferInstanceAs (Decidable (s.message[n]? = some 0))
  | .reply n => inferInstanceAs (Decidable (s.serverMessage[n]? = some 0 ∧
      (∃ token, s.sent.getLast? = some token ∧ n = token.length) ∧
      (peer = .multiServer → s.sent.flatten <+: EchoServer.greeting)))

/-- A connection with zeroed buffers. -/
def connected (peer : Peer) : State :=
  { clientMessage := List.replicate (bufferLength - 1) 0, serverMessage := zeroed,
    waiting := false, sent := [], replies := [], toServer := [], toClient := [],
    greeting := peer.greeting, message := zeroed }

/-- The client and its peer start connected, with nothing typed or sent. -/
theorem start_connected (peer : Peer) : Start peer (connected peer) := by
  refine ⟨?_, List.length_replicate, List.length_replicate, rfl, rfl, rfl, rfl, rfl, rfl⟩
  show (List.replicate (bufferLength - 1) (0 : UInt8)).length + 1 = bufferLength
  rw [List.length_replicate]
  rfl

/-- "hi" is echoed in two pieces and received in one. -/
theorem replies_echoed_one :
    Runs.Safe step Echoed (connected .server) [.type [104, 105], .serve 1, .serve 1, .reply 2] :=
  (replies_echoed (start_connected .server) (by decide +kernel)).1 (by decide +kernel)

/-- "hi" is received in two pieces: the first reply is "h". And the first reply of
    `multi_server.c` is its greeting. -/
theorem reply_is_not_token :
    Runs.StepsMeet step CanHappen (connected .server) [.type [104, 105], .serve 2, .reply 1] ∧
    ¬ Runs.Safe step Echoed (connected .server) [.type [104, 105], .serve 2, .reply 1] ∧
    Runs.StepsMeet step CanHappen (connected .multiServer)
      [.greet, .type [104, 105], .reply 35] ∧
    ¬ Runs.Safe step Echoed (connected .multiServer) [.greet, .type [104, 105], .reply 35] := by
  decide +kernel

end EchoServer
