import CSnippets.Spec.AsyncMessageQueueDrained

/-!
# Handler threads of the thread server

No lock keeps two runs of `sigHandler` for one queue apart. What does is a token:
the registration of a queue, a notification of it not yet delivered and a handler
that has not registered again are never more than one together. The handlers of a
queue then act like one receiver that takes the messages one after another into
one buffer, and that receiver is what the callbacks are compared with.
-/

namespace AsyncMQ

variable {s s' : State} {q : QueueId} {mq : Queue} {i : Nat}

/-! ## One step of the thread server -/

/-- What a step of the handler `h` at place `i` can do; `mq` is its queue. -/
inductive ThreadStep (s : State) (i : Nat) (h : Handler) (mq : Queue) : State → Prop where
  | empty (hpc : h.pc = .receive) (hmsgs : mq.messages = []) :
    ThreadStep s i h mq { s with handlers := s.handlers.set i ⟨h.queue, .callback (-1)⟩ }
  | receive (hpc : h.pc = .receive) (m : Message) (ms : List Message)
      (hmsgs : mq.messages = m :: ms) :
    ThreadStep s i h mq
      { s.set h.queue { mq with messages := ms, buffer := CMemory.splice mq.buffer 0 m } with
        handlers := s.handlers.set i ⟨h.queue, .callback m.length⟩ }
  | callback (n : Int) (hpc : h.pc = .callback n) :
    ThreadStep s i h mq
      { s with calls := if 0 < n then s.calls ++ [⟨h.queue, n, mq.buffer⟩] else s.calls,
               handlers := s.handlers.set i ⟨h.queue, .notify⟩ }
  | exit (hpc : h.pc = .notify) (harmed : mq.armed = true) :
    ThreadStep s i h mq { s with exited := true }
  | notify (hpc : h.pc = .notify) (harmed : mq.armed = false) :
    ThreadStep s i h mq
      { s.set h.queue { mq with armed := true } with
        handlers := s.handlers.set i ⟨h.queue, .leave⟩ }
  | leave (hpc : h.pc = .leave) :
    ThreadStep s i h mq { s with handlers := s.handlers.eraseIdx i }

/-- Where each notification has a thread, a step of the handler is one of a thread's. -/
theorem sigHandler_thread (hstep : sigHandler .thread s i = some s') :
    ∃ h mq, s.handlers[i]? = some h ∧ s.queues h.queue = some mq ∧ ThreadStep s i h mq s' := by
  unfold sigHandler at hstep
  split at hstep
  · cases hstep
  · rename_i h hi
    split at hstep
    · cases hstep
    · rename_i mq hmq
      refine ⟨h, mq, hi, hmq, ?_⟩
      cases hpc : h.pc with
      | receive =>
        rw [hpc] at hstep
        cases hmsgs : mq.messages with
        | nil =>
          -- `mq_receive` fails on an empty queue
          simp only [mqReceive, hmsgs, Option.some.injEq] at hstep
          subst hstep
          exact .empty hpc hmsgs
        | cons m ms =>
          -- or it takes the first message into the buffer
          simp only [mqReceive, hmsgs, Option.some.injEq] at hstep
          subst hstep
          exact .receive hpc m ms hmsgs
      | callback n =>
        rw [hpc] at hstep
        simp only [true_and, Option.some.injEq] at hstep
        subst hstep
        exact .callback n hpc
      | notify =>
        rw [hpc] at hstep
        cases harmed : mq.armed with
        | true =>
          -- the queue has its registration still: `mq_notify` fails
          simp only [mqNotify, harmed, if_true, Option.some.injEq] at hstep
          subst hstep
          exact .exit hpc harmed
        | false =>
          simp only [mqNotify, harmed, Bool.false_eq_true, if_false, Option.some.injEq] at hstep
          subst hstep
          exact .notify hpc harmed
      | leave =>
        rw [hpc] at hstep
        cases hstep
        exact .leave hpc

/-- A send leaves everything alone, or appends the message to the queue and perhaps
    uses the registration up for a notification. -/
theorem messageQueuePut_thread {m : Message} (hstep : messageQueuePut .thread s q m = some s') :
    (s' = s ∧ (s.queues q = none ∨ maxSize < m.length)) ∨
      ∃ mq armed pending, s.queues q = some mq ∧ m.length ≤ maxSize ∧
        s' = { s.set q { mq with messages := mq.messages ++ [m], armed := armed } with
                pending := pending } := by
  unfold messageQueuePut at hstep
  split at hstep
  · rename_i hq
    cases hstep
    exact Or.inl ⟨rfl, Or.inl hq⟩
  · rename_i mq hq
    split at hstep
    · -- `mq_send` refuses the message
      rename_i hlong
      cases hstep
      exact Or.inl ⟨rfl, Or.inr hlong⟩
    · rename_i hshort
      have hm : m.length ≤ maxSize := by omega
      split at hstep
      · split at hstep
        · -- the first message in an empty queue uses up the registration
          rename_i hfirst
          cases hstep
          refine Or.inr ⟨mq, false, notified .thread s.pending q, hq, hm, ?_⟩
          rw [hfirst.2]
          rfl
        · cases hstep
          exact Or.inr ⟨mq, mq.armed, s.pending, hq, hm, rfl⟩
      · cases hstep

/-! ## A sequential receiver -/

/-- The messages that a run sends to the queue; `mq_send` refuses longer ones. -/
def sentTo (q : QueueId) (es : List Event) : List Message :=
  es.filterMap fun
    | .send q' m => if q' = q ∧ m.length ≤ maxSize then some m else none
    | .deliver _ => none
    | .handle _ => none

/-- The buffer after the messages have been received into it. -/
def received (b : List UInt8) (ms : List Message) : List UInt8 :=
  ms.foldl (fun b m => CMemory.splice b 0 m) b

/-- The calls of a receiver that takes the messages one after another. -/
def deliveries (q : QueueId) (b : List UInt8) : List Message → List CallbackCall
  | [] => []
  | m :: ms =>
    let b' := CMemory.splice b 0 m
    if m = [] then deliveries q b' ms else ⟨q, m.length, b'⟩ :: deliveries q b' ms

/-- The bytes that a call says it passes. -/
def CallbackCall.message (c : CallbackCall) : Message := c.buffer.take c.bytesRead.toNat

/-- Each message is written over what the buffer held. -/
theorem received_append (b : List UInt8) (ms : List Message) (m : Message) :
    received b (ms ++ [m]) = CMemory.splice (received b ms) 0 m := by
  rw [received, List.foldl_append]
  rfl

/-- A message that is not empty causes one call of the callback, an empty one none. -/
theorem deliveries_append (q : QueueId) (b : List UInt8) (ms : List Message) (m : Message) :
    deliveries q b (ms ++ [m]) = deliveries q b ms ++
      if m = [] then [] else [⟨q, m.length, CMemory.splice (received b ms) 0 m⟩] := by
  induction ms generalizing b with
  | nil =>
    by_cases hm : m = []
    · simp [deliveries, hm]
    · simp [deliveries, received, hm]
  | cons m' ms ih =>
    have hbuffer : received b (m' :: ms) = received (CMemory.splice b 0 m') ms := rfl
    by_cases hm' : m' = []
    · simp only [List.cons_append, deliveries, if_pos hm', ih, hbuffer]
    · simp only [List.cons_append, deliveries, if_neg hm', ih, hbuffer]

/-- A receiver passes on exactly the non-empty messages, each with its length. -/
theorem deliveries_message (q : QueueId) {b : List UInt8} {ms : List Message}
    (hfit : ∀ m ∈ ms, m.length ≤ b.length) :
    (deliveries q b ms).map CallbackCall.message = ms.filter (· ≠ []) := by
  induction ms generalizing b with
  | nil => rfl
  | cons m ms ih =>
    obtain ⟨hm, hms⟩ := List.forall_mem_cons.mp hfit
    -- the block keeps its length when a message is copied into it
    have hlength : (CMemory.splice b 0 m).length = b.length :=
      CMemory.length_splice (by omega)
    have hrest := ih (b := CMemory.splice b 0 m) (fun m' hm' => by rw [hlength]; exact hms m' hm')
    -- the source calls the callback only for a message that is not empty
    by_cases hnil : m = []
    · simp only [deliveries, if_pos hnil, hrest]
      simp [hnil]
    · simp only [deliveries, if_neg hnil, List.map_cons, hrest]
      have hmessage : CallbackCall.message ⟨q, m.length, CMemory.splice b 0 m⟩ = m := by
        simp [CallbackCall.message, CMemory.splice_zero]
      rw [hmessage]
      simp [hnil]

/-! ## The handlers of a queue as one receiver -/

/-- The calls made for the queue. -/
def callsOf (q : QueueId) (s : State) : List CallbackCall := s.calls.filter (·.queue == q)

/-- The call that a handler of the queue is about to make. -/
def Handler.inHand (q : QueueId) (b : List UInt8) (h : Handler) : List CallbackCall :=
  match h.pc with
  | .receive => []
  | .callback n => if h.queue = q ∧ 0 < n then [⟨q, n, b⟩] else []
  | .notify => []
  | .leave => []

/-- The handlers of the queue together have received the messages `ms` into a
    buffer that began as `b`, out of the messages `sent`. -/
structure Serves (q : QueueId) (b : List UInt8) (sent ms : List Message) (s : State)
    (mq : Queue) : Prop where
  surplus : ∃ k, OneShot.Surplus k (view s q mq)
  sent : sent = ms ++ mq.messages
  buffer : mq.buffer = received b ms
  calls : callsOf q s ++ s.handlers.flatMap (Handler.inHand q mq.buffer) = deliveries q b ms

/-- A handler of another queue has no message of this one. -/
theorem Handler.inHand_of_ne {h : Handler} (hne : h.queue ≠ q) (b : List UInt8) :
    h.inHand q b = [] := by
  unfold Handler.inHand
  split
  · rfl
  · rw [if_neg fun hq => hne hq.1]
  · rfl
  · rfl

/-- A handler that counts for nothing has no call to make. -/
theorem Handler.inHand_of_not_rearms {h : Handler} (hnot : ¬ h.rearms q) (b : List UInt8) :
    h.inHand q b = [] := by
  by_cases hq : h.queue = q
  · have hpc : h.pc = .leave := by simpa [Handler.rearms, hq] using hnot
    rw [Handler.inHand, hpc]
  · exact inHand_of_ne hq b

/-- The handlers before and behind the one that takes a step. -/
private theorem handlers_split {hs : List Handler} {h : Handler} (hi : hs[i]? = some h) :
    ∃ front back, hs = front ++ h :: back ∧ hs.eraseIdx i = front ++ back ∧
      ∀ h', hs.set i h' = front ++ h' :: back := by
  obtain ⟨hlt, rfl⟩ := List.getElem?_eq_some_iff.mp hi
  refine ⟨hs.take i, hs.drop (i + 1), ?_, List.eraseIdx_eq_take_drop_succ .., fun h' => ?_⟩
  · rw [← List.drop_eq_getElem_cons hlt, List.take_append_drop]
  · rw [List.set_eq_take_append_cons_drop, if_pos hlt]

/-- Handlers of which none is to register have no call to make. -/
private theorem flatMap_inHand_nil (b : List UInt8) (hs : List Handler)
    (h : hs.countP (Handler.rearms q) = 0) : hs.flatMap (Handler.inHand q b) = [] := by
  rw [List.flatMap_eq_nil_iff]
  rw [List.countP_eq_zero] at h
  exact fun x hx => Handler.inHand_of_not_rearms (h x hx) b

/-- When a handler that is to register takes a step, the others have no call to
    make: the calls in hand are those of this handler, before and after. -/
private theorem inHand_alone {hs : List Handler} {h : Handler} (hi : hs[i]? = some h)
    (hone : hs.countP (Handler.rearms q) ≤ 1) (hre : h.rearms q = true) (h' : Handler)
    (b : List UInt8) :
    hs.flatMap (Handler.inHand q b) = h.inHand q b ∧
      (hs.set i h').flatMap (Handler.inHand q b) = h'.inHand q b := by
  obtain ⟨front, back, rfl, -, hset⟩ := handlers_split hi
  rw [List.countP_append, List.countP_cons, if_pos hre] at hone
  have hfront := flatMap_inHand_nil (q := q) b front (by omega)
  have hback := flatMap_inHand_nil (q := q) b back (by omega)
  rw [hset h', List.flatMap_append, List.flatMap_cons, List.flatMap_append, List.flatMap_cons,
    hfront, hback]
  simp

/-- A handler that goes on without a change in its call changes none in hand. -/
private theorem inHand_set {hs : List Handler} {h h' : Handler} (hi : hs[i]? = some h)
    {b : List UInt8} (hsame : h'.inHand q b = h.inHand q b) :
    (hs.set i h').flatMap (Handler.inHand q b) = hs.flatMap (Handler.inHand q b) := by
  obtain ⟨front, back, rfl, -, hset⟩ := handlers_split hi
  rw [hset h', List.flatMap_append, List.flatMap_cons, List.flatMap_append, List.flatMap_cons,
    hsame]

/-- When a handler with nothing in hand returns, the others still have what they had. -/
private theorem inHand_eraseIdx {hs : List Handler} {h : Handler} (hi : hs[i]? = some h)
    {b : List UInt8} (hnil : h.inHand q b = []) :
    (hs.eraseIdx i).flatMap (Handler.inHand q b) = hs.flatMap (Handler.inHand q b) := by
  obtain ⟨front, back, rfl, herase, -⟩ := handlers_split hi
  rw [herase, List.flatMap_append, List.flatMap_append, List.flatMap_cons, hnil, List.nil_append]

/-- At most one handler is still to register the queue. -/
theorem Serves.one_rearms {b : List UInt8} {sent ms : List Message}
    (h : Serves q b sent ms s mq) : s.handlers.countP (Handler.rearms q) ≤ 1 := by
  obtain ⟨k, hk⟩ := h.surplus
  have hone : s.pending.count q + s.handlers.countP (Handler.rearms q) ≤ 1 := hk.unarmed
  omega

/-- The calls for a queue are read off the log of all calls. -/
theorem callsOf_eq {calls : List CallbackCall} (h : s'.calls = calls) :
    callsOf q s' = calls.filter (·.queue == q) := by rw [callsOf, h]

/-- What is sent to a queue is sent by the first event and by the others. -/
private theorem sentTo_cons (q : QueueId) (e : Event) (es : List Event) :
    sentTo q (e :: es) = sentTo q [e] ++ sentTo q es :=
  List.filterMap_append (l := [e])

/-- A message that is sent keeps the queue served. -/
private theorem Serves.send {b : List UInt8} {sent ms : List Message} {q' : QueueId} {m : Message}
    (h : Serves q b sent ms s mq) (hq : s.queues q = some mq)
    (hstep : messageQueuePut .thread s q' m = some s') :
    ∃ mq', s'.queues q = some mq' ∧ Serves q b (sent ++ sentTo q [.send q' m]) ms s' mq' := by
  obtain ⟨mq', hq', hview⟩ := messageQueuePut_queueStep hq hstep
  obtain ⟨k, hk⟩ := h.surplus
  obtain ⟨k', hk', -⟩ := hk.step hview
  suffices hdata : sent ++ sentTo q [.send q' m] = ms ++ mq'.messages ∧
      mq'.buffer = received b ms ∧
      callsOf q s' ++ s'.handlers.flatMap (Handler.inHand q mq'.buffer) = deliveries q b ms from
    ⟨mq', hq', ⟨k', hk'⟩, hdata.1, hdata.2.1, hdata.2.2⟩
  obtain ⟨rfl, hrefused⟩ | ⟨mq₁, armed, pending, hmq₁, hm, rfl⟩ := messageQueuePut_thread hstep
  · -- the message is not sent
    obtain rfl : mq = mq' := Option.some.inj (hq.symm.trans hq')
    have hnone : sentTo q [.send q' m] = [] := by
      simp only [sentTo, List.filterMap_cons, List.filterMap_nil]
      rw [if_neg]
      rintro ⟨rfl, hm⟩
      obtain hclosed | hlong := hrefused
      · rw [hq] at hclosed
        cases hclosed
      · omega
    rw [hnone, List.append_nil]
    exact ⟨h.sent, h.buffer, h.calls⟩
  · by_cases hqq : q' = q
    · subst hqq
      obtain rfl : mq₁ = mq := Option.some.inj (hmq₁.symm.trans hq)
      obtain rfl := Option.some.inj ((set_queues_self s q' _).symm.trans hq')
      have hone : sentTo q' [.send q' m] = [m] := by simp [sentTo, hm]
      rw [hone]
      refine ⟨?_, h.buffer, h.calls⟩
      rw [h.sent, List.append_assoc]
    · obtain rfl : mq = mq' :=
        Option.some.inj (hq.symm.trans ((set_queues_of_ne (Ne.symm hqq) s _).symm.trans hq'))
      have hnone : sentTo q [.send q' m] = [] := by simp [sentTo, hqq]
      rw [hnone, List.append_nil]
      exact ⟨h.sent, h.buffer, h.calls⟩

/-- A notification that is delivered keeps the queue served. -/
private theorem Serves.deliver {b : List UInt8} {sent ms : List Message} {q' : QueueId}
    (h : Serves q b sent ms s mq) (hq : s.queues q = some mq)
    (hstep : deliver .thread s q' = some s') :
    ∃ mq', s'.queues q = some mq' ∧ Serves q b sent ms s' mq' := by
  obtain ⟨mq', hq', hview⟩ := deliver_queueStep hq hstep
  obtain ⟨k, hk⟩ := h.surplus
  obtain ⟨k', hk', -⟩ := hk.step hview
  unfold AsyncMQ.deliver at hstep
  split at hstep
  · cases hstep
    obtain rfl : mq = mq' := Option.some.inj (hq.symm.trans hq')
    refine ⟨mq, hq, ⟨k', hk'⟩, h.sent, h.buffer, ?_⟩
    -- the new handler has no message yet
    rw [List.flatMap_append]
    simpa [Handler.inHand, callsOf] using h.calls
  · cases hstep

/-- A step of another queue's handler. -/
private theorem Serves.handle_other {b : List UInt8} {sent ms : List Message} {h : Handler}
    {mq' mq₁ : Queue} (hs : Serves q b sent ms s mq) (hq : s.queues q = some mq)
    (hi : s.handlers[i]? = some h) (hne : h.queue ≠ q) (hstep : ThreadStep s i h mq₁ s')
    (hq' : s'.queues q = some mq') :
    mq' = mq ∧ callsOf q s' ++ s'.handlers.flatMap (Handler.inHand q mq.buffer) =
      deliveries q b ms := by
  have hset : ∀ mq₂, (s.set h.queue mq₂).queues q = some mq := fun mq₂ =>
    (set_queues_of_ne (Ne.symm hne) s mq₂).trans hq
  have hsame : ∀ pc, (s.handlers.set i ⟨h.queue, pc⟩).flatMap (Handler.inHand q mq.buffer) =
      s.handlers.flatMap (Handler.inHand q mq.buffer) := by
    intro pc
    apply inHand_set hi
    rw [Handler.inHand_of_ne hne, Handler.inHand_of_ne (h := ⟨h.queue, pc⟩) hne]
  have hcalls := hs.calls
  cases hstep with
  | empty hpc hmsgs =>
    exact ⟨Option.some.inj (hq'.symm.trans hq), by rw [hsame]; exact hcalls⟩
  | receive hpc m ms' hmsgs =>
    exact ⟨Option.some.inj (hq'.symm.trans (hset _)), by rw [hsame]; exact hcalls⟩
  | callback n hpc =>
    refine ⟨Option.some.inj (hq'.symm.trans hq), ?_⟩
    rw [hsame, callsOf_eq rfl]
    split
    · -- the call is one of the other queue
      simpa [List.filter_append, hne, callsOf] using hcalls
    · exact hcalls
  | exit hpc harmed => exact ⟨Option.some.inj (hq'.symm.trans hq), hcalls⟩
  | notify hpc harmed =>
    exact ⟨Option.some.inj (hq'.symm.trans (hset _)), by rw [hsame]; exact hcalls⟩
  | leave hpc =>
    refine ⟨Option.some.inj (hq'.symm.trans hq), ?_⟩
    rw [inHand_eraseIdx hi (Handler.inHand_of_ne hne _)]
    exact hcalls

/-- A step of a handler of the queue itself: with no other one on its way, the
    buffer is this handler's alone. -/
private theorem Serves.handle_own {b : List UInt8} {sent ms : List Message} {h : Handler}
    {mq' : Queue} (hs : Serves q b sent ms s mq) (hq : s.queues q = some mq)
    (hi : s.handlers[i]? = some h) (hown : h.queue = q) (hstep : ThreadStep s i h mq s')
    (hq' : s'.queues q = some mq') :
    ∃ ms', sent = ms' ++ mq'.messages ∧ mq'.buffer = received b ms' ∧
      callsOf q s' ++ s'.handlers.flatMap (Handler.inHand q mq'.buffer) = deliveries q b ms' := by
  subst hown
  have hcalls := hs.calls
  have hself : ∀ mq₁, (s.set h.queue mq₁).queues h.queue = some mq₁ := set_queues_self s h.queue
  -- the calls in hand before and after the step of a handler that is to register
  have halone : h.pc ≠ .leave → ∀ h' b', s.handlers.flatMap (Handler.inHand h.queue b') =
      h.inHand h.queue b' ∧
      (s.handlers.set i h').flatMap (Handler.inHand h.queue b') = h'.inHand h.queue b' := by
    intro hpc h' b'
    exact inHand_alone hi hs.one_rearms (by simpa [Handler.rearms] using hpc) h' b'
  cases hstep with
  | empty hpc hmsgs =>
    obtain rfl := Option.some.inj (hq'.symm.trans hq)
    refine ⟨ms, hs.sent, hs.buffer, ?_⟩
    obtain ⟨hbefore, hafter⟩ := halone (by simp [hpc]) ⟨h.queue, .callback (-1)⟩ mq'.buffer
    rw [hafter]
    rw [hbefore] at hcalls
    simpa [Handler.inHand, hpc, callsOf] using hcalls
  | receive hpc m ms' hmsgs =>
    obtain rfl := Option.some.inj (hq'.symm.trans (hself _))
    refine ⟨ms ++ [m], ?_, ?_, ?_⟩
    · rw [hs.sent, hmsgs, List.append_assoc]
      rfl
    · rw [received_append, ← hs.buffer]
    · -- the message goes from the queue into the handler's hand
      obtain ⟨hbefore, hafter⟩ := halone (by simp [hpc]) ⟨h.queue, .callback m.length⟩
        (CMemory.splice mq.buffer 0 m)
      obtain ⟨hold, -⟩ := halone (by simp [hpc]) h mq.buffer
      rw [hold] at hcalls
      have hnone : h.inHand h.queue mq.buffer = [] := by rw [Handler.inHand, hpc]
      rw [hnone, List.append_nil] at hcalls
      rw [hafter, deliveries_append, ← hs.buffer, ← hcalls]
      cases m with
      | nil => simp [Handler.inHand, callsOf, State.set]
      | cons c m =>
        have hpos : (0 : Int) < (c :: m).length := by simp only [List.length_cons]; omega
        simp only [Handler.inHand, callsOf, State.set, true_and, if_pos hpos, reduceCtorEq,
          if_false]
  | callback n hpc =>
    obtain rfl := Option.some.inj (hq'.symm.trans hq)
    refine ⟨ms, hs.sent, hs.buffer, ?_⟩
    -- the call in hand is made
    obtain ⟨hbefore, hafter⟩ := halone (by simp [hpc]) ⟨h.queue, .notify⟩ mq'.buffer
    rw [hafter, callsOf_eq rfl]
    rw [hbefore] at hcalls
    by_cases hn : 0 < n
    · rw [if_pos hn]
      simpa [Handler.inHand, hpc, hn, List.filter_append, callsOf] using hcalls
    · rw [if_neg hn]
      simpa [Handler.inHand, hpc, hn, callsOf] using hcalls
  | exit hpc harmed =>
    obtain rfl := Option.some.inj (hq'.symm.trans hq)
    exact ⟨ms, hs.sent, hs.buffer, hcalls⟩
  | notify hpc harmed =>
    obtain rfl := Option.some.inj (hq'.symm.trans (hself _))
    refine ⟨ms, hs.sent, hs.buffer, ?_⟩
    rw [inHand_set hi (by rw [Handler.inHand, Handler.inHand, hpc])]
    exact hcalls
  | leave hpc =>
    obtain rfl := Option.some.inj (hq'.symm.trans hq)
    refine ⟨ms, hs.sent, hs.buffer, ?_⟩
    rw [inHand_eraseIdx hi (by rw [Handler.inHand, hpc])]
    exact hcalls

/-- Every step keeps a queue served in order. -/
theorem Serves.step {b : List UInt8} {sent ms : List Message} {e : Event}
    (h : Serves q b sent ms s mq) (hq : s.queues q = some mq)
    (hstep : AsyncMQ.step .thread s e = some s') :
    ∃ mq' ms', s'.queues q = some mq' ∧ Serves q b (sent ++ sentTo q [e]) ms' s' mq' := by
  unfold AsyncMQ.step at hstep
  split at hstep
  · cases hstep
  · cases e with
    | send q' m =>
      obtain ⟨mq', hq', hs'⟩ := h.send hq hstep
      exact ⟨mq', ms, hq', hs'⟩
    | deliver q' =>
      obtain ⟨mq', hq', hs'⟩ := h.deliver hq hstep
      have hnone : sentTo q [.deliver q'] = [] := rfl
      rw [hnone, List.append_nil]
      exact ⟨mq', ms, hq', hs'⟩
    | handle i =>
      have hnone : sentTo q [.handle i] = [] := rfl
      rw [hnone, List.append_nil]
      -- the token stays with the queue
      obtain ⟨mq', hq', hview⟩ := sigHandler_queueStep hq hstep
      obtain ⟨k, hk⟩ := h.surplus
      obtain ⟨k', hk', -⟩ := hk.step hview
      obtain ⟨x, mq₁, hi, hmq₁, hthread⟩ := sigHandler_thread hstep
      by_cases hown : x.queue = q
      · -- a handler of this queue: the receiver takes the step
        obtain rfl : mq = mq₁ := by
          rw [hown, hq] at hmq₁
          exact Option.some.inj hmq₁
        obtain ⟨ms', hsent, hbuffer, hcalls⟩ := h.handle_own hq hi hown hthread hq'
        exact ⟨mq', ms', hq', ⟨k', hk'⟩, hsent, hbuffer, hcalls⟩
      · -- a handler of another queue
        obtain ⟨rfl, hcalls⟩ := h.handle_other hq hi hown hthread hq'
        exact ⟨mq', ms, hq', ⟨k', hk'⟩, h.sent, h.buffer, hcalls⟩

/-! ## Whole runs -/

/-- All queues as `openMessageQueue` leaves them. -/
structure Fresh (s : State) : Prop extends Opened s where
  calls : s.calls = []
  buffers : ∀ q mq, s.queues q = some mq → mq.buffer = List.replicate (maxSize + 1) 0

/-- A served queue is served at the end of every run, with all that was sent. -/
theorem serves_run {b : List UInt8} {sent ms : List Message} {es : List Event}
    (h : Serves q b sent ms s mq) (hq : s.queues q = some mq)
    (hrun : es.foldlM (step .thread) s = some s') :
    ∃ mq' ms', s'.queues q = some mq' ∧ Serves q b (sent ++ sentTo q es) ms' s' mq' := by
  induction es generalizing s mq sent ms with
  | nil =>
    obtain rfl : s = s' := Option.some.inj hrun
    have hnone : sentTo q [] = [] := rfl
    rw [hnone, List.append_nil]
    exact ⟨mq, ms, hq, h⟩
  | cons e es ih =>
    obtain ⟨s₁, h₁, h₂⟩ := Runs.run_cons.mp hrun
    obtain ⟨mq₁, ms₁, hq₁, hs₁⟩ := h.step hq h₁
    obtain ⟨mq', ms', hq', hs'⟩ := ih hs₁ hq₁ h₂
    refine ⟨mq', ms', hq', ?_⟩
    rw [sentTo_cons, ← List.append_assoc]
    exact hs'

/-- From fresh queues on, each queue is served by one receiver that starts with an
    empty buffer. -/
theorem Fresh.serves (h : Fresh s) {es : List Event} (hq : s.queues q ≠ none)
    (hrun : es.foldlM (step .thread) s = some s') :
    ∃ mq' ms', s'.queues q = some mq' ∧
      Serves q (List.replicate (maxSize + 1) 0) (sentTo q es) ms' s' mq' := by
  obtain ⟨mq, hmq⟩ := Option.ne_none_iff_exists'.mp hq
  have hstart : Serves q (List.replicate (maxSize + 1) 0) [] [] s mq := by
    refine ⟨⟨0, h.toOpened.surplus hmq⟩, ?_, h.buffers q mq hmq, ?_⟩
    · rw [(h.queues q mq hmq).1, List.append_nil]
    · rw [callsOf, h.calls, h.handlers]
      rfl
  exact serves_run hstart hmq hrun

/-- What `mq_send` accepts fits into the buffer. -/
theorem length_le_of_mem_sentTo {es : List Event} {m : Message} (hm : m ∈ sentTo q es) :
    m.length ≤ maxSize := by
  rw [sentTo, List.mem_filterMap] at hm
  obtain ⟨e, -, he⟩ := hm
  cases e with
  | send q' m' =>
    simp only [Option.ite_none_right_eq_some, Option.some.injEq] at he
    rw [← he.2]
    exact he.1.2
  | deliver q' => cases he
  | handle i => cases he

/-- In every reachable state a queue has at most one handler between its start and
    its `mq_notify`, and the callbacks have had the messages sent to their queue in
    order, without a gap. -/
theorem handlers_serve_in_order (h : Fresh s) {es : List Event}
    (hrun : es.foldlM (step .thread) s = some s') (hq : s.queues q ≠ none) :
    s'.handlers.countP (Handler.rearms q) ≤ 1 ∧
      (callsOf q s').map CallbackCall.message <+: (sentTo q es).filter (· ≠ []) := by
  obtain ⟨mq', ms', -, hs⟩ := h.serves hq hrun
  refine ⟨hs.one_rearms, ?_⟩
  have hfit : ∀ m ∈ ms', m.length ≤ (List.replicate (maxSize + 1) (0 : UInt8)).length := by
    intro m hm
    have hsent : m ∈ sentTo q es := by
      rw [hs.sent]
      exact List.mem_append_left _ hm
    have := length_le_of_mem_sentTo hsent
    rw [List.length_replicate]
    omega
  -- calls made and in hand, messages received and waiting
  have hcalls : callsOf q s' <+: deliveries q _ ms' := ⟨_, hs.calls⟩
  have hreceived : ms' <+: sentTo q es := ⟨_, hs.sent.symm⟩
  have hmessages := hcalls.map CallbackCall.message
  rw [deliveries_message q hfit] at hmessages
  exact hmessages.trans (hreceived.filter _)

/-- The server with one queue starts with a fresh one. -/
theorem fresh_oneQueue : Fresh oneQueue := by
  refine ⟨opened_oneQueue, rfl, fun q mq hq => ?_⟩
  simp only [oneQueue, Option.ite_none_right_eq_some, Option.some.injEq] at hq
  rw [← hq.2]

/-- The second message arrives while the handler of the first one runs. -/
theorem handlers_serve_in_order_two_messages :
    ∃ s', [.send 0 [104, 105], .deliver 0, .handle 0, .send 0 [104, 111], .handle 0].foldlM
        (step .thread) oneQueue = some s' ∧
      s'.handlers.countP (Handler.rearms 0) ≤ 1 ∧
      (callsOf 0 s').map CallbackCall.message <+: [[104, 105], [104, 111]] := by
  obtain ⟨s', hrun⟩ : ∃ s', [.send 0 [104, 105], .deliver 0, .handle 0, .send 0 [104, 111],
      .handle 0].foldlM (step .thread) oneQueue = some s' := ⟨_, rfl⟩
  exact ⟨s', hrun, handlers_serve_in_order (q := 0) fresh_oneQueue hrun (by simp [oneQueue])⟩

end AsyncMQ
