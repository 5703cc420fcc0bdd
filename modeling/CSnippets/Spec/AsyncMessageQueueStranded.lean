import CSnippets.Spec.AsyncMessageQueueOrder

/-!
# Stranded for good

A notification is only generated when a message arrives at an empty queue. Once a queue holds
a message and nothing is going on for it, this does not happen any more: the server never
receives from it again, and after as many messages as the queue has room for every sender
blocks.
-/

namespace AsyncMQ

variable {d : Delivery} {s s' : State} {q q' : QueueId} {mq mq' : Queue} {e : Event} {m : Message}

/-- Nothing is going on for the queue. -/
structure Idle (s : State) (q : QueueId) (mq : Queue) : Prop extends Quiescent s q where
  queue : s.queues q = some mq

/-- The queue holds messages and nobody will come for them. -/
structure Stranded (s : State) (q : QueueId) (mq : Queue) : Prop extends Idle s q mq where
  held : mq.messages ≠ []

/-- What happens to such a queue: the messages `ms` come in, and there is room for them. -/
structure Strands (s s' : State) (q : QueueId) (mq : Queue) (ms : List Message) : Prop
    extends Quiescent s' q where
  queue : s'.queues q = some { mq with messages := mq.messages ++ ms }
  calls : callsOf q s' = callsOf q s
  room : mq.messages.length + ms.length ≤ max mq.maxMsg mq.messages.length

/-- An idle queue strands nothing when nothing is sent. -/
theorem Idle.strands_nil (h : Idle s q mq) : Strands s s q mq [] where
  toQuiescent := h.toQuiescent
  queue := by rw [List.append_nil, h.queue]
  calls := rfl
  room := by
    rw [List.length_nil, Nat.add_zero]
    exact Nat.le_max_right _ _

/-- What does not concern the queue leaves it as it is. -/
theorem Idle.of_other (h : Idle s q mq) (hqueue : s'.queues q = s.queues q)
    (hpending : ∀ p ∈ s'.pending, p = q → p ∈ s.pending)
    (hhandlers : ∀ x ∈ s'.handlers, x.queue = q → ∃ y ∈ s.handlers, y.queue = q)
    (hcalls : callsOf q s' = callsOf q s) : Strands s s' q mq [] where
  pending := fun hmem => h.pending (hpending q hmem rfl)
  handlers := by
    intro x hx hxq
    obtain ⟨y, hy, hyq⟩ := hhandlers x hx hxq
    exact h.handlers y hy hyq
  queue := by rw [hqueue, List.append_nil, h.queue]
  calls := hcalls
  room := h.strands_nil.room

/-- A message for another queue brings this one no notification. -/
theorem mem_notified_of_ne {pending : List QueueId} (hne : q' ≠ q) :
    ∀ p ∈ notified d pending q', p = q → p ∈ pending := by
  rintro p hp rfl
  unfold notified at hp
  cases d with
  | thread => exact (List.mem_append.mp hp).resolve_right fun h => hne (List.mem_singleton.mp h).symm
  | queuedSignal =>
    exact (List.mem_append.mp hp).resolve_right fun h => hne (List.mem_singleton.mp h).symm
  | mergedSignal =>
    simp only at hp
    split at hp
    · exact absurd (List.mem_singleton.mp hp).symm hne
    · exact hp

/-! ## One step -/

/-- A message for another queue. -/
theorem Idle.send_other (h : Idle s q mq) (hne : q' ≠ q)
    (hstep : messageQueuePut d s q' m = some s') : Strands s s' q mq [] := by
  unfold messageQueuePut at hstep
  split at hstep
  · cases hstep
    exact h.strands_nil
  · split at hstep
    · cases hstep
      exact h.strands_nil
    · split at hstep
      · split at hstep
        · cases hstep
          exact h.of_other (set_queues_of_ne (Ne.symm hne) s _) (mem_notified_of_ne hne)
            (fun x hx hxq => ⟨x, hx, hxq⟩) rfl
        · cases hstep
          exact h.of_other (set_queues_of_ne (Ne.symm hne) s _) (fun p hp _ => hp)
            (fun x hx hxq => ⟨x, hx, hxq⟩) rfl
      · cases hstep

/-- A message sent to a stranded queue is stranded with the others. -/
theorem Stranded.send (h : Stranded s q mq) (hstep : messageQueuePut d s q' m = some s') :
    Strands s s' q mq (sentTo q [.send q' m]) := by
  by_cases hqq : q' = q
  · subst hqq
    simp only [messageQueuePut, h.queue] at hstep
    split at hstep
    · -- `mq_send` refuses the message
      rename_i hlong
      cases hstep
      have hnone : sentTo q' [.send q' m] = [] := by
        simp only [sentTo, List.filterMap_cons, List.filterMap_nil]
        rw [if_neg fun hm => by omega]
      rw [hnone]
      exact h.strands_nil
    · rename_i hshort
      split at hstep
      · rename_i hroom
        -- the queue is not empty, so no notification is generated
        rw [if_neg fun hempty => h.held hempty.2] at hstep
        cases hstep
        have hone : sentTo q' [.send q' m] = [m] := by
          simp only [sentTo, List.filterMap_cons, List.filterMap_nil]
          rw [if_pos ⟨trivial, by omega⟩]
        rw [hone]
        refine ⟨⟨h.pending, h.handlers⟩, set_queues_self .., rfl, ?_⟩
        rw [List.length_singleton]
        omega
      · cases hstep
  · have hnone : sentTo q [.send q' m] = [] := by
      simp only [sentTo, List.filterMap_cons, List.filterMap_nil]
      rw [if_neg fun hm => hqq hm.1]
    rw [hnone]
    exact h.send_other hqq hstep

/-- A notification of another queue finds this one as idle as before. -/
theorem Idle.deliver (h : Idle s q mq) (hstep : deliver d s q' = some s') :
    Strands s s' q mq [] := by
  unfold AsyncMQ.deliver at hstep
  split at hstep
  · rename_i hpending
    cases hstep
    refine h.of_other rfl (fun p hp _ => List.mem_of_mem_erase hp) ?_ rfl
    intro x hx hxq
    rcases List.mem_append.mp hx with hx | hx
    · exact ⟨x, hx, hxq⟩
    · -- the new handler is for another queue
      obtain rfl := List.mem_singleton.mp hx
      exact absurd (hxq ▸ hpending.1) h.pending
  · cases hstep

/-- Every handler is for another queue. -/
theorem Idle.handle (h : Idle s q mq) {i : Nat} (hstep : sigHandler d s i = some s') :
    Strands s s' q mq [] := by
  cases hi : s.handlers[i]? with
  | none => simp [sigHandler, hi] at hstep
  | some x =>
    obtain ⟨q₁, pc⟩ := x
    have hne : q₁ ≠ q := h.handlers _ (List.mem_of_getElem? hi)
    have hset : ∀ pc', ∀ y ∈ s.handlers.set i ⟨q₁, pc'⟩, y.queue = q →
        ∃ z ∈ s.handlers, z.queue = q := by
      intro pc' y hy hyq
      rcases List.mem_or_eq_of_mem_set hy with hy | rfl
      · exact ⟨y, hy, hyq⟩
      · exact absurd hyq hne
    cases hmq : s.queues q₁ with
    | none => simp [sigHandler, hi, hmq] at hstep
    | some mq₁ =>
      simp only [sigHandler, hi, hmq] at hstep
      cases pc with
      | receive =>
        simp only at hstep
        split at hstep
        · cases hstep
          exact h.of_other rfl (fun p hp _ => hp) (hset _) rfl
        · cases hstep
          exact h.of_other (set_queues_of_ne (Ne.symm hne) s _) (fun p hp _ => hp) (hset _) rfl
      | callback bytesRead =>
        cases hstep
        refine h.of_other rfl (fun p hp _ => hp) (hset _) ?_
        -- the call is for the other queue
        show List.filter _ _ = _
        split
        · rw [List.filter_append, callsOf]
          simp [hne]
        · rfl
      | notify =>
        simp only at hstep
        split at hstep
        · cases hstep
          exact h.of_other rfl (fun p hp _ => hp) (fun x hx hxq => ⟨x, hx, hxq⟩) rfl
        · cases hstep
          exact h.of_other (set_queues_of_ne (Ne.symm hne) s _) (fun p hp _ => hp) (hset _) rfl
      | leave =>
        cases hstep
        exact h.of_other rfl (fun p hp _ => hp)
          (fun x hx hxq => ⟨x, List.mem_of_mem_eraseIdx hx, hxq⟩) rfl

/-- Every step strands what it sends to the queue, and takes nothing from it. -/
theorem Stranded.step (h : Stranded s q mq) (hstep : AsyncMQ.step d s e = some s') :
    Strands s s' q mq (sentTo q [e]) := by
  unfold AsyncMQ.step at hstep
  split at hstep
  · cases hstep
  · cases e with
    | send q' m => exact h.send hstep
    | deliver q' => exact h.toIdle.deliver hstep
    | handle i => exact h.toIdle.handle hstep

/-! ## All later steps -/

/-- A stranded queue stays stranded, with more messages. -/
theorem Strands.stranded {ms : List Message} (h : Strands s s' q mq ms) (hheld : mq.messages ≠ []) :
    Stranded s' q { mq with messages := mq.messages ++ ms } where
  toQuiescent := h.toQuiescent
  queue := h.queue
  held := by simp [hheld]

/-- What two stretches of a run strand is stranded by the whole. -/
theorem Strands.trans {s'' : State} {ms ms' : List Message} (h : Strands s s' q mq ms)
    (h' : Strands s' s'' q { mq with messages := mq.messages ++ ms } ms') :
    Strands s s'' q mq (ms ++ ms') where
  toQuiescent := h'.toQuiescent
  queue := by rw [h'.queue, List.append_assoc]
  calls := h'.calls.trans h.calls
  room := by
    have hroom := h.room
    have hroom' := h'.room
    simp only [List.length_append] at hroom' ⊢
    omega

/-- What is sent to a queue is what its events send one by one. -/
theorem sentTo_flatMap (q : QueueId) (es : List Event) :
    es.flatMap (fun e => sentTo q [e]) = sentTo q es := by
  induction es with
  | nil => rfl
  | cons e es ih =>
    rw [List.flatMap_cons, ih]
    exact List.filterMap_append.symm

/-- A full queue blocks whoever sends to it. -/
theorem send_full (hq : s.queues q = some mq) (hm : m.length ≤ maxSize)
    (hfull : mq.maxMsg ≤ mq.messages.length) : step d s (.send q m) = none := by
  unfold step
  split
  · rfl
  · simp only [messageQueuePut, hq]
    rw [if_neg (by omega), if_neg (by omega)]

/-- Whichever server it is, and whatever is sent, delivered and handled after a queue was
    stranded: no handler receives from it or calls its callback again, it takes no more messages
    than it has room for, and every later sender blocks. -/
theorem stranded_forever {es : List Event} (hq : s.queues q = some mq) (hquiet : Quiescent s q)
    (hheld : mq.messages ≠ []) (hrun : es.foldlM (step d) s = some s') :
    Quiescent s' q ∧ s'.queues q = some { mq with messages := mq.messages ++ sentTo q es } ∧
      callsOf q s' = callsOf q s ∧
      mq.messages.length + (sentTo q es).length ≤ max mq.maxMsg mq.messages.length ∧
      (mq.maxMsg ≤ mq.messages.length + (sentTo q es).length →
        ∀ m, m.length ≤ maxSize → step d s' (.send q m) = none) := by
  have hstart : Stranded s q mq := { hquiet with queue := hq, held := hheld }
  have hend : Strands s s' q mq ([] ++ es.flatMap fun e => sentTo q [e]) := by
    refine Runs.run_gathers (J := fun ms s₁ => Strands s s₁ q mq ms) ?_ hstart.strands_nil hrun
    intro ms s₁ e s₂ h hstep
    exact h.trans ((h.stranded hheld).step hstep)
  rw [List.nil_append, sentTo_flatMap] at hend
  refine ⟨hend.toQuiescent, hend.queue, hend.calls, hend.room, fun hfull m hm => ?_⟩
  apply send_full hend.queue hm
  rw [List.length_append]
  exact hfull

/-- Two messages are sent before the first is handled. -/
def sentTogether : List Event :=
  [.send 0 [104], .send 0 [105], .deliver 0, .handle 0, .handle 0, .handle 0, .handle 0]

/-- Nine more are sent, and no tenth. -/
theorem stranded_forever_full :
    ∃ s s', sentTogether.foldlM (step .mergedSignal) oneQueue = some s ∧
      (List.replicate 9 (Event.send 0 [106])).foldlM (step .mergedSignal) s = some s' ∧
      ∀ m, m.length ≤ maxSize → step .mergedSignal s' (.send 0 m) = none := by
  have hruns : ((sentTogether.foldlM (step .mergedSignal) oneQueue).any fun s =>
      decide (s.queues 0 = some ⟨[[105]], 10, true, List.replicate (maxSize + 1) 0⟩ ∧
        s.pending = [] ∧ s.handlers = []) &&
      ((List.replicate 9 (Event.send 0 [106])).foldlM (step .mergedSignal) s).isSome) = true := by
    decide +kernel
  obtain ⟨s, hs, hruns⟩ := (Option.any_eq_true _ _).mp hruns
  obtain ⟨hstranded, hmore⟩ := Bool.and_eq_true_iff.mp hruns
  obtain ⟨hq, hpending, hhandlers⟩ := of_decide_eq_true hstranded
  obtain ⟨s', hs'⟩ := Option.isSome_iff_exists.mp hmore
  have hquiet : Quiescent s 0 :=
    ⟨by rw [hpending]; exact List.not_mem_nil, by rw [hhandlers]; simp⟩
  obtain ⟨-, -, -, -, hfull⟩ := stranded_forever hq hquiet (List.cons_ne_nil _ _) hs'
  exact ⟨s, s', hs, hs', hfull (by decide)⟩

end AsyncMQ
