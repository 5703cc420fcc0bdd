import Mathlib.Data.List.Perm.Basic
import CSnippets.ForStd.OneShot
import CSnippets.ForStd.Runs
import CSnippets.Native.AsyncMessageQueue

/-!
# Are all messages received?

`sigHandler` receives one message and registers again. Each queue is seen as a
queue with a one-shot notification, and every step of the server or of a sender
is a step there. A message that arrives while the registration is used up gets no
notification of its own, and the handler that is still to run takes one message
only: some message then stays in the queue with nobody to receive it.
-/

namespace AsyncMQ

variable {d : Delivery} {s s' : State} {q : QueueId} {mq : Queue}

/-! ## A queue as its notifications see it -/

/-- The handler has still to receive a message of the queue. -/
def Handler.receives (q : QueueId) (h : Handler) : Bool := h.queue == q && h.pc == .receive

/-- The handler has still to register the queue again. -/
def Handler.rearms (q : QueueId) (h : Handler) : Bool := h.queue == q && h.pc != .leave

/-- The queue with the notifications and handlers that are for it. -/
def view (s : State) (q : QueueId) (mq : Queue) : OneShot.State :=
  { length := mq.messages.length, armed := mq.armed,
    waiting := s.pending.count q + s.handlers.countP (Handler.receives q),
    unarmed := s.pending.count q + s.handlers.countP (Handler.rearms q) }

/-- A message that the queue `q` accepts arrives while the registration of `q` is
    in place, and its notification is not merged with a pending one. -/
def Timely (d : Delivery) (q : QueueId) (s : State) : Event → Prop
  | .send q' m => q' = q → m.length ≤ maxSize → ∀ mq, s.queues q = some mq →
      mq.armed = true ∧ (d = .mergedSignal → s.pending = [])
  | .deliver _ => True
  | .handle _ => True

/-- What a step does to the queue `q`. -/
def QueueStep (d : Delivery) (q : QueueId) (mq : Queue) (s : State) (e : Event) (s' : State) :
    Prop :=
  ∃ mq', s'.queues q = some mq' ∧ OneShot.Step (Timely d q s e) (view s q mq) (view s' q mq')

/-! ## Counting the handlers -/

/-- A handler that takes a step is replaced by what it becomes. -/
private theorem countP_set {p : Handler → Bool} {hs : List Handler} {i : Nat} {h : Handler}
    (hi : hs[i]? = some h) (h' : Handler) :
    (hs.set i h').countP p + (if p h then 1 else 0) = hs.countP p + (if p h' then 1 else 0) := by
  obtain ⟨hlt, hget⟩ := List.getElem?_eq_some_iff.mp hi
  have hset := (List.set_perm_cons_eraseIdx hlt h').countP_eq p
  have hold := (List.getElem_cons_eraseIdx_perm hlt).countP_eq p
  rw [List.countP_cons] at hset hold
  rw [hget] at hold
  omega

/-- A handler that returns is counted no more. -/
private theorem countP_eraseIdx {p : Handler → Bool} {hs : List Handler} {i : Nat} {h : Handler}
    (hi : hs[i]? = some h) :
    (hs.eraseIdx i).countP p + (if p h then 1 else 0) = hs.countP p := by
  obtain ⟨hlt, hget⟩ := List.getElem?_eq_some_iff.mp hi
  have hold := (List.getElem_cons_eraseIdx_perm hlt).countP_eq p
  rw [List.countP_cons, hget] at hold
  omega

/-! ## Every step is a step of the queue -/

/-- A step that leaves the queue and its counts alone. -/
private theorem queueStep_stay {e : Event} {mq' : Queue} (ht : Timely d q s e)
    (hq : s'.queues q = some mq') (hview : view s' q mq' = view s q mq) :
    QueueStep d q mq s e s' := by
  refine ⟨mq', hq, ?_⟩
  rw [hview]
  exact .stay ht

/-- The queue that was written is found as it was written. -/
theorem set_queues_self (s : State) (q : QueueId) (mq : Queue) :
    (s.set q mq).queues q = some mq := Function.update_self ..

/-- Writing one queue leaves the others alone. -/
theorem set_queues_of_ne {q' : QueueId} (h : q ≠ q') (s : State) (mq : Queue) :
    (s.set q' mq).queues q = s.queues q := Function.update_of_ne h ..

/-- A pending notification of another queue does not count. -/
private theorem count_notified_of_ne {q' : QueueId} (h : q ≠ q') (d : Delivery)
    (pending : List QueueId) : (notified d pending q').count q = pending.count q := by
  have hcount : [q'].count q = 0 := List.count_eq_zero.mpr (by simpa using h)
  cases d with
  | thread => rw [notified, List.count_append, hcount]; rfl
  | queuedSignal => rw [notified, List.count_append, hcount]; rfl
  | mergedSignal =>
    rw [notified]
    split
    · next hnil => rw [hnil, hcount]; rfl
    · rfl

/-- A message for another queue. -/
private theorem messageQueuePut_other (hq : s.queues q = some mq) {q' : QueueId} {m : Message}
    (hqq : q' ≠ q) (hstep : messageQueuePut d s q' m = some s') :
    QueueStep d q mq s (.send q' m) s' := by
  have ht : Timely d q s (.send q' m) := fun h => absurd h hqq
  have hne : q ≠ q' := Ne.symm hqq
  unfold messageQueuePut at hstep
  split at hstep
  · cases hstep
    exact queueStep_stay ht hq rfl
  · split at hstep
    · cases hstep
      exact queueStep_stay ht hq rfl
    · split at hstep
      · split at hstep
        · cases hstep
          refine ⟨mq, (set_queues_of_ne hne s _).trans hq, ?_⟩
          simp only [view, State.set, count_notified_of_ne hne]
          exact .stay ht
        · cases hstep
          exact queueStep_stay ht ((set_queues_of_ne hne s _).trans hq) rfl
      · cases hstep

/-- Seen from any queue, a message that is sent arrives there or changes nothing. -/
theorem messageQueuePut_queueStep (hq : s.queues q = some mq) {q' : QueueId} {m : Message}
    (hstep : messageQueuePut d s q' m = some s') : QueueStep d q mq s (.send q' m) s' := by
  by_cases hqq : q' = q
  · subst hqq
    simp only [messageQueuePut, hq] at hstep
    split at hstep
    · -- the message is too long for the queue
      next hlong =>
      cases hstep
      apply queueStep_stay _ hq rfl
      intro _ hshort
      omega
    · next hshort =>
      have hshort' : m.length ≤ maxSize := by omega
      split at hstep
      · split at hstep
        · next hfirst =>
          cases hstep
          obtain ⟨harmed, hempty⟩ := hfirst
          refine ⟨_, set_queues_self .., ?_⟩
          by_cases hmerged : d = .mergedSignal ∧ s.pending ≠ []
          · -- the signal is lost in the one already pending
            have hkeep : notified d s.pending q' = s.pending := by
              rw [hmerged.1, notified, if_neg hmerged.2]
            have hlate : ¬ Timely d q' s (.send q' m) := fun ht =>
              hmerged.2 ((ht rfl hshort' mq hq).2 hmerged.1)
            have hlost := OneShot.Step.lost (s := view s q' mq) hlate
            simpa [view, hkeep, hempty, State.set] using hlost
          · have hadd : (notified d s.pending q').count q' = s.pending.count q' + 1 := by
              cases d with
              | thread => simp [notified]
              | queuedSignal => simp [notified]
              | mergedSignal =>
                have hnil : s.pending = [] := by
                  by_contra hne
                  exact hmerged ⟨rfl, hne⟩
                simp [notified, hnil]
            have ht : Timely d q' s (.send q' m) := by
              intro _ _ mq' hmq'
              obtain rfl : mq = mq' := Option.some.inj (hq.symm.trans hmq')
              refine ⟨harmed, fun hd => ?_⟩
              by_contra hne
              exact hmerged ⟨hd, hne⟩
            have hnotified := OneShot.Step.notified (s := view s q' mq) ht harmed
              (by simp [view, hempty])
            simpa [view, hadd, hempty, State.set, Nat.add_right_comm] using hnotified
        · next hnot =>
          -- no notification: the queue was not empty, or not registered
          cases hstep
          refine ⟨_, set_queues_self .., ?_⟩
          have hsilent : OneShot.Step (Timely d q' s (.send q' m)) (view s q' mq)
              { view s q' mq with length := mq.messages.length + 1 } := by
            apply OneShot.Step.silent
            intro ht
            obtain ⟨harmed, -⟩ := ht rfl hshort' mq hq
            refine ⟨harmed, ?_⟩
            show 0 < mq.messages.length
            exact List.length_pos_iff.mpr fun hnil => hnot ⟨harmed, hnil⟩
          simpa [view, State.set] using hsilent
      · -- a full queue blocks the sender
        cases hstep
  · exact messageQueuePut_other hq hqq hstep

/-- Seen from any queue, a notification starts a handler for it or changes nothing. -/
theorem deliver_queueStep (hq : s.queues q = some mq) {q' : QueueId}
    (hstep : deliver d s q' = some s') : QueueStep d q mq s (.deliver q') s' := by
  unfold deliver at hstep
  split at hstep
  · next hpending =>
    cases hstep
    refine queueStep_stay trivial hq ?_
    -- the notification becomes a handler that has still everything to do
    have hcount := (List.perm_cons_erase hpending.1).count_eq q
    rw [List.count_cons] at hcount
    by_cases hqq : q' = q
    · subst hqq
      have hone : s.pending.count q' = (s.pending.erase q').count q' + 1 := by simpa using hcount
      simp only [view, hone, List.countP_append, List.countP_singleton, Handler.receives,
        Handler.rearms, beq_self_eq_true, Bool.and_self, if_true, OneShot.State.mk.injEq, true_and]
      refine ⟨by omega, ?_⟩
      rw [if_pos (by decide)]
      omega
    · have hsame : s.pending.count q = (s.pending.erase q').count q := by
        simpa [hqq] using hcount
      simp [view, hsame, Handler.receives, Handler.rearms, hqq]
  · cases hstep

/-- The counts of a queue when a handler goes on from `pc` to `pc'`. -/
private theorem view_set {i : Nat} {q' : QueueId} {pc : HandlerPc}
    (hi : s.handlers[i]? = some ⟨q', pc⟩) (q : QueueId) (mq : Queue) (pc' : HandlerPc) :
    (view { s with handlers := s.handlers.set i ⟨q', pc'⟩ } q mq).waiting +
        (if Handler.receives q ⟨q', pc⟩ then 1 else 0) =
      (view s q mq).waiting + (if Handler.receives q ⟨q', pc'⟩ then 1 else 0) ∧
    (view { s with handlers := s.handlers.set i ⟨q', pc'⟩ } q mq).unarmed +
        (if Handler.rearms q ⟨q', pc⟩ then 1 else 0) =
      (view s q mq).unarmed + (if Handler.rearms q ⟨q', pc'⟩ then 1 else 0) := by
  have hreceives := countP_set (p := Handler.receives q) hi ⟨q', pc'⟩
  have hrearms := countP_set (p := Handler.rearms q) hi ⟨q', pc'⟩
  constructor
  · show s.pending.count q + (s.handlers.set i ⟨q', pc'⟩).countP (Handler.receives q) + _ =
      s.pending.count q + s.handlers.countP (Handler.receives q) + _
    omega
  · show s.pending.count q + (s.handlers.set i ⟨q', pc'⟩).countP (Handler.rearms q) + _ =
      s.pending.count q + s.handlers.countP (Handler.rearms q) + _
    omega

/-- A handler that is about to register has its own share in `unarmed` only. -/
private theorem waiting_lt_unarmed {i : Nat} (hi : s.handlers[i]? = some ⟨q, .notify⟩)
    (mq : Queue) :
    (view s q mq).waiting < (view s q mq).unarmed := by
  have hreceives := countP_eraseIdx (p := Handler.receives q) hi
  have hrearms := countP_eraseIdx (p := Handler.rearms q) hi
  -- among the others, whoever has to receive has to register as well
  have hle : (s.handlers.eraseIdx i).countP (Handler.receives q) ≤
      (s.handlers.eraseIdx i).countP (Handler.rearms q) := by
    apply List.countP_mono_left
    intro h _ hh
    simp only [Handler.receives, Handler.rearms, Bool.and_eq_true, beq_iff_eq] at hh ⊢
    simp [hh]
  simp only [Handler.receives, Handler.rearms, beq_self_eq_true, Bool.true_and] at hreceives hrearms
  rw [if_neg (by decide)] at hreceives
  rw [if_pos (by decide)] at hrearms
  show s.pending.count q + s.handlers.countP (Handler.receives q) <
    s.pending.count q + s.handlers.countP (Handler.rearms q)
  have h₁ : s.handlers.countP (Handler.receives q) =
      (s.handlers.eraseIdx i).countP (Handler.receives q) := hreceives.symm
  have h₂ : s.handlers.countP (Handler.rearms q) =
      (s.handlers.eraseIdx i).countP (Handler.rearms q) + 1 := hrearms.symm
  omega

/-- A step of a handler of another queue. -/
private theorem view_set_of_ne {i : Nat} {q' : QueueId} {pc : HandlerPc}
    (hi : s.handlers[i]? = some ⟨q', pc⟩) (hne : q' ≠ q) (pc' : HandlerPc) :
    view { s with handlers := s.handlers.set i ⟨q', pc'⟩ } q mq = view s q mq := by
  obtain ⟨hw, hu⟩ := view_set hi q mq pc'
  have hq : (q' == q) = false := beq_eq_false_iff_ne.mpr hne
  simp only [Handler.receives, Handler.rearms, hq, Bool.false_and, Bool.false_eq_true, if_false,
    Nat.add_zero] at hw hu
  exact OneShot.State.ext rfl rfl hw hu

/-- A handler that returns counts for nothing any more. -/
private theorem view_eraseIdx {i : Nat} {q' : QueueId} (hi : s.handlers[i]? = some ⟨q', .leave⟩) :
    view { s with handlers := s.handlers.eraseIdx i } q mq = view s q mq := by
  have hreceives := countP_eraseIdx (p := Handler.receives q) hi
  have hrearms := countP_eraseIdx (p := Handler.rearms q) hi
  have hr : Handler.receives q ⟨q', .leave⟩ = false := by
    rw [Handler.receives, Bool.and_eq_false_iff]
    exact Or.inr rfl
  have ha : Handler.rearms q ⟨q', .leave⟩ = false := by
    rw [Handler.rearms, Bool.and_eq_false_iff]
    exact Or.inr rfl
  rw [hr] at hreceives
  rw [ha] at hrearms
  exact OneShot.State.ext rfl rfl (congrArg (s.pending.count q + ·) hreceives)
    (congrArg (s.pending.count q + ·) hrearms)

/-- A handler of the queue is still to take a message while it receives. -/
@[simp] theorem receives_self (q : QueueId) (pc : HandlerPc) :
    Handler.receives q ⟨q, pc⟩ = (pc == .receive) := by simp [Handler.receives]

/-- A handler of the queue is still to register it until it leaves. -/
@[simp] theorem rearms_self (q : QueueId) (pc : HandlerPc) :
    Handler.rearms q ⟨q, pc⟩ = (pc != .leave) := by simp [Handler.rearms]

/-- A step of a handler of the queue itself. -/
private theorem sigHandler_own (hq : s.queues q = some mq) {i : Nat} {pc : HandlerPc}
    (hi : s.handlers[i]? = some ⟨q, pc⟩) (hstep : sigHandler d s i = some s') :
    QueueStep d q mq s (.handle i) s' := by
  simp only [sigHandler, hi, hq] at hstep
  cases pc with
  | receive =>
    -- one notification less has its message to take
    have htake : ∀ n mq', mq'.messages.length = mq.messages.length - 1 → mq'.armed = mq.armed →
        OneShot.Step True (view s q mq)
          (view { s with handlers := s.handlers.set i ⟨q, .callback n⟩ } q mq') := by
      intro n mq' hlength harmed
      obtain ⟨hw, hu⟩ := view_set hi q mq (.callback n)
      rw [receives_self, receives_self, if_pos (by decide), if_neg (by simp)] at hw
      rw [rearms_self, rearms_self, if_pos (by decide), if_pos (by simp)] at hu
      have hview : view { s with handlers := s.handlers.set i ⟨q, .callback n⟩ } q mq' =
          { view s q mq with
            waiting := (view { s with handlers := s.handlers.set i ⟨q, .callback n⟩ } q mq).waiting,
            length := (view s q mq).length - 1 } :=
        OneShot.State.ext hlength harmed rfl (Nat.add_right_cancel hu)
      rw [hview]
      exact .receive trivial _ hw.symm
    -- with nothing to receive the length stays at zero
    cases hmsgs : mq.messages with
    | nil =>
      simp only [mqReceive, hmsgs, Option.some.injEq] at hstep
      subst hstep
      exact ⟨mq, hq, htake (-1) mq (by rw [hmsgs]; rfl) rfl⟩
    | cons m messages =>
      simp only [mqReceive, hmsgs, Option.some.injEq] at hstep
      subst hstep
      refine ⟨_, set_queues_self .., htake m.length _ ?_ ?_⟩
      · rw [hmsgs]
        cases d <;> rfl
      · cases d <;> rfl
  | callback bytesRead =>
    cases hstep
    refine queueStep_stay trivial hq ?_
    obtain ⟨hw, hu⟩ := view_set hi q mq .notify
    rw [receives_self, receives_self, if_neg (by simp), if_neg (by decide)] at hw
    rw [rearms_self, rearms_self, if_pos (by simp), if_pos (by decide)] at hu
    exact OneShot.State.ext rfl rfl hw (Nat.add_right_cancel hu)
  | notify =>
    cases harmed : mq.armed with
    | true =>
      -- the server exits
      simp only [mqNotify, harmed, if_true, Option.some.injEq] at hstep
      subst hstep
      exact queueStep_stay trivial hq rfl
    | false =>
      simp only [mqNotify, harmed, Bool.false_eq_true, if_false, Option.some.injEq] at hstep
      subst hstep
      refine ⟨_, set_queues_self .., ?_⟩
      obtain ⟨hw, hu⟩ := view_set hi q mq .leave
      rw [receives_self, receives_self, if_neg (by decide), if_neg (by decide)] at hw
      rw [rearms_self, rearms_self, if_pos (by decide), if_neg (by decide)] at hu
      have hlt := waiting_lt_unarmed hi mq
      have hview : view { s with handlers := s.handlers.set i ⟨q, .leave⟩ } q
            { mq with armed := true } =
          { view s q mq with
            unarmed := (view { s with handlers := s.handlers.set i ⟨q, .leave⟩ } q mq).unarmed,
            armed := true } := OneShot.State.ext rfl rfl hw rfl
      have hrearm : OneShot.Step True (view s q mq)
          (view { s with handlers := s.handlers.set i ⟨q, .leave⟩ } q { mq with armed := true }) := by
        rw [hview]
        exact .rearm trivial _ hu.symm (by omega)
      exact hrearm
  | leave =>
    cases hstep
    exact queueStep_stay trivial hq (view_eraseIdx hi)

/-- Seen from any queue, a handler takes a message, registers again or changes nothing. -/
theorem sigHandler_queueStep (hq : s.queues q = some mq) {i : Nat}
    (hstep : sigHandler d s i = some s') : QueueStep d q mq s (.handle i) s' := by
  cases hi : s.handlers[i]? with
  | none => simp [sigHandler, hi] at hstep
  | some h =>
    obtain ⟨q', pc⟩ := h
    by_cases hqq : q' = q
    · subst hqq
      exact sigHandler_own hq hi hstep
    · -- another queue
      cases hmq : s.queues q' with
      | none => simp [sigHandler, hi, hmq] at hstep
      | some mq₁ =>
        have hset : ∀ mq', (s.set q' mq').queues q = some mq := fun mq' =>
          (set_queues_of_ne (Ne.symm hqq) s mq').trans hq
        simp only [sigHandler, hi, hmq] at hstep
        cases pc with
        | receive =>
          simp only at hstep
          split at hstep
          · cases hstep
            exact queueStep_stay trivial hq (view_set_of_ne hi hqq _)
          · cases hstep
            exact queueStep_stay trivial (hset _) (view_set_of_ne hi hqq _)
        | callback bytesRead =>
          cases hstep
          exact queueStep_stay trivial hq (view_set_of_ne hi hqq _)
        | notify =>
          simp only at hstep
          split at hstep
          · cases hstep
            exact queueStep_stay trivial hq rfl
          · cases hstep
            exact queueStep_stay trivial (hset _) (view_set_of_ne hi hqq _)
        | leave =>
          cases hstep
          exact queueStep_stay trivial hq (view_eraseIdx hi)

/-! ## Whole runs -/

/-- Every step of the program is a step of each of its queues. -/
theorem step_queueStep (hq : s.queues q = some mq) {e : Event} (hstep : step d s e = some s') :
    QueueStep d q mq s e s' := by
  unfold step at hstep
  split at hstep
  · cases hstep
  · cases e with
    | send q' m => exact messageQueuePut_queueStep hq hstep
    | deliver q' => exact deliver_queueStep hq hstep
    | handle i => exact sigHandler_queueStep hq hstep

/-- Over a run the surplus of a queue stays zero exactly when all its messages
    arrive in time. -/
theorem surplus_run {k : Nat} {es : List Event} (hq : s.queues q = some mq)
    (hs : OneShot.Surplus k (view s q mq)) (hrun : es.foldlM (step d) s = some s') :
    ∃ mq' k', s'.queues q = some mq' ∧ OneShot.Surplus k' (view s' q mq') ∧
      (k' = 0 ↔ k = 0 ∧ Runs.StepsMeet (step d) (Timely d q) s es) := by
  have hstep : ∀ k s e s', (∃ mq, s.queues q = some mq ∧ OneShot.Surplus k (view s q mq)) →
      step d s e = some s' → ∃ k', (∃ mq, s'.queues q = some mq ∧
        OneShot.Surplus k' (view s' q mq)) ∧ (k' = 0 ↔ k = 0 ∧ Timely d q s e) := by
    rintro k s e s' ⟨mq, hq, hs⟩ hstep
    obtain ⟨mq', hq', hqueue⟩ := step_queueStep hq hstep
    obtain ⟨k', hs', hk'⟩ := hs.step hqueue
    exact ⟨k', ⟨mq', hq', hs'⟩, hk'⟩
  obtain ⟨k', ⟨mq', hq', hs'⟩, hk'⟩ := Runs.count_run hstep ⟨mq, hq, hs⟩ hrun
  exact ⟨mq', k', hq', hs', hk'⟩

/-- All queues are registered and empty, and nothing is going on. -/
structure Opened (s : State) : Prop where
  queues : ∀ q mq, s.queues q = some mq → mq.messages = [] ∧ mq.armed = true
  pending : s.pending = []
  handlers : s.handlers = []

/-- No notification of the queue is pending and no handler runs for it. -/
structure Quiescent (s : State) (q : QueueId) : Prop where
  pending : q ∉ s.pending
  handlers : ∀ h ∈ s.handlers, h.queue ≠ q

/-- No quiescent queue has messages. -/
def NoneStranded (s : State) : Prop :=
  ∀ q mq, s.queues q = some mq → Quiescent s q → mq.messages = []

/-- A queue that has just been opened has no message too many. -/
theorem Opened.surplus (h : Opened s) (hq : s.queues q = some mq) :
    OneShot.Surplus 0 (view s q mq) := by
  obtain ⟨hmsgs, -⟩ := h.queues q mq hq
  have hview : view s q mq = ⟨0, mq.armed, 0, 0⟩ := by
    simp [view, hmsgs, h.pending, h.handlers]
  rw [hview]
  exact ⟨fun _ => rfl, Nat.zero_le _, Nat.le_refl _, rfl⟩

/-- Nobody is still to take a message from a quiescent queue. -/
theorem Quiescent.waiting_eq (h : Quiescent s q) : (view s q mq).waiting = 0 := by
  have hpending : s.pending.count q = 0 := List.count_eq_zero.mpr h.pending
  have hhandlers : s.handlers.countP (Handler.receives q) = 0 := by
    rw [List.countP_eq_zero]
    intro x hx
    simp [Handler.receives, h.handlers x hx]
  show s.pending.count q + s.handlers.countP (Handler.receives q) = 0
  omega

/-- No step opens a queue. -/
theorem queues_eq_none {e : Event} (hq : s.queues q = none) (hstep : step d s e = some s') :
    s'.queues q = none := by
  -- only queues that exist are written
  have hset : ∀ q' mq mq', s.queues q' = some mq → (s.set q' mq').queues q = none := by
    intro q' mq mq' hq'
    have hne : q ≠ q' := by
      intro hqq
      rw [← hqq, hq] at hq'
      cases hq'
    rw [set_queues_of_ne hne]
    exact hq
  unfold step at hstep
  split at hstep
  · cases hstep
  · cases e with
    | send q' m =>
      simp only [messageQueuePut] at hstep
      cases hmq : s.queues q' with
      | none =>
        rw [hmq] at hstep
        cases hstep
        exact hq
      | some mq =>
        rw [hmq] at hstep
        simp only at hstep
        split_ifs at hstep <;> cases hstep <;> first | exact hq | exact hset q' mq _ hmq
    | deliver q' =>
      simp only [deliver] at hstep
      split at hstep
      · cases hstep
        exact hq
      · cases hstep
    | handle i =>
      simp only [sigHandler] at hstep
      cases hi : s.handlers[i]? with
      | none => simp [hi] at hstep
      | some h =>
        cases hmq : s.queues h.queue with
        | none => simp [hi, hmq] at hstep
        | some mq =>
          simp only [hi, hmq] at hstep
          split at hstep
          · split at hstep <;> cases hstep
            · exact hq
            · exact hset _ mq _ hmq
          · cases hstep
            exact hq
          · split at hstep <;> cases hstep
            · exact hq
            · exact hset _ mq _ hmq
          · cases hstep
            exact hq

/-- At the end of a run, a quiescent queue is empty exactly when each of its
    messages arrived while its registration was in place. -/
theorem quiescent_empty_iff {es : List Event} (h : Opened s)
    (hrun : es.foldlM (step d) s = some s') (hq : s.queues q = some mq) (hquiet : Quiescent s' q) :
    ∃ mq', s'.queues q = some mq' ∧
      (mq'.messages = [] ↔ Runs.StepsMeet (step d) (Timely d q) s es) := by
  obtain ⟨mq', k, hq', hs', hk⟩ := surplus_run hq (h.surplus hq) hrun
  refine ⟨mq', hq', ?_⟩
  -- with nobody left to take a message, the surplus is all there is
  have hlength : mq'.messages.length = (view s' q mq').waiting + k := hs'.length
  rw [hquiet.waiting_eq, Nat.zero_add] at hlength
  rw [← List.length_eq_zero_iff, hlength, hk]
  simp

/-- When every message arrives while the registration of its queue is in place, no
    message is ever stranded. In any run, a quiescent queue is empty exactly when
    that was so for each of its messages. -/
theorem noneStranded_iff (d : Delivery) (h : Opened s) (es : List Event) :
    (Runs.StepsMeet (step d) (fun s e => ∀ q, Timely d q s e) s es →
        Runs.Always (step d) NoneStranded s es) ∧
      ∀ s', es.foldlM (step d) s = some s' → ∀ q, s.queues q ≠ none → Quiescent s' q →
        ∃ mq, s'.queues q = some mq ∧
          (mq.messages = [] ↔ Runs.StepsMeet (step d) (Timely d q) s es) := by
  constructor
  · intro htimely
    -- no queue has a surplus
    apply Runs.Always.of_invariant (J := fun s => ∀ q mq, s.queues q = some mq →
      OneShot.Surplus 0 (view s q mq)) _ _ (fun q mq hq => h.surplus hq) htimely
    · intro s hs q mq hq hquiet
      have hlength : mq.messages.length = (view s q mq).waiting + 0 := (hs q mq hq).length
      rw [hquiet.waiting_eq] at hlength
      exact List.length_eq_zero_iff.mp hlength
    · intro s e s' hs ht hstep q mq' hq'
      cases hq : s.queues q with
      | none =>
        rw [queues_eq_none hq hstep] at hq'
        cases hq'
      | some mq =>
        obtain ⟨mq₁, hq₁, hqstep⟩ := step_queueStep hq hstep
        obtain rfl : mq' = mq₁ := Option.some.inj (hq'.symm.trans hq₁)
        obtain ⟨k, hk, hiff⟩ := (hs q mq hq).step hqstep
        obtain rfl : k = 0 := hiff.mpr ⟨rfl, ht q⟩
        exact hk
  · intro s' hrun q hne hquiet
    obtain ⟨mq, hq⟩ := Option.ne_none_iff_exists'.mp hne
    exact quiescent_empty_iff h hrun hq hquiet

/-- One queue, as `openMessageQueue` leaves it. -/
def oneQueue : State :=
  { queues := fun q => if q = 0 then some ⟨[], 10, true, List.replicate (maxSize + 1) 0⟩ else none,
    pending := [], handlers := [], calls := [], exited := false }

/-- The server with one queue starts with it open. -/
theorem opened_oneQueue : Opened oneQueue := by
  refine ⟨fun q mq hq => ?_, rfl, rfl⟩
  have hq' : (if q = 0 then some (Queue.mk [] 10 true (List.replicate (maxSize + 1) 0)) else none) =
      some mq := hq
  split at hq'
  · cases hq'
    exact ⟨rfl, rfl⟩
  · cases hq'

/-- One message, received before anything else is sent. -/
theorem noneStranded_iff_one_message :
    Runs.Always (step .thread) NoneStranded oneQueue
      [.send 0 [104, 105], .deliver 0, .handle 0, .handle 0, .handle 0, .handle 0] := by
  apply (noneStranded_iff .thread opened_oneQueue _).1
  apply (Runs.stepsMeet_cons rfl).mpr
  constructor
  · intro q hq _ mq hmq
    subst hq
    cases hmq
    exact ⟨rfl, fun hd => by cases hd⟩
  · exact ⟨fun _ => trivial, fun _ _ => ⟨fun _ => trivial, fun _ _ => ⟨fun _ => trivial,
      fun _ _ => ⟨fun _ => trivial, fun _ _ => ⟨fun _ => trivial, fun _ _ => trivial⟩⟩⟩⟩⟩

/-- Two messages are sent before the handler runs: it receives the first one and
    registers again, and the second one stays, however notifications are delivered. -/
theorem second_message_stranded :
    Opened oneQueue ∧ ∀ d, ¬ Runs.Always (step d) NoneStranded oneQueue
      [.send 0 [104, 105], .send 0 [104, 111], .deliver 0, .handle 0, .handle 0, .handle 0,
        .handle 0] := by
  refine ⟨opened_oneQueue, fun d h => ?_⟩
  have hquiet : ∀ s : State, s.pending = [] → s.handlers = [] → Quiescent s 0 := by
    intro s hp hh
    exact ⟨by rw [hp]; simp, by rw [hh]; simp⟩
  cases d with
  | thread => cases h.final rfl 0 _ rfl (hquiet _ rfl rfl)
  | queuedSignal => cases h.final rfl 0 _ rfl (hquiet _ rfl rfl)
  | mergedSignal => cases h.final rfl 0 _ rfl (hquiet _ rfl rfl)

end AsyncMQ
