import CSnippets.Native.MessageQueueServers

/-!
# Failed opens and the end of the servers

`openMessageQueue` links its record before anything can fail, and its `error` exit only
unlinks the name. So a call that returns -1 leaves a connection more in the list than
before, whatever has failed; and where the name was open already, it takes the name away
from the queue that has it.

`closeMsgQueues` goes on from the record that it has just freed.
-/

namespace MqServers

open SentinelList

variable {s s' : State} {l : List (Addr × MqInfo)} {name : Name} {callback : Nat}
  {args : Option Nat} {o : Outcome} {server : Server} {p : Addr}

/-- An access to live memory gives what is there. -/
@[simp] theorem access_some {α : Type} (x : α) : access (some x) = .ok x := rfl

/-- An access to freed memory is an error. -/
@[simp] theorem access_none {α : Type} : access (none : Option α) = .error .badMemory := rfl

/-! ## Opening -/

/-- `mq_open` registers nothing. -/
theorem mqOpen_registered (s : State) (name : Name) (fd : Int) (new : QueueId) :
    (mqOpen s name fd new).registered = s.registered := by
  unfold mqOpen
  split <;> rfl

/-- What `mq_open` does does not depend on memory. -/
theorem mqOpen_with_mem (s : State) (m : Memory MqInfo) (name : Name) (fd : Int) (new : QueueId) :
    mqOpen { s with mem := m } name fd new = { mqOpen s name fd new with mem := m } := by
  unfold mqOpen
  split <;> rfl

/-- The walk to the end stops at the last record. -/
theorem lastOf_eq (hlist : IsList s.mem headAddr l) :
    lastOf s.mem = some (lastAddr headAddr l) := by
  have hall : l.takeWhile (fun _ => true) = l := List.takeWhile_eq_self_iff.mpr fun _ _ => rfl
  rw [lastOf, seek_eq (fun _ => true) hlist hlist.length_lt_card, hall]

/-- A change of the record at the end of the list. -/
theorem exists_setLast {m : Memory MqInfo} {c : MqInfo} (hlist : IsList m headAddr (l ++ [(p, c)]))
    (f : MqInfo → MqInfo) :
    ∃ m', setVal m p f = some m' ∧ IsList m' headAddr (l ++ [(p, f c)]) := by
  have hp : p ∈ m := Seg.mem hlist p (by simp)
  obtain ⟨m', hm'⟩ := exists_setVal hp f
  exact ⟨m', hm', hlist.update hm'⟩

/-- The call with memory for its record and the name. The record is linked on every way out. -/
theorem SignalServer.openMessageQueue_eq (name : Name) (hlist : IsList s.mem headAddr l)
    (hp : p ∉ s.mem) (hrecord : o.record = some p) (hname : o.name = true) :
    ∃ m₁ c₁ m₂ c₂, IsList m₁ headAddr (l ++ [(p, c₁)]) ∧ IsList m₂ headAddr (l ++ [(p, c₂)]) ∧
      SignalServer.openMessageQueue s name o =
        if o.mqOpen = -1 ∨ o.sigaction = false then
          openError { mqOpen s name o.mqOpen o.newQueue with mem := m₁ } name
        else if o.fcntl = false then .error .exited
        else
          match mqNotify { mqOpen s name o.mqOpen o.newQueue with mem := m₂ } o.mqOpen p
            o.notify with
          | none => openError { mqOpen s name o.mqOpen o.newQueue with mem := m₂ } name
          | some s => .ok (0, s) := by
  -- from here on the record is in the list; the other writes only change it
  obtain ⟨ma, mb, halloc, hlink, hb⟩ := hlist.exists_append hp MqInfo.zero
  obtain ⟨mc, hset, hc⟩ := exists_setLast hb fun c => { c with name := name }
  obtain ⟨m₁, hset₁, h₁⟩ := exists_setLast hc fun c => { c with fd := o.mqOpen }
  obtain ⟨m₂, hset₂, h₂⟩ := exists_setLast h₁ fun c => { c with ev := some p }
  refine ⟨m₁, _, m₂, _, h₁, h₂, ?_⟩
  simp only [SignalServer.openMessageQueue, lastOf_eq hlist, hrecord, halloc, hlink, hname, hset,
    mqOpen_with_mem, hset₁, hset₂, access_some, bind, Except.bind]
  by_cases hopen : o.mqOpen = -1
  · simp [hopen]
  · by_cases hsig : o.sigaction = false
    · simp [hopen, hsig]
    · simp only [hopen, hsig, if_false]
      rfl

/-- When all allocations succeed, the record is linked and what follows depends on the kernel. -/
theorem ThreadServer.openMessageQueue_eq (name : Name) (callback : Nat) (args : Option Nat)
    (hlist : IsList s.mem headAddr l) (hp : p ∉ s.mem)
    (hrecord : o.record = some p) (hname : o.name = true) (hbuffer : o.buffer = true) :
    ∃ m c, IsList m headAddr (l ++ [(p, c)]) ∧
      ThreadServer.openMessageQueue s name callback args o =
        if o.mqOpen = 0 then .error .aborted
        else
          match mqNotify { mqOpen s (47 :: name) o.mqOpen o.newQueue with mem := m } o.mqOpen p
            o.notify with
          | none => openError { mqOpen s (47 :: name) o.mqOpen o.newQueue with mem := m } name
          | some s => .ok (0, s) := by
  obtain ⟨ma, mb, halloc, hlink, hb⟩ := hlist.exists_append hp MqInfo.zero
  obtain ⟨mc, hset, hc⟩ := exists_setLast hb fun c =>
    { c with
      name := 47 :: name, buffer := List.replicate (maxSize + 1) 0, callback := callback,
      args := args }
  obtain ⟨md, hset₁, hd⟩ := exists_setLast hc fun c => { c with fd := o.mqOpen }
  obtain ⟨m, hset₂, hm⟩ := exists_setLast hd fun c => { c with ev := some p }
  refine ⟨m, _, hm, ?_⟩
  simp only [ThreadServer.openMessageQueue, lastOf_eq hlist, hrecord, halloc, hlink, hname, hbuffer,
    hset, mqOpen_with_mem, hset₁, hset₂, access_some, bind, Except.bind]
  rfl

/-- The name that is opened. -/
def opened (server : Server) (name : Name) : Name :=
  match server with
  | .signal => name
  | .thread => 47 :: name

/-- The registration for the queue of a name is refused: the kernel lacks the means, or the
    process has registered for the queue already. -/
def Refused (s : State) (name : Name) (o : Outcome) : Prop :=
  o.notify = false ∨ s.registered ((s.names name).getD o.newQueue) ≠ none

/-- A step behind the allocations fails with the return value -1. -/
def Fails (server : Server) (s : State) (name : Name) (o : Outcome) : Prop :=
  match server with
  | .signal => o.record ≠ none ∧ o.name = true ∧
      (o.mqOpen = -1 ∨ o.sigaction = false ∨ o.fcntl = true ∧ Refused s name o)
  | .thread => o.record ≠ none ∧ o.name = true ∧ o.buffer = true ∧
      (o.mqOpen = -1 ∨ o.mqOpen ≠ 0 ∧ Refused s (47 :: name) o)

/-- `mq_notify` for the queue just opened. -/
theorem mqNotify_eq_none (s : State) (name : Name) (o : Outcome) (p : Addr) (m : Memory MqInfo) :
    mqNotify { mqOpen s name o.mqOpen o.newQueue with mem := m } o.mqOpen p o.notify = none ↔
      o.mqOpen = -1 ∨ Refused s name o := by
  by_cases hopen : o.mqOpen = -1
  · simp only [mqNotify, hopen]
    split <;> simp
  · simp only [mqNotify, mqOpen, hopen, if_false, Function.update_self, Refused, false_or]
    by_cases hbusy : s.registered ((s.names name).getD o.newQueue) = none
    · cases hnotify : o.notify <;> simp [hbusy, hopen]
    · simp [hbusy]

/-- What a call that returns -1 has done. -/
structure Failed (server : Server) (s s' : State) (l : List (Addr × MqInfo)) (name : Name)
    (o : Outcome) : Prop where
  list : ∃ p c, IsList s'.mem headAddr (l ++ [(p, c)])
  registered : s'.registered = s.registered
  names : s'.names =
    Function.update (mqOpen s (opened server name) o.mqOpen o.newQueue).names name none

/-- The error path leaves the new record in the list and removes the name it is given. -/
theorem failed_openError {m : Memory MqInfo} {c : MqInfo} {r : Int}
    (hm : IsList m headAddr (l ++ [(p, c)]))
    (h : openError { mqOpen s (opened server name) o.mqOpen o.newQueue with mem := m } name =
      .ok (r, s')) : Failed server s s' l name o := by
  rw [openError, Except.ok.injEq, Prod.mk.injEq] at h
  rw [← h.2]
  exact ⟨⟨p, c, hm⟩, mqOpen_registered .., rfl⟩

/-- Without memory for the record or what hangs off it no call returns. -/
theorem openMessageQueue_unallocated (name : Name) (callback : Nat) (args : Option Nat)
    (hlist : IsList s.mem headAddr l)
    (hfresh : ∀ p, o.record = some p → p ∉ s.mem)
    (hmemory : o.record = none ∨ o.name = false ∨ server = .thread ∧ o.buffer = false) :
    ∃ halt, openMessageQueue server s name callback args o = .error halt := by
  cases hrecord : o.record with
  | none =>
    cases server with
    | signal =>
      -- the server with signals writes through the null pointer
      refine ⟨.nullPointer, ?_⟩
      simp [openMessageQueue, SignalServer.openMessageQueue, lastOf_eq hlist, hrecord, bind,
        Except.bind]
    | thread =>
      -- the server with threads tests it
      refine ⟨.aborted, ?_⟩
      simp [openMessageQueue, ThreadServer.openMessageQueue, lastOf_eq hlist, hrecord, bind,
        Except.bind]
  | some p =>
    obtain ⟨ma, mb, halloc, hlink, -⟩ := hlist.exists_append (hfresh p hrecord) MqInfo.zero
    rw [hrecord] at hmemory
    cases server with
    | signal =>
      -- from here on both test what they allocate
      have hname : o.name = false := by simpa using hmemory
      refine ⟨.exited, ?_⟩
      simp [openMessageQueue, SignalServer.openMessageQueue, lastOf_eq hlist, hrecord, halloc, hlink,
        hname, bind, Except.bind]
    | thread =>
      have hmissing : o.name = false ∨ o.buffer = false := by simpa using hmemory
      refine ⟨.aborted, ?_⟩
      simp [openMessageQueue, ThreadServer.openMessageQueue, lastOf_eq hlist, hrecord, halloc, hlink,
        hmissing, bind, Except.bind]

/-- In the signal server -1 means that a step behind the allocations failed, and that the record
    stays. -/
theorem SignalServer.openMessageQueue_failed (hlist : IsList s.mem headAddr l) (hp : p ∉ s.mem)
    (hrecord : o.record = some p) (hname : o.name = true)
    (h : SignalServer.openMessageQueue s name o = .ok (-1, s')) :
    Fails .signal s name o ∧ Failed .signal s s' l name o := by
  have hsome : o.record ≠ none := by simp [hrecord]
  obtain ⟨m₁, c₁, m₂, c₂, h₁, h₂, heq⟩ :=
    SignalServer.openMessageQueue_eq name hlist hp hrecord hname
  rw [heq] at h
  split at h
  · -- `mq_open` or `sigaction`
    rename_i hstep
    exact ⟨⟨hsome, hname, hstep.imp_right .inl⟩, failed_openError h₁ h⟩
  · rename_i hstep
    split at h
    · cases h
    · rename_i hfcntl
      split at h
      · -- `mq_notify`, for a queue that is open
        rename_i hnotify
        rw [mqNotify_eq_none] at hnotify
        have hrefused := hnotify.resolve_left fun hopen => hstep (.inl hopen)
        rw [Bool.not_eq_false] at hfcntl
        exact ⟨⟨hsome, hname, .inr (.inr ⟨hfcntl, hrefused⟩)⟩, failed_openError h₂ h⟩
      · cases h

/-- In the thread server -1 means that a step behind the allocations failed, and that the record
    stays. -/
theorem ThreadServer.openMessageQueue_failed (hlist : IsList s.mem headAddr l) (hp : p ∉ s.mem)
    (hrecord : o.record = some p) (hname : o.name = true) (hbuffer : o.buffer = true)
    (h : ThreadServer.openMessageQueue s name callback args o = .ok (-1, s')) :
    Fails .thread s name o ∧ Failed .thread s s' l name o := by
  have hsome : o.record ≠ none := by simp [hrecord]
  obtain ⟨m, c, hm, heq⟩ :=
    ThreadServer.openMessageQueue_eq name callback args hlist hp hrecord hname hbuffer
  rw [heq] at h
  split at h
  · cases h
  · rename_i hzero
    split at h
    · rename_i hnotify
      rw [mqNotify_eq_none] at hnotify
      have hstep := hnotify.imp_right fun hrefused => And.intro hzero hrefused
      exact ⟨⟨hsome, hname, hbuffer, hstep⟩, failed_openError hm h⟩
    · cases h

/-- A call that returns -1 has failed at a step, and leaves its record in the list. -/
theorem openMessageQueue_failed (hlist : IsList s.mem headAddr l)
    (hfresh : ∀ p, o.record = some p → p ∉ s.mem)
    (h : openMessageQueue server s name callback args o = .ok (-1, s')) :
    Fails server s name o ∧ Failed server s s' l name o := by
  have hmemory : ¬ (o.record = none ∨ o.name = false ∨ server = .thread ∧ o.buffer = false) := by
    intro hmemory
    obtain ⟨halt, hhalt⟩ :=
      openMessageQueue_unallocated name callback args hlist hfresh hmemory
    rw [hhalt] at h
    cases h
  rw [not_or, not_or] at hmemory
  obtain ⟨hrecord, hname, hbuffer⟩ := hmemory
  obtain ⟨p, hp⟩ := Option.ne_none_iff_exists'.mp hrecord
  rw [Bool.not_eq_false] at hname
  cases server with
  | signal => exact SignalServer.openMessageQueue_failed hlist (hfresh p hp) hp hname h
  | thread =>
    have hbuffer' : o.buffer = true := by simpa using hbuffer
    exact ThreadServer.openMessageQueue_failed hlist (hfresh p hp) hp hname hbuffer' h

/-- Each of these steps makes the call return -1. -/
theorem openMessageQueue_of_fails (callback : Nat) (args : Option Nat)
    (hlist : IsList s.mem headAddr l) (hfresh : ∀ p, o.record = some p → p ∉ s.mem)
    (hfails : Fails server s name o) :
    ∃ s', openMessageQueue server s name callback args o = .ok (-1, s') := by
  cases server with
  | signal =>
    obtain ⟨hrecord, hname, hstep⟩ := hfails
    obtain ⟨p, hp⟩ := Option.ne_none_iff_exists'.mp hrecord
    obtain ⟨m₁, c₁, m₂, c₂, -, -, heq⟩ :=
      SignalServer.openMessageQueue_eq name hlist (hfresh p hp) hp hname
    rw [openMessageQueue, heq]
    -- `mq_open` and `sigaction` fail early, `mq_notify` behind them
    split
    · exact ⟨_, rfl⟩
    · rename_i hearly
      rw [not_or] at hearly
      obtain ⟨hfcntl, hrefused⟩ := (hstep.resolve_left hearly.1).resolve_left hearly.2
      -- the queue is opened, and what fails is the notification
      have hnotify := (mqNotify_eq_none s name o p m₂).mpr (.inr hrefused)
      rw [if_neg (by simp [hfcntl]), hnotify]
      exact ⟨_, rfl⟩
  | thread =>
    obtain ⟨hrecord, hname, hbuffer, hstep⟩ := hfails
    obtain ⟨p, hp⟩ := Option.ne_none_iff_exists'.mp hrecord
    obtain ⟨m, c, -, heq⟩ := ThreadServer.openMessageQueue_eq name callback args hlist (hfresh p hp)
      hp hname hbuffer
    have hnotify := (mqNotify_eq_none s (47 :: name) o p m).mpr (hstep.imp_right And.right)
    have hzero : o.mqOpen ≠ 0 := by
      rcases hstep with hopen | hrest
      · omega
      · exact hrest.1
    rw [openMessageQueue, heq, if_neg hzero, hnotify]
    exact ⟨_, rfl⟩

/-- The connections, the names in use and the registrations of the connections are what they
    were. -/
structure Unchanged (s s' : State) (l : List (Addr × MqInfo)) : Prop where
  list : IsList s'.mem headAddr l
  names : ∀ name, s'.names name = none ↔ s.names name = none
  registered : ∀ q, ∀ a ∈ l.map Prod.fst, s'.registered q = some a ↔ s.registered q = some a

/-- Where the call returns -1 everything is what it was. -/
def RestoresOnError (server : Server) (s : State) (l : List (Addr × MqInfo)) (name : Name)
    (callback : Nat) (args : Option Nat) (o : Outcome) : Prop :=
  ∀ s', openMessageQueue server s name callback args o = .ok (-1, s') → Unchanged s s' l

/-- After a failed call the list is longer than before. -/
theorem Failed.not_unchanged (h : Failed server s s' l name o) : ¬ Unchanged s s' l := by
  intro hsame
  obtain ⟨p, c, hlist⟩ := h.list
  have hlen := congrArg List.length (hsame.list.unique hlist)
  rw [List.length_append, List.length_singleton] at hlen
  omega

/-- In both servers and for every list of connections, a call that returns -1 leaves everything
    as it was if and only if no step fails with -1: `mq_open`, `sigaction` (in the signal server)
    or `mq_notify`, which fails for a queue that is registered already. -/
theorem openMessageQueue_unchanged_iff (server : Server) (s : State) (l : List (Addr × MqInfo))
    (hlist : IsList s.mem headAddr l) (name : Name) (callback : Nat) (args : Option Nat)
    (o : Outcome) (hfresh : ∀ p, o.record = some p → p ∉ s.mem) :
    RestoresOnError server s l name callback args o ↔ ¬ Fails server s name o := by
  constructor
  · intro hunchanged hfails
    obtain ⟨s', hs'⟩ := openMessageQueue_of_fails callback args hlist hfresh hfails
    exact (openMessageQueue_failed hlist hfresh hs').2.not_unchanged (hunchanged s' hs')
  · intro hfails s' hs'
    exact absurd (openMessageQueue_failed hlist hfresh hs').1 hfails

/-- A record for the queue `name`. -/
def record (a : Addr) (fd : Int) (name : Name) : MqInfo :=
  { MqInfo.zero with fd := fd, name := name, ev := some a }

/-- One queue, "/q", is open at descriptor 3, with its record at 8. -/
def oneQueue : State :=
  { mem := (Finmap.singleton headAddr ⟨MqInfo.zero, some 8⟩).insert 8 ⟨record 8 3 [47, 113], none⟩,
    names := Function.update (fun _ => none) [47, 113] (some 0),
    fds := Function.update (fun _ => none) 3 (some 0),
    registered := Function.update (fun _ => none) 0 (some 8) }

/-- The server with one queue has a list of one record. -/
theorem isList_oneQueue : IsList oneQueue.mem headAddr [(8, record 8 3 [47, 113])] :=
  ⟨rfl, rfl, rfl⟩

/-- Every call succeeds that can. -/
def granted : Outcome :=
  { record := some 16, name := true, buffer := true, mqOpen := 4, newQueue := 1, sigaction := true,
    fcntl := true, notify := true }

/-- The thread server can open a second queue, and there is no error to restore from. -/
theorem openMessageQueue_unchanged_second :
    RestoresOnError .thread oneQueue [(8, record 8 3 [47, 113])] [114] 0 none granted :=
  (openMessageQueue_unchanged_iff .thread oneQueue _ isList_oneQueue [114] 0 none granted
    (fun p hp => Option.some.inj hp ▸ by decide)).mpr fun hfails =>
      hfails.2.2.2.elim (by decide) fun hrest => hrest.2.elim (by decide) fun hbusy => hbusy rfl

/-- "/q" is opened again: its queue has a registration, and the call fails. -/
theorem second_open_changes :
    ¬ RestoresOnError .signal oneQueue [(8, record 8 3 [47, 113])] [47, 113] 0 none granted := by
  intro hunchanged
  have hfresh : ∀ p, granted.record = some p → p ∉ oneQueue.mem :=
    fun p hp => Option.some.inj hp ▸ by decide
  have hbusy : Refused oneQueue [47, 113] granted := .inr (by decide)
  have hfails : Fails .signal oneQueue [47, 113] granted :=
    ⟨by decide, rfl, .inr (.inr ⟨rfl, hbusy⟩)⟩
  obtain ⟨s', hs'⟩ := openMessageQueue_of_fails 0 none isList_oneQueue hfresh hfails
  exact (openMessageQueue_failed isList_oneQueue hfresh hs').2.not_unchanged (hunchanged s' hs')

/-! ## Closing -/

/-- `mq_close` leaves the records alone. -/
theorem mqClose_mem (s : State) (fd : Int) : (mqClose s fd).mem = s.mem := by
  unfold mqClose
  split <;> rfl

/-- The round after a record was freed reads its link. -/
theorem closeLoop_freed (server : Server) (fuel : Nat) {a : Addr} (ha : nextOf s.mem a = none) :
    closeLoop server (fuel + 1) a s = .error .badMemory := by
  rw [closeLoop, ha]
  rfl

/-- With a connection in the list the loop comes as far as the end of its first round. -/
theorem closeMsgQueues_cons (server : Server) {a : Addr} {c : MqInfo}
    (hlist : IsList s.mem headAddr ((a, c) :: l)) :
    closeMsgQueues server s sigint = .error .badMemory := by
  obtain ⟨hnext, hval, -⟩ := hlist
  obtain ⟨m, hm⟩ := exists_free (mem_of_valOf hval)
  have hmem : (mqUnlink (mqClose s c.fd) c.name).mem = s.mem := mqClose_mem s c.fd
  have hfreed : nextOf m a = none := by rw [nextOf_free hm, if_pos rfl]
  -- the second round starts at `a`
  obtain ⟨fuel, hfuel⟩ : ∃ k, s.mem.keys.card = k + 1 := by
    have hmem : headAddr ∈ s.mem.keys := Finmap.mem_keys.mpr (mem_of_nextOf hnext)
    exact ⟨s.mem.keys.card - 1, by have := Finset.card_pos.mpr ⟨_, hmem⟩; omega⟩
  have hround := closeLoop_freed server fuel
    (show nextOf { mqUnlink (mqClose s c.fd) c.name with mem := m }.mem a = none from hfreed)
  rw [closeMsgQueues, if_pos rfl, hfuel, closeLoop]
  simp [hnext, hval, hmem, hm, hround, bind, Except.bind]

/-- In both servers `closeMsgQueues(SIGINT)` closes, unlinks and frees every connection once, in
    the order of the list, without a read of freed memory, if and only if there is none. -/
theorem closeMsgQueues_closes_iff (server : Server) (s : State) (l : List (Addr × MqInfo))
    (hlist : IsList s.mem headAddr l) :
    (∃ s', closeMsgQueues server s sigint =
      .ok (l.flatMap fun e => closing server e.1 e.2, s')) ↔ l = [] := by
  constructor
  · rintro ⟨s', hs'⟩
    cases l with
    | nil => rfl
    | cons e l =>
      rw [closeMsgQueues_cons server hlist] at hs'
      cases hs'
  · rintro rfl
    have hnext : nextOf s.mem headAddr = some none := hlist
    refine ⟨s, ?_⟩
    rw [closeMsgQueues, if_pos rfl, closeLoop, hnext]
    rfl

/-- No queue is open. -/
def noQueue : State :=
  { mem := Finmap.singleton headAddr ⟨MqInfo.zero, none⟩, names := fun _ => none,
    fds := fun _ => none, registered := fun _ => none }

/-- A server without queues returns from the handler of `SIGINT`. -/
theorem closeMsgQueues_closes_none : ∃ s', closeMsgQueues .signal noQueue sigint = .ok ([], s') :=
  (closeMsgQueues_closes_iff .signal noQueue [] (show nextOf _ _ = _ from rfl)).mpr rfl

/-- One queue is open: after its record is freed its link is read. -/
theorem freed_link_read :
    ¬ ∃ s', closeMsgQueues .thread oneQueue sigint =
      .ok (closing .thread 8 (record 8 3 [47, 113]), s') := by
  rintro ⟨s', hs'⟩
  rw [closeMsgQueues_cons .thread isList_oneQueue] at hs'
  cases hs'

end MqServers
