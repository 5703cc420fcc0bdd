import CSnippets.ForStd.Histories
import CSnippets.ForStd.Runs
import CSnippets.Native.SingleUdpSignals

/-!
# A registration that is interrupted

While `socketOpenUDP` stores the new descriptor, the callback and its arguments in `cb`, they
need not belong together. A signal that comes in then is one of another socket, as the new
one raises none until all three are stored; so a callback is always called with the
descriptor and the arguments it was registered with, and only the latest registration is served.
The socket is bound last, and so no signal finds the process without a handler.
-/

namespace SingleUdp

open Histories

variable {s s' : State} {fd : Int} {history : List Entry} {e : Entry}

/-! ## What the history says -/

/-- What the entry registers. -/
def Entry.registration? : Entry → Option AsyncIOCallback
  | .registered new => some new
  | _ => none

/-- What arrives at the socket with the entry. -/
def Entry.arrivalAt? (fd : Int) : Entry → Option Packet
  | .arrived fd' packet => if fd' = fd then some packet else none
  | _ => none

/-- What is received from the socket with the entry. -/
def Entry.receivedAt? (fd : Int) : Entry → Option Packet
  | .received fd' packet => if fd' = fd then some packet else none
  | _ => none

/-- What has been registered. -/
def registered (history : List Entry) : List AsyncIOCallback :=
  history.filterMap Entry.registration?

/-- The latest registration. -/
def last (history : List Entry) : Option AsyncIOCallback := (registered history).getLast?

/-- What has arrived at a socket. -/
def arrivedAt (fd : Int) (history : List Entry) : List Packet :=
  history.filterMap (Entry.arrivalAt? fd)

/-- What callbacks have received from a socket. -/
def receivedAt (fd : Int) (history : List Entry) : List Packet :=
  history.filterMap (Entry.receivedAt? fd)

/-- Only what was registered last is called, and receives. -/
def Valid (before : List Entry) : Entry → Prop
  | .called fd callback args =>
    last before = some { fileDesc := fd, callback := some callback, args := args }
  | .received fd _ => ∃ new, last before = some new ∧ new.fileDesc = fd
  | _ => True

/-- The registration just made is the latest. -/
theorem last_registered (history : List Entry) (new : AsyncIOCallback) :
    last (history ++ [.registered new]) = some new := by
  simp [last, registered, Entry.registration?]

/-- Other entries register nothing. -/
theorem registered_other (he : e.registration? = none) :
    registered (history ++ [e]) = registered history := by
  simp [registered, he]

/-- Other entries leave the latest registration as it is. -/
theorem last_other (he : e.registration? = none) : last (history ++ [e]) = last history := by
  rw [last, registered_other he, last]

/-- What is no arrival at a socket leaves its arrivals as they are. -/
theorem arrivedAt_other (he : e.arrivalAt? fd = none) :
    arrivedAt fd (history ++ [e]) = arrivedAt fd history := by
  simp [arrivedAt, he]

/-- What is received elsewhere leaves the receipts of a socket as they are. -/
theorem receivedAt_other (he : e.receivedAt? fd = none) :
    receivedAt fd (history ++ [e]) = receivedAt fd history := by
  simp [receivedAt, he]

/-! ## Steps -/

/-- All that a step can do. -/
inductive Turn (s : State) : State → Prop where
  | stay (returned : List Int) : Turn s { s with returned := returned }
  | opens (new : AsyncIOCallback) (hclosed : (s.sockets new.fileDesc).isOpen = false)
      (hpc : s.pc = .idle) :
    Turn s { s.setSocket new.fileDesc { s.sockets new.fileDesc with isOpen := true } with
      pc := .fileDesc new }
  | fileDesc (new : AsyncIOCallback) (hpc : s.pc = .fileDesc new) (hrunning : s.running = none) :
    Turn s { s.log (.registered new) with
      pc := .callback new, cb := { s.cb with fileDesc := new.fileDesc } }
  | callback (new : AsyncIOCallback) (hpc : s.pc = .callback new) :
    Turn s { s with pc := .args new, cb := { s.cb with callback := new.callback } }
  | args (new : AsyncIOCallback) (hpc : s.pc = .args new) :
    Turn s { s with pc := .setfl new.fileDesc, cb := { s.cb with args := new.args } }
  | setfl (fd : Int) (ok : Bool) (hpc : s.pc = .setfl fd) :
    Turn s { s.setSocket fd { s.sockets fd with async := ok } with pc := .setown fd }
  | setown (fd : Int) (ok : Bool) (hpc : s.pc = .setown fd) :
    Turn s { s.setSocket fd { s.sockets fd with owned := ok } with pc := .sigaction fd }
  | sigaction (fd : Int) (ok : Bool) (hpc : s.pc = .sigaction fd) :
    Turn s { s.log (.sigaction ok) with pc := .bind fd, handlerSet := s.handlerSet || ok }
  | bind (fd : Int) (ok : Bool) (returned : List Int) (hpc : s.pc = .bind fd) :
    Turn s { s.setSocket fd { s.sockets fd with bound := ok } with
      pc := .idle, returned := returned }
  | arrives (fd : Int) (packet : Packet) (pending : Option Int)
      (hbound : (s.sockets fd).bound = true)
      (hpending : pending = s.pending ∨
        (s.sockets fd).async = true ∧ pending = some (s.pending.getD fd)) :
    Turn s { (s.setSocket fd { s.sockets fd with queue := (s.sockets fd).queue ++ [packet] }).log
      (.arrived fd packet) with pending := pending }
  | ignored : Turn s { s with pending := none }
  | called (callback : Callback) (hpending : s.pending = some s.cb.fileDesc)
      (hcallback : s.cb.callback = some callback) (clientMessage : List UInt8) :
    Turn s { s.log (.called s.cb.fileDesc callback s.cb.args) with
      pending := none
      running :=
        some { callback := callback, fd := s.cb.fileDesc, clientMessage := clientMessage } }
  | dies (fd : Int) (hpending : s.pending = some fd) (hhandler : s.handlerSet = false) :
    Turn s { s with killed := true }
  | receives (call : Running) (packet : Packet) (queue : List Packet) (printed : List Line)
      (running : Option Running) (hrunning : s.running = some call)
      (hqueue : (s.sockets call.fd).queue = packet :: queue)
      (hsame : ∀ call', running = some call' → call'.fd = call.fd) :
    Turn s { (s.setSocket call.fd { s.sockets call.fd with queue := queue }).log
      (.received call.fd packet) with printed := printed, running := running }
  | goesOn (printed : List Line) (running : Option Running)
      (hsame : ∀ call', running = some call' → s.running = some call') :
    Turn s { s with printed := printed, running := running }

/-- A step of `socketOpenUDP` behind the call of `socket`. -/
theorem next_turn {ok : Bool} (hrunning : s.running = none) (h : next s ok = some s') :
    Turn s s' := by
  rw [next] at h
  split at h
  · -- outside `socketOpenUDP` there is no next call
    cases h
  · obtain rfl := Option.some.inj h
    exact .fileDesc _ ‹_› hrunning
  · obtain rfl := Option.some.inj h
    exact .callback _ ‹_›
  · obtain rfl := Option.some.inj h
    exact .args _ ‹_›
  · obtain rfl := Option.some.inj h
    exact .setfl _ ok ‹_›
  · obtain rfl := Option.some.inj h
    exact .setown _ ok ‹_›
  · obtain rfl := Option.some.inj h
    exact .sigaction _ ok ‹_›
  · obtain rfl := Option.some.inj h
    exact .bind _ ok _ ‹_›

/-- The call of `socket` fails, or opens a descriptor that is not in use. -/
theorem socketOpenUDP_turn {callback : Option Callback} {args : Option Nat} {ret : Option Int}
    (hpc : s.pc = .idle) (h : socketOpenUDP s callback args ret = some s') : Turn s s' := by
  cases ret with
  | none =>
    obtain rfl := Option.some.inj h
    exact .stay _
  | some fd =>
    rw [socketOpenUDP] at h
    split at h
    · cases h
    · rename_i hopen
      obtain rfl := Option.some.inj h
      exact .opens { fileDesc := fd, callback := callback, args := args }
        (Bool.eq_false_iff.mpr hopen) hpc

/-- A datagram is queued and perhaps signalled, or dropped by a socket that is not bound. -/
theorem arrive_turn (s : State) (fd : Int) (packet : Packet) : Turn s (arrive s fd packet) := by
  rw [arrive]
  split
  · rename_i hbound
    apply Turn.arrives fd packet _ hbound
    split
    · rename_i harmed
      exact .inr ⟨harmed.1, rfl⟩
    · exact .inl rfl
  · exact .stay s.returned

/-- A signal calls the callback, is ignored or kills the process. -/
theorem deliver_turn (h : deliver s = some s') : Turn s s' := by
  rw [deliver] at h
  -- a signal comes in only when no callback runs
  split at h
  · rename_i fd hpending hrunning
    -- without a handler SIGIO ends the process
    split at h
    · obtain rfl := Option.some.inj h
      rw [signalHandler]
      -- only the socket whose descriptor is in `cb` is served
      split
      · rename_i hfd
        subst hfd
        split
        · exact .ignored
        · rename_i callback hcallback
          exact .called callback hpending hcallback []
      · exact .ignored
    · rename_i hhandler
      obtain rfl := Option.some.inj h
      exact .dies fd hpending (Bool.eq_false_iff.mpr hhandler)
  · cases h

/-- `recvfrom` takes a datagram, or fails. -/
theorem recvfrom_turn {call : Running} (hrunning : s.running = some call)
    (h : recvfrom s call = some s') : Turn s s' := by
  rw [recvfrom] at h
  -- with nothing queued `recvfrom` returns -1
  cases hqueue : (s.sockets call.fd).queue with
  | nil =>
    rw [hqueue] at h
    cases hcallback : call.callback with
    | socketCallback =>
      -- -1 ends the loop
      simp only [hcallback] at h
      obtain rfl := Option.some.inj h
      exact .goesOn _ none nofun
    | other n =>
      simp only [hcallback] at h
      obtain rfl := Option.some.inj h
      exact .stay s.returned
  | cons packet queue =>
    rw [hqueue] at h
    cases hcallback : call.callback with
    | socketCallback =>
      simp only [hcallback, List.head?_cons, Option.bind_eq_bind, Option.bind_eq_some_iff] at h
      -- what the callback prints does not matter here, only what is taken
      obtain ⟨⟨line, clientMessage⟩, -, h⟩ := h
      obtain rfl := Option.some.inj h
      apply Turn.receives call packet queue _ _ hrunning hqueue
      intro call' hcall'
      obtain ⟨bytes, -, rfl⟩ := Option.map_eq_some_iff.mp hcall'
      rfl
    | other n =>
      simp only [hcallback] at h
      obtain rfl := Option.some.inj h
      -- other callbacks are called on and may receive again
      exact .receives call packet queue s.printed s.running hrunning hqueue fun call' h =>
        congrArg Running.fd (Option.some.inj (h.symm.trans hrunning))

/-- Every step is one of those. -/
theorem step_turn {event : Event} (h : step s event = some s') : Turn s s' := by
  unfold step at h
  -- a process that was killed takes no step
  split at h
  · cases h
  · cases event with
    | socketOpenUDP callback args ret =>
      cases hrunning : s.running with
      | none =>
        simp only [hrunning] at h
        split at h
        · exact socketOpenUDP_turn ‹_› h
        · cases h
      | some call =>
        simp only [hrunning] at h
        cases h
    | next ok =>
      cases hrunning : s.running with
      | none =>
        simp only [hrunning] at h
        exact next_turn hrunning h
      | some call =>
        simp only [hrunning] at h
        cases h
    | arrive fd packet =>
      obtain rfl := Option.some.inj h
      exact arrive_turn s fd packet
    | deliver => exact deliver_turn h
    | recvfrom =>
      cases hrunning : s.running with
      | none =>
        simp only [hrunning] at h
        cases h
      | some call =>
        simp only [hrunning] at h
        exact recvfrom_turn hrunning h
    | returns =>
      cases hrunning : s.running with
      | none =>
        simp only [hrunning] at h
        cases h
      | some call =>
        simp only [hrunning] at h
        split at h
        · cases h
        · obtain rfl := Option.some.inj h
          exact .goesOn s.printed none nofun

/-! ## What `cb` holds -/

/-- The descriptor has been registered. -/
def Registered (s : State) (fd : Int) : Prop := ∃ new ∈ registered s.history, new.fileDesc = fd

/-- `cb` is the latest registration, if there is one. -/
def Complete (s : State) : Prop := last s.history = some s.cb ∨ last s.history = none

/-- At each place of `socketOpenUDP`. The new socket is not asynchronous before all of `cb` is
    stored. -/
def At (s : State) : Pc → Prop
  | .idle => Complete s
  | .fileDesc new =>
    Complete s ∧ (s.sockets new.fileDesc).isOpen = true ∧
      (s.sockets new.fileDesc).async = false
  | .callback new =>
    last s.history = some new ∧ s.cb.fileDesc = new.fileDesc ∧
      (s.sockets new.fileDesc).async = false
  | .args new =>
    last s.history = some new ∧ s.cb.fileDesc = new.fileDesc ∧ s.cb.callback = new.callback ∧
      (s.sockets new.fileDesc).async = false
  | .setfl fd => last s.history = some s.cb ∧ s.cb.fileDesc = fd ∧ (s.sockets fd).async = false
  | .setown _ => Complete s
  | .sigaction _ => Complete s
  | .bind _ => Complete s

/-- The sockets that raise signals are registered ones, and a signal is one of theirs. -/
structure Wired (s : State) : Prop where
  place : At s s.pc
  opened : ∀ fd, Registered s fd → (s.sockets fd).isOpen = true
  async : ∀ fd, (s.sockets fd).async = true → Registered s fd
  pending : ∀ fd, s.pending = some fd → (s.sockets fd).async = true

/-- What is known at the place where `socketOpenUDP` is. -/
theorem Wired.at_pc (h : Wired s) {pc : Pc} (hpc : s.pc = pc) : At s pc := hpc ▸ h.place

/-- There is a latest registration. -/
theorem Registered.last_ne_none (h : Registered s fd) : last s.history ≠ none := by
  obtain ⟨new, hnew, -⟩ := h
  rw [last, Ne, List.getLast?_eq_none_iff]
  exact List.ne_nil_of_mem hnew

/-- The latest registration is one of them. -/
theorem registered_of_last {new : AsyncIOCallback} (h : last s.history = some new) :
    Registered s new.fileDesc :=
  ⟨new, List.mem_of_getLast? h, rfl⟩

/-- Whenever a signal is for `cb`, all of `cb` belongs together. -/
theorem Wired.served (h : Wired s) (hpending : s.pending = some s.cb.fileDesc) :
    last s.history = some s.cb := by
  -- a pending signal is of a socket that is asynchronous, hence registered
  have hasync := h.pending _ hpending
  have hsome : last s.history ≠ none := (h.async _ hasync).last_ne_none
  have hcomplete (hcomplete : Complete s) : last s.history = some s.cb :=
    hcomplete.resolve_right hsome
  cases hpc : s.pc with
  | idle => exact hcomplete (h.at_pc hpc)
  | fileDesc new => exact hcomplete (h.at_pc hpc).1
  | callback new =>
    -- the new socket raises no signal yet
    obtain ⟨-, hfd, hnot⟩ := h.at_pc hpc
    rw [hfd, hnot] at hasync
    cases hasync
  | args new =>
    obtain ⟨-, hfd, -, hnot⟩ := h.at_pc hpc
    rw [hfd, hnot] at hasync
    cases hasync
  | setfl fd => exact (h.at_pc hpc).1
  | setown fd => exact hcomplete (h.at_pc hpc)
  | sigaction fd => exact hcomplete (h.at_pc hpc)
  | bind fd => exact hcomplete (h.at_pc hpc)

/-- A step that changes nothing in `cb` and in what is registered. -/
structure Keeps (s s' : State) : Prop where
  cb : s'.cb = s.cb
  isOpen : ∀ fd, (s'.sockets fd).isOpen = (s.sockets fd).isOpen
  async : ∀ fd, (s'.sockets fd).async = (s.sockets fd).async
  registered : registered s'.history = registered s.history

/-- A step that leaves `cb` and the registrations alone keeps the invariant. -/
theorem Wired.keep (h : Wired s) (hkeep : Keeps s s') (hplace : At s s'.pc)
    (hpending : ∀ fd, s'.pending = some fd → (s.sockets fd).async = true) : Wired s' := by
  have hlast : last s'.history = last s.history := by rw [last, hkeep.registered, last]
  have hregistered (fd : Int) : Registered s' fd ↔ Registered s fd := by
    rw [Registered, Registered, hkeep.registered]
  constructor
  · -- what is known at a place speaks of nothing that has changed
    generalize s'.pc = pc at hplace
    cases pc <;> simpa only [At, Complete, hlast, hkeep.cb, hkeep.isOpen, hkeep.async] using hplace
  · intro fd hfd
    rw [hkeep.isOpen]
    exact h.opened fd ((hregistered fd).mp hfd)
  · intro fd hfd
    rw [hkeep.async] at hfd
    exact (hregistered fd).mpr (h.async fd hfd)
  · intro fd hfd
    rw [hkeep.async]
    exact hpending fd hfd

/-- The socket that was written is found as it was written. -/
theorem setSocket_self (s : State) (fd : Int) (c : Socket) : (s.setSocket fd c).sockets fd = c :=
  Function.update_self ..

/-- Writing one socket leaves the others alone. -/
theorem setSocket_of_ne {fd' : Int} (h : fd' ≠ fd) (s : State) (c : Socket) :
    (s.setSocket fd c).sockets fd' = s.sockets fd' :=
  Function.update_of_ne h ..

/-- A socket changes, but not in this. -/
theorem setSocket_field {α : Type} (s : State) (fd : Int) (c : Socket) (field : Socket → α)
    (h : field c = field (s.sockets fd)) (fd' : Int) :
    field ((s.setSocket fd c).sockets fd') = field (s.sockets fd') := by
  by_cases hfd : fd' = fd
  · subst hfd
    rw [setSocket_self, h]
  · rw [setSocket_of_ne hfd]

/-- `socket` opens a descriptor that raises no signal yet. -/
theorem Wired.opens (h : Wired s) (new : AsyncIOCallback)
    (hclosed : (s.sockets new.fileDesc).isOpen = false) (hpc : s.pc = .idle) :
    Wired { s.setSocket new.fileDesc { s.sockets new.fileDesc with isOpen := true } with
      pc := .fileDesc new } := by
  have hasync := setSocket_field s new.fileDesc
    { s.sockets new.fileDesc with isOpen := true } Socket.async rfl
  -- a descriptor that is not in use has not been registered
  have hnot : (s.sockets new.fileDesc).async = false := by
    by_contra hne
    have hopen := h.opened _ (h.async _ (Bool.not_eq_false _ ▸ hne))
    rw [hclosed] at hopen
    cases hopen
  constructor
  · have hself := setSocket_self s new.fileDesc { s.sockets new.fileDesc with isOpen := true }
    exact ⟨h.at_pc hpc, congrArg Socket.isOpen hself, (hasync _).trans hnot⟩
  · intro fd hfd
    by_cases hnew : fd = new.fileDesc
    · subst hnew
      exact congrArg Socket.isOpen (setSocket_self s _ _)
    · exact (congrArg Socket.isOpen (setSocket_of_ne hnew s _)).trans (h.opened fd hfd)
  · intro fd hfd
    exact h.async fd ((hasync fd).symm.trans hfd)
  · intro fd hfd
    exact (hasync fd).trans (h.pending fd hfd)

/-- One more registration registers one more descriptor. -/
theorem registered_log {new : AsyncIOCallback} :
    Registered (s.log (.registered new)) fd ↔ Registered s fd ∨ new.fileDesc = fd := by
  simp [Registered, registered, State.log, Entry.registration?, or_and_right, exists_or]

/-- From the first store on `cb` is not complete, but its socket raises no signal. -/
theorem Wired.fileDesc (h : Wired s) {new : AsyncIOCallback} (hpc : s.pc = .fileDesc new) :
    Wired { s.log (.registered new) with
      pc := .callback new, cb := { s.cb with fileDesc := new.fileDesc } } := by
  obtain ⟨-, hopen, hnot⟩ := h.at_pc hpc
  constructor
  · exact ⟨last_registered s.history new, rfl, hnot⟩
  · intro fd hfd
    obtain hfd | rfl := registered_log.mp hfd
    · exact h.opened fd hfd
    · exact hopen
  · exact fun fd hfd => registered_log.mpr (.inl (h.async fd hfd))
  · exact h.pending

/-- The socket becomes asynchronous when all of `cb` is stored. -/
theorem Wired.setfl (h : Wired s) (ok : Bool) (hpc : s.pc = .setfl fd) :
    Wired { s.setSocket fd { s.sockets fd with async := ok } with pc := .setown fd } := by
  obtain ⟨hlast, hfd, hnot⟩ := h.at_pc hpc
  constructor
  · exact Or.inl hlast
  · intro fd' hfd'
    have hopen := setSocket_field s fd { s.sockets fd with async := ok } Socket.isOpen rfl fd'
    exact hopen.trans (h.opened fd' hfd')
  · intro fd' hasync
    -- the socket that becomes asynchronous is the latest registered one
    by_cases hne : fd' = fd
    · rw [hne, ← hfd]
      exact registered_of_last hlast
    · exact h.async fd' ((congrArg Socket.async (setSocket_of_ne hne s _)).symm.trans hasync)
  · intro fd' hpending
    have hasync := h.pending fd' hpending
    -- it was not asynchronous, so no signal of it is pending
    have hne : fd' ≠ fd := by
      intro heq
      rw [heq, hnot] at hasync
      cases hasync
    exact (congrArg Socket.async (setSocket_of_ne hne s _)).trans hasync

/-- Every step keeps the registrations and the sockets in accord. -/
theorem Turn.wired (hturn : Turn s s') (h : Wired s) : Wired s' := by
  cases hturn with
  | stay returned =>
    exact h.keep ⟨rfl, fun _ => rfl, fun _ => rfl, rfl⟩ h.place h.pending
  | opens new hclosed hpc => exact h.opens new hclosed hpc
  | fileDesc new hpc hrunning => exact h.fileDesc hpc
  | callback new hpc =>
    obtain ⟨hlast, hfd, hnot⟩ := h.at_pc hpc
    exact ⟨⟨hlast, hfd, rfl, hnot⟩, h.opened, h.async, h.pending⟩
  | args new hpc =>
    obtain ⟨hlast, hfd, hcallback, hnot⟩ := h.at_pc hpc
    -- with the arguments `cb` is the whole registration
    refine ⟨⟨?_, hfd, hnot⟩, h.opened, h.async, h.pending⟩
    show last s.history =
      some { fileDesc := s.cb.fileDesc, callback := s.cb.callback, args := new.args }
    rw [hlast, hfd, hcallback]
  | setfl fd ok hpc => exact h.setfl ok hpc
  | setown fd ok hpc =>
    have hplace : At s (.setown fd) := h.at_pc hpc
    exact h.keep ⟨rfl, setSocket_field _ _ _ Socket.isOpen rfl,
      setSocket_field _ _ _ Socket.async rfl, rfl⟩ hplace h.pending
  | sigaction fd ok hpc =>
    have hplace : At s (.sigaction fd) := h.at_pc hpc
    exact h.keep ⟨rfl, fun _ => rfl, fun _ => rfl, registered_other rfl⟩ hplace h.pending
  | bind fd ok returned hpc =>
    have hplace : At s (.bind fd) := h.at_pc hpc
    exact h.keep ⟨rfl, setSocket_field _ _ _ Socket.isOpen rfl,
      setSocket_field _ _ _ Socket.async rfl, rfl⟩ hplace h.pending
  | arrives fd packet pending hbound hpending =>
    -- a signal is raised at most by the socket that the datagram arrives at
    refine h.keep ⟨rfl, setSocket_field _ _ _ Socket.isOpen rfl,
      setSocket_field _ _ _ Socket.async rfl, registered_other rfl⟩ h.place ?_
    intro fd' hfd'
    obtain hsame | ⟨hasync, hraised⟩ := hpending
    · exact h.pending fd' (hsame.symm.trans hfd')
    · -- the one that was pending before, or the one of this socket
      have hget : s.pending.getD fd = fd' := Option.some.inj (hraised.symm.trans hfd')
      cases hbefore : s.pending with
      | none =>
        rw [hbefore, Option.getD_none] at hget
        rw [← hget, hasync]
      | some fd'' =>
        rw [hbefore, Option.getD_some] at hget
        exact h.pending fd' (hget ▸ hbefore)
  | ignored => exact h.keep ⟨rfl, fun _ => rfl, fun _ => rfl, rfl⟩ h.place nofun
  | called callback hpending hcallback clientMessage =>
    exact h.keep ⟨rfl, fun _ => rfl, fun _ => rfl, registered_other rfl⟩ h.place nofun
  | dies fd hpending hhandler =>
    exact h.keep ⟨rfl, fun _ => rfl, fun _ => rfl, rfl⟩ h.place h.pending
  | receives call packet queue printed running hrunning hqueue hsame =>
    exact h.keep ⟨rfl, setSocket_field _ _ _ Socket.isOpen rfl,
      setSocket_field _ _ _ Socket.async rfl, registered_other rfl⟩ h.place h.pending
  | goesOn printed running hsame =>
    exact h.keep ⟨rfl, fun _ => rfl, fun _ => rfl, rfl⟩ h.place h.pending

/-! ## Who is called -/

/-- What has been called and received was for the latest registration. -/
structure Routed (s : State) : Prop where
  justified : Justified Valid s.history
  /-- The callback that runs is the one registered last. -/
  running : ∀ call, s.running = some call →
    ∃ new, last s.history = some new ∧ new.fileDesc = call.fd

/-- One more entry, and perhaps another callback that runs. -/
theorem Routed.log (h : Routed s) (hvalid : Valid s.history e) (he : e.registration? = none)
    (hhistory : s'.history = s.history ++ [e])
    (hrunning : ∀ call, s'.running = some call →
      ∃ new, last s.history = some new ∧ new.fileDesc = call.fd) : Routed s' := by
  constructor
  · rw [hhistory]
    exact justified_concat.mpr ⟨h.justified, hvalid⟩
  · rw [hhistory, last_other he]
    exact hrunning

/-- Every step calls and receives only for the latest registration. -/
theorem Turn.routed (hturn : Turn s s') (hwired : Wired s) (h : Routed s) : Routed s' := by
  cases hturn with
  | stay returned => exact ⟨h.justified, h.running⟩
  | opens new hclosed hpc => exact ⟨h.justified, h.running⟩
  | fileDesc new hpc hrunning =>
    constructor
    · exact justified_concat.mpr ⟨h.justified, trivial⟩
    · intro call hcall
      -- nothing runs while a callback is registered
      cases hrunning.symm.trans hcall
  | callback new hpc => exact ⟨h.justified, h.running⟩
  | args new hpc => exact ⟨h.justified, h.running⟩
  | setfl fd ok hpc => exact ⟨h.justified, h.running⟩
  | setown fd ok hpc => exact ⟨h.justified, h.running⟩
  | sigaction fd ok hpc => exact h.log (e := .sigaction ok) trivial rfl rfl h.running
  | bind fd ok returned hpc => exact ⟨h.justified, h.running⟩
  | arrives fd packet pending hbound hpending =>
    exact h.log (e := .arrived fd packet) trivial rfl rfl h.running
  | ignored => exact ⟨h.justified, h.running⟩
  | called callback hpending hcallback clientMessage =>
    -- a signal for `cb` finds it complete
    have hserved : last s.history = some s.cb := hwired.served hpending
    apply h.log (e := .called s.cb.fileDesc callback s.cb.args) _ rfl rfl
    · rintro call ⟨⟩
      exact ⟨s.cb, hserved, rfl⟩
    · show last s.history =
        some { fileDesc := s.cb.fileDesc, callback := some callback, args := s.cb.args }
      rw [hserved, ← hcallback]
  | dies fd hpending hhandler => exact ⟨h.justified, h.running⟩
  | receives call packet queue printed running hrunning hqueue hsame =>
    have hlast := h.running call hrunning
    apply h.log (e := .received call.fd packet) hlast rfl rfl
    -- the callback receives on the descriptor it was called with
    intro call' hcall'
    rw [hsame call' hcall']
    exact hlast
  | goesOn printed running hsame =>
    exact ⟨h.justified, fun call hcall => h.running call (hsame call hcall)⟩

/-! ## What arrives -/

/-- What has arrived at a socket was received from it, in order, or waits in it. -/
def Counted (s : State) : Prop :=
  ∀ fd, arrivedAt fd s.history = receivedAt fd s.history ++ (s.sockets fd).queue

/-- A step that moves no datagram. -/
theorem Counted.keep (h : Counted s)
    (hqueue : ∀ fd, (s'.sockets fd).queue = (s.sockets fd).queue)
    (harrived : ∀ fd, arrivedAt fd s'.history = arrivedAt fd s.history)
    (hreceived : ∀ fd, receivedAt fd s'.history = receivedAt fd s.history) : Counted s' := by
  intro fd
  rw [harrived, hreceived, hqueue]
  exact h fd

/-- A datagram that arrives waits in its socket. -/
theorem Counted.arrives (h : Counted s) (fd : Int) (packet : Packet) :
    Counted ((s.setSocket fd { s.sockets fd with queue := (s.sockets fd).queue ++ [packet] }).log
      (.arrived fd packet)) := by
  intro fd'
  have hbefore := h fd'
  show arrivedAt fd' (s.history ++ [.arrived fd packet]) =
    receivedAt fd' (s.history ++ [.arrived fd packet]) ++ ((s.setSocket fd _).sockets fd').queue
  rw [receivedAt_other rfl]
  -- only the queue of this socket grows, by what arrives
  by_cases hfd : fd = fd'
  · subst hfd
    rw [setSocket_self, arrivedAt, List.filterMap_append, ← arrivedAt, hbefore]
    simp [Entry.arrivalAt?]
  · rw [setSocket_of_ne (Ne.symm hfd), arrivedAt_other (by simp [Entry.arrivalAt?, hfd]), hbefore]

/-- A datagram that is received was the first to wait. -/
theorem Counted.receives (h : Counted s) {packet : Packet} {queue : List Packet}
    (hqueue : (s.sockets fd).queue = packet :: queue) :
    Counted ((s.setSocket fd { s.sockets fd with queue := queue }).log
      (.received fd packet)) := by
  intro fd'
  have hbefore := h fd'
  show arrivedAt fd' (s.history ++ [.received fd packet]) =
    receivedAt fd' (s.history ++ [.received fd packet]) ++ ((s.setSocket fd _).sockets fd').queue
  rw [arrivedAt_other rfl, hbefore]
  -- the first of the queue goes over to what was received
  by_cases hfd : fd = fd'
  · subst hfd
    rw [setSocket_self, hqueue, receivedAt, receivedAt, List.filterMap_append]
    simp [Entry.receivedAt?]
  · rw [setSocket_of_ne (Ne.symm hfd), receivedAt_other (by simp [Entry.receivedAt?, hfd])]

/-- Every step keeps what arrived in order and complete. -/
theorem Turn.counted (hturn : Turn s s') (h : Counted s) : Counted s' := by
  -- only an arrival, a call of the callback and a receive touch what is counted
  cases hturn with
  | stay returned => exact h
  | opens new hclosed hpc =>
    exact h.keep (setSocket_field _ _ _ Socket.queue rfl) (fun _ => rfl) fun _ => rfl
  | fileDesc new hpc hrunning =>
    exact h.keep (fun _ => rfl) (fun _ => arrivedAt_other rfl) fun _ => receivedAt_other rfl
  | callback new hpc => exact h
  | args new hpc => exact h
  | setfl fd ok hpc =>
    exact h.keep (setSocket_field _ _ _ Socket.queue rfl) (fun _ => rfl) fun _ => rfl
  | setown fd ok hpc =>
    exact h.keep (setSocket_field _ _ _ Socket.queue rfl) (fun _ => rfl) fun _ => rfl
  | sigaction fd ok hpc =>
    exact h.keep (fun _ => rfl) (fun _ => arrivedAt_other rfl) fun _ => receivedAt_other rfl
  | bind fd ok returned hpc =>
    exact h.keep (setSocket_field _ _ _ Socket.queue rfl) (fun _ => rfl) fun _ => rfl
  | arrives fd packet pending hbound hpending => exact h.arrives fd packet
  | ignored => exact h
  | called callback hpending hcallback clientMessage =>
    exact h.keep (fun _ => rfl) (fun _ => arrivedAt_other rfl) fun _ => receivedAt_other rfl
  | dies fd hpending hhandler => exact h
  | receives call packet queue printed running hrunning hqueue hsame => exact h.receives hqueue
  | goesOn printed running hsame => exact h

/-! ## The handler is there -/

/-- `sigaction` has been called. -/
def Tried (history : List Entry) : Prop := ∃ ok, .sigaction ok ∈ history

/-- Signals come after the call of `sigaction` only. -/
structure Guarded (s : State) : Prop where
  bind : ∀ fd, s.pc = .bind fd → Tried s.history
  bound : ∀ fd, (s.sockets fd).bound = true → Tried s.history
  pending : ∀ fd, s.pending = some fd → Tried s.history
  handlerSet : s.handlerSet = true ↔ .sigaction true ∈ s.history
  killed : s.killed = true → s.handlerSet = false ∧ Tried s.history

/-- A step that does not call `sigaction`. -/
theorem Guarded.keep (h : Guarded s)
    (hhistory : ∀ ok, .sigaction ok ∈ s'.history ↔ .sigaction ok ∈ s.history)
    (hbind : ∀ fd, s'.pc = .bind fd → Tried s.history)
    (hbound : ∀ fd, (s'.sockets fd).bound = true → Tried s.history)
    (hpending : ∀ fd, s'.pending = some fd → Tried s.history)
    (hhandler : s'.handlerSet = s.handlerSet)
    (hkilled : s'.killed = true → s.handlerSet = false ∧ Tried s.history) : Guarded s' := by
  have htried : Tried s'.history ↔ Tried s.history := exists_congr hhistory
  constructor
  · simpa only [htried] using hbind
  · simpa only [htried] using hbound
  · simpa only [htried] using hpending
  · rw [hhandler, hhistory]
    exact h.handlerSet
  · rw [hhandler, htried]
    exact hkilled

/-- Other entries call no `sigaction`. -/
theorem sigaction_mem_log (he : ∀ ok, e ≠ .sigaction ok) (ok : Bool) :
    .sigaction ok ∈ (s.log e).history ↔ .sigaction ok ∈ s.history := by
  show .sigaction ok ∈ s.history ++ [e] ↔ _
  rw [List.mem_append, List.mem_singleton]
  exact or_iff_left (he ok).symm

/-- `sigaction` is called. -/
theorem Guarded.sigaction (h : Guarded s) (fd : Int) (ok : Bool) (halive : s.killed = false) :
    Guarded { s.log (.sigaction ok) with pc := .bind fd, handlerSet := s.handlerSet || ok } := by
  have htried : Tried (s.history ++ [.sigaction ok]) :=
    ⟨ok, List.mem_append_right _ (List.mem_singleton_self _)⟩
  constructor
  · exact fun _ _ => htried
  · exact fun _ _ => htried
  · exact fun _ _ => htried
  · show (s.handlerSet || ok) = true ↔ .sigaction true ∈ s.history ++ [.sigaction ok]
    rw [Bool.or_eq_true, h.handlerSet, List.mem_append, List.mem_singleton, Entry.sigaction.injEq]
    exact or_congr_right eq_comm
  · intro hkilled
    cases halive.symm.trans hkilled

/-- A socket changes, but not in whether it is bound. -/
theorem Guarded.setSocket (h : Guarded s) (fd : Int) (c : Socket)
    (hsame : c.bound = (s.sockets fd).bound) (fd' : Int)
    (hbound : ((s.setSocket fd c).sockets fd').bound = true) : Tried s.history := by
  rw [setSocket_field s fd c Socket.bound hsame fd'] at hbound
  exact h.bound fd' hbound

/-- Every step keeps signals behind the call of `sigaction`. -/
theorem Turn.guarded (hturn : Turn s s') (halive : s.killed = false) (h : Guarded s) :
    Guarded s' := by
  have hkilled : s.killed = true → s.handlerSet = false ∧ Tried s.history := h.killed
  cases hturn with
  | stay returned => exact ⟨h.bind, h.bound, h.pending, h.handlerSet, h.killed⟩
  | opens new hclosed hpc =>
    exact h.keep (fun _ => .rfl) nofun (h.setSocket _ _ rfl) h.pending rfl hkilled
  | fileDesc new hpc hrunning =>
    exact h.keep (sigaction_mem_log nofun) nofun h.bound h.pending rfl hkilled
  | callback new hpc => exact h.keep (fun _ => .rfl) nofun h.bound h.pending rfl hkilled
  | args new hpc => exact h.keep (fun _ => .rfl) nofun h.bound h.pending rfl hkilled
  | setfl fd ok hpc =>
    exact h.keep (fun _ => .rfl) nofun (h.setSocket _ _ rfl) h.pending rfl hkilled
  | setown fd ok hpc =>
    exact h.keep (fun _ => .rfl) nofun (h.setSocket _ _ rfl) h.pending rfl hkilled
  | sigaction fd ok hpc => exact h.sigaction fd ok halive
  | bind fd ok returned hpc =>
    -- `sigaction` stands before `bind`
    have htried : Tried s.history := h.bind fd hpc
    exact h.keep (fun _ => .rfl) nofun (fun _ _ => htried) h.pending rfl hkilled
  | arrives fd packet pending hbound hpending =>
    -- only a bound socket gets datagrams
    have htried : Tried s.history := h.bound fd hbound
    exact h.keep (sigaction_mem_log nofun) h.bind (fun _ _ => htried) (fun _ _ => htried) rfl
      hkilled
  | ignored => exact h.keep (fun _ => .rfl) h.bind h.bound nofun rfl hkilled
  | called callback hpending hcallback clientMessage =>
    exact h.keep (sigaction_mem_log nofun) h.bind h.bound nofun rfl hkilled
  | dies fd hpending hhandler =>
    -- the signal was raised by one of them
    have htried : Tried s.history := h.pending fd hpending
    exact ⟨h.bind, h.bound, h.pending, h.handlerSet, fun _ => ⟨hhandler, htried⟩⟩
  | receives call packet queue printed running hrunning hqueue hsame =>
    exact h.keep (sigaction_mem_log nofun) h.bind (h.setSocket _ _ rfl) h.pending rfl hkilled
  | goesOn printed running hsame =>
    exact h.keep (fun _ => .rfl) h.bind h.bound h.pending rfl hkilled

/-! ## Runs -/

/-- The invariant of a run. -/
structure Invariant (s : State) : Prop where
  wired : Wired s
  routed : Routed s
  counted : Counted s
  guarded : Guarded s

/-- Every step keeps the whole invariant. -/
theorem Invariant.step {event : Event} (h : Invariant s)
    (hstep : SingleUdp.step s event = some s') :
    Invariant s' := by
  have hturn : Turn s s' := step_turn hstep
  -- a step is defined only while the process lives
  have halive : s.killed = false := by
    cases hkilled : s.killed with
    | false => rfl
    | true => simp [SingleUdp.step, hkilled] at hstep
  exact ⟨hturn.wired h.wired, hturn.routed h.wired h.routed, hturn.counted h.counted,
    hturn.guarded halive h.guarded⟩

/-- The process starts with nothing open, registered or received. -/
theorem start_invariant : Invariant .start where
  wired := ⟨.inr rfl, nofun, nofun, nofun⟩
  routed := ⟨justified_nil, nofun⟩
  counted _ := rfl
  guarded := ⟨nofun, nofun, nofun, by simp [State.start], nofun⟩

/-- The invariant holds at the end of every run. -/
theorem run_invariant {es : List Event} (hrun : es.foldlM step .start = some s) : Invariant s :=
  Runs.Always.final (Runs.Always.of_preserved (fun _ h => h) (fun _ _ _ h hstep => h.step hstep)
    start_invariant) hrun

/-- Whatever sockets are opened and registered, and wherever signals come in between: a callback
    is only called with the descriptor and the arguments that it was registered with, and only the
    one registered last is called and receives. What arrives at a socket is received from it
    once and in order, or still waits in it. -/
theorem callbacks_registered (es : List Event) (s : State) (hrun : es.foldlM step .start = some s) :
    Justified Valid s.history ∧
      ∀ fd, arrivedAt fd s.history = receivedAt fd s.history ++ (s.sockets fd).queue := by
  have h := run_invariant hrun
  exact ⟨h.routed.justified, h.counted⟩

/-- The steps of `socketOpenUDP` for a new socket. -/
def opens (fd : Int) (callback : Callback) (args : Option Nat) : List Event :=
  .socketOpenUDP (some callback) args (some fd) :: List.replicate 7 (.next true)

/-- The socket 3 is served while the socket 4 is opened. -/
def interrupted : List Event :=
  opens 3 (.other 1) (some 7) ++ [.arrive 3 ⟨[104], 0, 0⟩, .deliver, .recvfrom, .returns] ++
    (opens 4 (.other 2) none).take 2 ++ [.arrive 3 ⟨[105], 0, 0⟩, .deliver]

/-- Its last state. -/
def interruptedEnd : State := (interrupted.foldlM step .start).getD .start

/-- The new descriptor has the old callback, which is not called with it. -/
example : interruptedEnd.cb = { fileDesc := 4, callback := some (.other 1), args := some 7 } := by
  decide

/-- In the run that interrupts `socketOpenUDP` the old callback is called with its own arguments. -/
theorem callbacks_registered_interrupted :
    Justified Valid interruptedEnd.history ∧
      ∀ fd, arrivedAt fd interruptedEnd.history =
        receivedAt fd interruptedEnd.history ++ (interruptedEnd.sockets fd).queue :=
  callbacks_registered interrupted interruptedEnd rfl

/-- A signal ends the process only when `sigaction` was called and has failed each time: until the
    first call no socket is bound. -/
theorem killed_unhandled (es : List Event) (s : State) (hrun : es.foldlM step .start = some s)
    (hkilled : s.killed = true) :
    .sigaction true ∉ s.history ∧ .sigaction false ∈ s.history := by
  have h := (run_invariant hrun).guarded
  obtain ⟨hhandler, ok, htried⟩ := h.killed hkilled
  -- had one call succeeded, the handler would be set
  have hnever : .sigaction true ∉ s.history := by
    intro hmem
    rw [h.handlerSet.mpr hmem] at hhandler
    cases hhandler
  refine ⟨hnever, ?_⟩
  cases ok with
  | false => exact htried
  | true => exact absurd htried hnever

/-- `sigaction` fails, and a datagram arrives. -/
def unhandled : List Event :=
  .socketOpenUDP (some .socketCallback) none (some 3) :: List.replicate 5 (.next true) ++
    [.next false, .next true, .arrive 3 ⟨[104], 0, 0⟩, .deliver]

/-- Its last state. -/
def unhandledEnd : State := (unhandled.foldlM step .start).getD .start

/-- The run in which a datagram kills the process has called `sigaction` in vain. -/
theorem killed_unhandled_datagram :
    .sigaction true ∉ unhandledEnd.history ∧ .sigaction false ∈ unhandledEnd.history :=
  killed_unhandled unhandled unhandledEnd rfl rfl

end SingleUdp
