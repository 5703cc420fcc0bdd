import CSnippets.Spec.AsyncUdpOpen

/-!
# `SIGIO` while `aIODeinit` runs

`aIODeinit` frees the connections one by one and leaves `head.next` as it is. The
handler of `SIGQUIT` is installed with an empty mask, so `SIGIO` may come in between,
and its walk starts at `head`: from the first `free` on it runs into freed memory,
whatever socket the signal is for.
-/

namespace AsyncUdp

open SentinelList

variable {s s' : State} {e : Event} {l new : List (Addr × Conn)} {addrs : List Addr} {fd : Int}
  {d : Addr} {m : Memory Conn} {buffer : Option (List UInt8)}

/-- `SIGQUIT` has interrupted `main`: `aIODeinit` starts at `head.next`. -/
structure Quitting (s : State) (l : List (Addr × Conn)) : Prop extends Registered s l [] where
  armed : ∀ fd, Armed s fd → ∃ e ∈ l, e.2.fd = fd
  pc : s.pc = .deinit (l.head?.map Prod.fst)

/-- Whatever has been opened, `main` can be interrupted so. -/
theorem Opening.quitting (h : Opening s l new) (hpc : s.pc = .main) :
    Quitting { s with pc := .deinit (l.head?.map Prod.fst) } l := by
  have hnew : new = [] := by simpa only [Place, hpc] using h.place
  refine ⟨⟨?_, h.head, h.ready⟩, fun fd hfd => ?_, rfl⟩
  · simpa [hnew] using h.list
  · have hnone : unlocking s ≠ some fd := by simp [unlocking, hpc]
    exact (h.armed fd hfd).resolve_right hnone

/-! ## The invariant -/

/-- The connections that `aIODeinit` has in hand. -/
def Pc.cursors : Pc → List Addr
  | .deinit iterator => iterator.toList
  | .freeBuffer del iterator | .close del iterator | .free del iterator => del :: iterator.toList
  | _ => []

/-- The teardown has not come past the first connection, unless it is over. -/
def AtFirst (pc : Pc) (addrs : List Addr) : Prop := pc.cursors.head? = addrs.head? ∨ pc = .exited

/-- Nothing has been freed. -/
structure Intact (s : State) (addrs : List Addr) (l : List (Addr × Conn)) : Prop where
  addrs_eq : l.map Prod.fst = addrs
  list : IsList s.mem headAddr l
  conns : ∀ e ∈ l, e.2.locked = false ∧ e.2.type = .udp
  armed : ∀ fd, Armed s fd → ∃ e ∈ l, e.2.fd = fd
  first : AtFirst s.pc addrs

/-- The invariant of the teardown of the connections at `addrs`: `head` leads to the
    first of them, freed or not. -/
structure Teardown (s : State) (addrs : List Addr) : Prop where
  head : HeadFree s.mem
  next : nextOf s.mem headAddr = some addrs.head?
  headOut : headAddr ∉ addrs
  links : ∀ a ∈ addrs, ∀ b, nextOf s.mem a = some (some b) → b ∈ addrs
  cursors : ∀ a ∈ s.pc.cursors, a ∈ addrs
  freed : (∃ l, Intact s addrs l) ∨ ∃ d, addrs.head? = some d ∧ d ∉ s.mem

/-- The links of a list stay inside it. -/
theorem links_of_isList (h : IsList m headAddr l) :
    ∀ a ∈ l.map Prod.fst, ∀ b, nextOf m a = some (some b) → b ∈ l.map Prod.fst := by
  intro a ha b hb
  obtain ⟨⟨a', w⟩, hmem, rfl⟩ := List.mem_map.mp ha
  obtain ⟨front, rest, rfl⟩ := List.append_of_mem hmem
  have hrest : IsList m a' ([] ++ rest) := (seg_append.mp h).2.2
  have hnext := hrest.nextOf_front
  cases rest with
  | nil => cases hb.symm.trans hnext
  | cons e rest =>
    have hbe : b = e.1 := by
      have := hb.symm.trans hnext
      simpa using this
    simp [hbe]

/-- When deinitialisation begins, all connections of the list are still to be torn down. -/
theorem Quitting.teardown (h : Quitting s l) : Teardown s (l.map Prod.fst) := by
  have hlist : IsList s.mem headAddr l := by simpa using h.list
  have hfront : IsList s.mem headAddr ([] ++ l) := hlist
  refine ⟨h.head, ?_, (List.nodup_cons.mp hlist.nodup).1, links_of_isList hlist, ?_, Or.inl ⟨l, ?_⟩⟩
  · rw [List.head?_map]
    exact hfront.nextOf_front
  · intro a ha
    rw [h.pc] at ha
    cases l with
    | nil => cases ha
    | cons e l => simpa [Pc.cursors] using Or.inl ha
  · have hconns : ∀ e ∈ l, e.2.locked = false ∧ e.2.type = .udp := fun e he =>
      ⟨(h.ready e he).unlocked, (h.ready e he).type⟩
    -- nothing is freed yet, so the next connection to free is the first of the list
    have hfirst : AtFirst s.pc (l.map Prod.fst) := by
      rw [AtFirst, h.pc]
      cases l with
      | nil => exact Or.inl rfl
      | cons e l => exact Or.inl rfl
    exact ⟨rfl, hlist, hconns, h.armed, hfirst⟩

/-- The walk of the handler meets only live connections as long as all of them are. -/
theorem Teardown.walk_iff (h : Teardown s addrs) (hfd : Armed s fd) :
    findConnection s.mem .udp fd ≠ .error .badMemory ↔ ∀ a ∈ addrs, a ∈ s.mem := by
  rcases h.freed with ⟨l, hl⟩ | ⟨d, hd, hfreed⟩
  · -- the walk ends at a connection of the list
    have hlist : IsList s.mem headAddr (l ++ []) := by simpa using hl.list
    obtain ⟨front, d, w, rest, -, -, hfind⟩ :=
      exists_found h.head hlist hl.conns (hl.armed fd hfd)
    have hlive : ∀ a ∈ addrs, a ∈ s.mem := fun a ha =>
      Seg.mem hl.list a (List.mem_cons_of_mem _ (hl.addrs_eq ▸ ha))
    rw [hfind]
    exact ⟨fun _ => hlive, fun _ => nofun⟩
  · -- it reads the freed first connection right away
    have hnext : nextOf s.mem headAddr = some (some d) := hd ▸ h.next
    have hmem : d ∈ addrs := List.mem_of_mem_head? hd
    rw [findConnection_freed h.head hnext hfreed]
    exact ⟨fun hne => absurd rfl hne, fun hlive => absurd (hlive d hmem) hfreed⟩

/-! ## What keeps the invariant -/

/-- Memory stays as it is. -/
theorem Teardown.of_mem_eq (h : Teardown s addrs) (hmem : s'.mem = s.mem)
    (harmed : ∀ fd, Armed s' fd → Armed s fd) (hcursors : ∀ a ∈ s'.pc.cursors, a ∈ addrs)
    (hfirst : ∀ l, Intact s addrs l → AtFirst s'.pc addrs) : Teardown s' addrs := by
  refine ⟨hmem ▸ h.head, hmem ▸ h.next, h.headOut, hmem ▸ h.links, hcursors, ?_⟩
  rcases h.freed with ⟨l, hl⟩ | hfreed
  · exact Or.inl ⟨l, hl.addrs_eq, hmem ▸ hl.list, hl.conns,
      fun fd hfd => hl.armed fd (harmed fd hfd), hfirst l hl⟩
  · exact Or.inr (hmem ▸ hfreed)

/-- Only the buffer of a connection changes. -/
theorem Teardown.of_filled (h : Teardown s addrs) (hd : d ∈ addrs)
    (hset : setVal s.mem d (filled buffer) = some s'.mem)
    (harmed : ∀ fd, Armed s' fd → Armed s fd) (hcursors : ∀ a ∈ s'.pc.cursors, a ∈ addrs)
    (hfirst : ∀ l, Intact s addrs l → AtFirst s'.pc addrs) : Teardown s' addrs := by
  have hdhead : headAddr ≠ d := fun hhead => h.headOut (hhead ▸ hd)
  refine ⟨h.head.congr ?_, ?_, h.headOut, ?_, hcursors, ?_⟩
  · rw [valOf_setVal hset, if_neg hdhead]
  · rw [nextOf_setVal hset, h.next]
  · intro a ha b hb
    exact h.links a ha b ((nextOf_setVal hset a).symm.trans hb)
  · rcases h.freed with ⟨l, hl⟩ | ⟨first, hhead, hfreed⟩
    · -- the list with the new buffer in it
      obtain ⟨⟨d', w⟩, hmem, rfl⟩ := List.mem_map.mp (hl.addrs_eq ▸ hd)
      obtain ⟨front, rest, rfl⟩ := List.append_of_mem hmem
      refine Or.inl ⟨front ++ (d', filled buffer w) :: rest, ?_, hl.list.update hset, ?_, ?_,
        hfirst _ hl⟩
      · rw [← hl.addrs_eq]
        simp
      · intro e he
        rcases List.mem_append.mp he with hfront | hrest
        · exact hl.conns e (List.mem_append_left _ hfront)
        · rcases List.mem_cons.mp hrest with rfl | hrest
          · exact hl.conns (d', w) (by simp)
          · exact hl.conns e (by simp [hrest])
      · intro fd hfd
        obtain ⟨e, he, hefd⟩ := hl.armed fd (harmed fd hfd)
        rcases List.mem_append.mp he with hfront | hrest
        · exact ⟨e, List.mem_append_left _ hfront, hefd⟩
        · rcases List.mem_cons.mp hrest with rfl | hrest
          · exact ⟨(d', filled buffer w), by simp, hefd⟩
          · exact ⟨e, by simp [hrest], hefd⟩
    · exact Or.inr ⟨first, hhead, fun hmem => hfreed ((mem_setVal hset first).mp hmem)⟩

/-- A connection is freed, the first one if nothing was freed before. -/
theorem Teardown.of_free (h : Teardown s addrs) (hd : d ∈ addrs)
    (hfree : SentinelList.free s.mem d = some s'.mem)
    (hcursors : ∀ a ∈ s'.pc.cursors, a ∈ addrs)
    (hfirst : ∀ l, Intact s addrs l → addrs.head? = some d) : Teardown s' addrs := by
  have hdhead : headAddr ≠ d := fun hhead => h.headOut (hhead ▸ hd)
  refine ⟨h.head.congr ?_, ?_, h.headOut, ?_, hcursors, Or.inr ?_⟩
  · rw [valOf_free hfree, if_neg hdhead]
  · rw [nextOf_free hfree, if_neg hdhead, h.next]
  · intro a ha b hb
    rw [nextOf_free hfree] at hb
    split at hb
    · cases hb
    · exact h.links a ha b hb
  · rcases h.freed with ⟨l, hl⟩ | ⟨first, hhead, hfreed⟩
    · exact ⟨d, hfirst l hl, fun hmem => ((mem_free hfree d).mp hmem).1 rfl⟩
    · exact ⟨first, hhead, fun hmem => hfreed ((mem_free hfree first).mp hmem).2⟩

/-! ## The steps -/

/-- What one step of `aIODeinit` does. -/
inductive TearsDown (s : State) : State → Prop where
  | exit : TearsDown s { s with pc := .exited }
  | look {del : Addr} {iterator : Option Addr} : s.pc = .deinit (some del) →
      nextOf s.mem del = some iterator → TearsDown s { s with pc := .freeBuffer del iterator }
  | skip {del : Addr} {iterator : Option Addr} {c : Conn} : s.pc = .deinit (some del) →
      nextOf s.mem del = some iterator → valOf s.mem del = some c → c.type ≠ .udp →
      TearsDown s { s with pc := .deinit iterator }
  | freeBuffer {del : Addr} {iterator : Option Addr} {m : Memory Conn} :
      s.pc = .freeBuffer del iterator → setVal s.mem del (filled none) = some m →
      TearsDown s { s with mem := m, pc := .close del iterator }
  | close {del : Addr} {iterator : Option Addr} {fd : Int} : s.pc = .close del iterator →
      TearsDown s { s with
        sockets := Function.update s.sockets fd Socket.closed, pc := .free del iterator }
  | free {del : Addr} {iterator : Option Addr} {m : Memory Conn} : s.pc = .free del iterator →
      SentinelList.free s.mem del = some m →
      TearsDown s { s with mem := m, pc := .deinit iterator }

/-- A step of `aIODeinit` stops, frees or leaves one connection, or passes on to the next. -/
theorem aIODeinit_cases (hstep : aIODeinit s e = some s') : TearsDown s s' := by
  unfold aIODeinit at hstep
  split at hstep
  · cases hstep
    -- the list is at its end
    exact .exit
  · -- the node is read for its link and its type
    rename_i del ok hpc
    obtain ⟨iterator, hnext, hstep⟩ := Option.bind_eq_some_iff.mp hstep
    obtain ⟨c, hval, hstep⟩ := Option.bind_eq_some_iff.mp hstep
    split at hstep
    · cases hstep
      exact .look hpc hnext
    · rename_i htype
      cases hstep
      exact .skip hpc hnext hval fun hudp => htype (Or.inl hudp)
  · -- `free(del->buffer)`
    rename_i del iterator ok hpc
    obtain ⟨c, hval, hstep⟩ := Option.bind_eq_some_iff.mp hstep
    obtain ⟨bytes, hbuffer, hstep⟩ := Option.bind_eq_some_iff.mp hstep
    obtain ⟨m, hset, hstep⟩ := Option.bind_eq_some_iff.mp hstep
    cases hstep
    exact .freeBuffer hpc hset
  · -- `close`, and `exit` where it fails
    rename_i del iterator ok hpc
    obtain ⟨c, hval, hstep⟩ := Option.bind_eq_some_iff.mp hstep
    split at hstep
    · cases hstep
      exact .close hpc
    · cases hstep
      exact .exit
  · -- `free(del)`
    rename_i del iterator ok hpc
    obtain ⟨m, hfree, hstep⟩ := Option.bind_eq_some_iff.mp hstep
    cases hstep
    exact .free hpc hfree
  · cases hstep

/-- What such a step does keeps the teardown where it is, or takes it one node on. -/
theorem Teardown.tearsDown (h : Teardown s addrs) (hstep : TearsDown s s') : Teardown s' addrs := by
  have hcursors := h.cursors
  -- while nothing is freed, the connection in hand is the first one
  have hfirst : ∀ l, Intact s addrs l → AtFirst s.pc addrs := fun l hl => hl.first
  cases hstep with
  | exit => exact h.of_mem_eq rfl (fun _ hfd => hfd) nofun fun _ _ => Or.inr rfl
  | look hpc hnext =>
    rw [hpc] at hcursors hfirst
    have hdel := hcursors _ (List.mem_singleton_self _)
    refine h.of_mem_eq rfl (fun _ hfd => hfd) ?_ ?_
    · intro a ha
      rcases List.mem_cons.mp ha with rfl | ha
      · exact hdel
      · exact h.links _ hdel a (by rw [hnext, Option.mem_toList.mp ha])
    · exact fun l hl => (hfirst l hl).imp id nofun
  | skip hpc hnext hval htype =>
    rw [hpc] at hcursors hfirst
    have hdel := hcursors _ (List.mem_singleton_self _)
    refine h.of_mem_eq rfl (fun _ hfd => hfd) ?_ ?_
    · exact fun a ha => h.links _ hdel a (by rw [hnext, Option.mem_toList.mp ha])
    · intro l hl
      -- all connections of the list are UDP sockets
      obtain ⟨⟨a, w⟩, hmem, rfl⟩ := List.mem_map.mp (hl.addrs_eq ▸ hdel)
      have hw := Option.some.inj ((Seg.valOf_of_mem hl.list hmem).symm.trans hval)
      exact absurd (hw ▸ (hl.conns _ hmem).2) htype
  | freeBuffer hpc hset =>
    rw [hpc] at hcursors hfirst
    exact h.of_filled (hcursors _ List.mem_cons_self) hset (fun _ hfd => hfd) hcursors
      fun l hl => (hfirst l hl).imp id nofun
  | @close del iterator fd hpc =>
    rw [hpc] at hcursors hfirst
    have harmed : ∀ fd', Armed { s with
        sockets := Function.update s.sockets fd Socket.closed, pc := .free del iterator } fd' →
        Armed s fd' := by
      intro fd' hfd'
      by_cases heq : fd' = fd
      · have hclosed : Function.update s.sockets fd Socket.closed fd' = Socket.closed := by
          rw [heq, Function.update_self]
        have hopen := hfd'.1
        rw [show Socket.isOpen _ = _ from congrArg Socket.isOpen hclosed] at hopen
        cases hopen
      · exact (armed_congr (Function.update_of_ne heq _ _)).mp hfd'
    exact h.of_mem_eq rfl harmed hcursors fun l hl => (hfirst l hl).imp id nofun
  | free hpc hfree =>
    rw [hpc] at hcursors hfirst
    have hdel := hcursors _ List.mem_cons_self
    refine h.of_free hdel hfree ?_ ?_
    · exact fun a ha => hcursors a (List.mem_cons_of_mem _ ha)
    · exact fun l hl => ((hfirst l hl).resolve_right nofun).symm

/-- A handler that completes has changed a buffer and taken from a queue. -/
theorem Teardown.handled (h : Teardown s addrs) (hfd : Armed s fd)
    (hok : aIOUDPSigHandler s fd = .ok s') : Teardown s' addrs := by
  rcases h.freed with ⟨l, hl⟩ | ⟨first, hhead, hfreed⟩
  · have hlist : IsList s.mem headAddr (l ++ []) := by simpa using hl.list
    obtain ⟨front, d, w, rest, rfl, -, hfind⟩ :=
      exists_found h.head hlist hl.conns (hl.armed fd hfd)
    have hval : valOf s.mem d = some w := (seg_append.mp hl.list).2.1
    rw [aIOUDPSigHandler_eq hfind hval (hl.conns (d, w) (by simp)).1] at hok
    cases hrecv : recvLoop w.bufferSize w.callback w.args w.buffer (s.sockets fd).queue with
    | error halt => simp [hrecv, bind, Except.bind] at hok
    | ok result =>
      obtain ⟨buffer, calls, queue⟩ := result
      obtain ⟨m, hset⟩ := exists_setVal (mem_of_valOf hval) (filled buffer)
      simp only [hrecv, hset, access_some, bind, Except.bind, pure, Except.pure] at hok
      cases hok
      have hsame : SameButQueue s.sockets (Function.update s.sockets fd
          { s.sockets fd with queue := queue }) := sameButQueue_update queue
      have hd : d ∈ addrs := by rw [← hl.addrs_eq]; simp
      exact h.of_filled hd hset (fun fd' hfd' => (SameButQueue.armed hsame fd').mp hfd') h.cursors
        fun l hl => hl.first
  · -- the walk would have met the freed connection
    have hnext : nextOf s.mem headAddr = some (some first) := hhead ▸ h.next
    simp [aIOUDPSigHandler, findConnection_freed h.head hnext hfreed, bind, Except.bind] at hok

/-- Interrupts between the steps make no difference to the teardown. -/
theorem Teardown.interrupt_step (h : Teardown s addrs) (hstep : interrupt s e = some s') :
    Teardown s' addrs := by
  obtain ⟨hmem, hpc, hsame⟩ | ⟨fd, hfd, hhandler⟩ := interrupt_cases hstep
  · exact h.of_mem_eq hmem (fun fd hfd => (hsame.armed fd).mp hfd) (hpc ▸ h.cursors)
      fun l hl => hpc ▸ hl.first
  · exact h.handled hfd hhandler

/-- Every step of the deinitialisation keeps the teardown going. -/
theorem Teardown.step (h : Teardown s addrs) (hstep : deinitStep s e = some s') :
    Teardown s' addrs := by
  cases e with
  | arrive fd datagram =>
    have hinterrupt : interrupt s (.arrive fd datagram) = some s' := hstep
    exact h.interrupt_step hinterrupt
  | sigio fd =>
    have hinterrupt : interrupt s (.sigio fd) = some s' := hstep
    exact h.interrupt_step hinterrupt
  | _ => exact h.tearsDown (aIODeinit_cases hstep)

/-! ## Runs -/

/-- The walk for a `SIGIO` that can be delivered meets no freed connection. -/
def WalksLive (s : State) : Event → Prop
  | .sigio fd => Armed s fd → findConnection s.mem .udp fd ≠ .error .badMemory
  | _ => True

/-- A `SIGIO` comes before any of the connections has been freed. -/
def BeforeFree (l : List (Addr × Conn)) (s : State) : Event → Prop
  | .sigio fd => Armed s fd → ∀ a ∈ l.map Prod.fst, a ∈ s.mem
  | _ => True

instance (l : List (Addr × Conn)) (s : State) : ∀ e, Decidable (BeforeFree l s e)
  | .sigio fd => inferInstanceAs (Decidable (Armed s fd → ∀ a ∈ l.map Prod.fst, a ∈ s.mem))
  | .call _ | .calloc _ _ | .socket _ | .next _ | .arrive _ _ => isTrue trivial

/-- Whatever is registered and wherever `SIGIO` interrupts the teardown: the walks meet
    no freed connection exactly if no `SIGIO` comes after the first `free`. -/
theorem walks_live_iff {es : List Event} (hquit : Quitting s l) :
    Runs.StepsMeet deinitStep WalksLive s es ↔
      Runs.StepsMeet deinitStep (BeforeFree l) s es := by
  apply Runs.stepsMeet_iff (J := fun s => Teardown s (l.map Prod.fst)) (K := fun _ _ => True) _ _
    hquit.teardown (Runs.stepsMeet_of_forall fun _ _ _ => trivial)
  · exact fun s e s' h _ hstep => h.step hstep
  · intro s e h _
    cases e with
    | sigio fd => exact forall_congr' h.walk_iff
    | _ => exact Iff.rfl

/-- An open UDP connection with a buffer of four bytes. -/
def udpConn (fd : Int) : Conn :=
  { type := .udp, fd := fd, sAddr := 0, sinPort := 1111, bufferSize := 4,
    buffer := some [0, 0, 0, 0], callback := 0, args := none, locked := false }

/-- Two sockets are registered when `SIGQUIT` comes. -/
def twoOpen : State :=
  { mem := ((Finmap.singleton headAddr
      ⟨{ udpConn 0 with type := .none, buffer := none }, some 8⟩).insert
      8 ⟨udpConn 3, some 16⟩).insert 16 ⟨udpConn 4, none⟩,
    sockets := fun fd =>
      let isOpen := decide (3 ≤ fd ∧ fd ≤ 4)
      { isOpen := isOpen, async := isOpen, sig := isOpen, owner := isOpen, queue := [] },
    pc := .deinit (some 8), calls := [] }

/-- The program with two open connections can be deinitialised. -/
theorem quitting_twoOpen : Quitting twoOpen [(8, udpConn 3), (16, udpConn 4)] where
  list := ⟨rfl, rfl, rfl, rfl, rfl⟩
  head := ⟨_, rfl, rfl⟩
  ready := by
    intro e he
    simp only [List.mem_cons, List.not_mem_nil, or_false] at he
    rcases he with rfl | rfl
    · exact { type := rfl, buffer := ⟨_, rfl, rfl⟩, unlocked := rfl, isOpen := by decide }
    · exact { type := rfl, buffer := ⟨_, rfl, rfl⟩, unlocked := rfl, isOpen := by decide }
  armed fd hfd := by
    have hopen : 3 ≤ fd ∧ fd ≤ 4 := of_decide_eq_true hfd.1
    obtain rfl | rfl : fd = 3 ∨ fd = 4 := by omega
    · exact ⟨_, List.mem_cons_self, rfl⟩
    · exact ⟨_, List.mem_cons_of_mem _ (List.mem_singleton_self _), rfl⟩
  pc := rfl

/-- Signals up to the first `free` are served as ever. -/
theorem walks_live_before_free :
    Runs.StepsMeet deinitStep WalksLive twoOpen
      [.arrive 4 [104, 10], .sigio 4, .next true, .sigio 3, .next true, .next true, .sigio 4,
        .next true, .next true] :=
  (walks_live_iff quitting_twoOpen).mpr (by decide +kernel)

/-- The first connection is freed, and a datagram for the second socket makes the
    handler read it. -/
theorem freed_connection_walked :
    Quitting twoOpen [(8, udpConn 3), (16, udpConn 4)] ∧
    ∃ s, [Event.next true, .next true, .next true, .next true].foldlM deinitStep twoOpen = some s ∧
      Armed s 4 ∧ findConnection s.mem .udp 4 = .error .badMemory :=
  ⟨quitting_twoOpen, exists_halted (by decide +kernel)⟩

end AsyncUdp
