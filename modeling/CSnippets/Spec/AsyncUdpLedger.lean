import CSnippets.Spec.AsyncUdpDeinit

/-!
# What the calls of `aIOOpenUDPSocket` take

Of memory and descriptors the process has what it had at the start, what the registered
connections have, and what the call in progress has in hand: a node once it is allocated, a
descriptor once `socket` has returned. The ledger is kept by every step and every signal.
-/

namespace AsyncUdp

open SentinelList

variable {s₀ s s' : State} {e : Event} {l l' new new' : List (Addr × Conn)} {fd : Int}
  {a d p : Addr}
  {c : Conn} {m m' : Memory Conn}

/-! ## The ledger -/

/-- The nodes that are not registered yet. -/
def inHand (pc : Pc) (new : List (Addr × Conn)) : List Addr :=
  match pc with
  | .link _ p _ => [p]
  | _ => new.map Prod.fst

/-- `socket` has been called for the connection that is not registered yet. -/
def Pc.HasSocket : Pc → Prop
  | .sigaction _ _ => True
  | .setFl _ _ => True
  | .setSig _ _ => True
  | .bind _ _ => True
  | .setOwn _ _ => True
  | .unlock _ => True
  | _ => False

/-- The process has what it had in `s₀`, what the registered connections have, and what the
    call of `aIOOpenUDPSocket` in progress has. -/
structure Ledger (s₀ s : State) (l new : List (Addr × Conn)) : Prop where
  mem : ∀ a, a ∈ s.mem ↔ a ∈ s₀.mem ∨ a ∈ l.map Prod.fst ∨ a ∈ inHand s.pc new
  fresh : ∀ a, a ∈ l.map Prod.fst ∨ a ∈ inHand s.pc new → a ∉ s₀.mem
  isOpen : ∀ fd, (s.sockets fd).isOpen = true ↔ (s₀.sockets fd).isOpen = true ∨
    fd ∈ (l.map fun e => e.2.fd) ∨ s.pc.HasSocket ∧ fd ∈ (new.map fun e => e.2.fd) ∧ 0 ≤ fd
  closed : ∀ fd, fd ∈ (l.map fun e => e.2.fd) ∨
    s.pc.HasSocket ∧ fd ∈ (new.map fun e => e.2.fd) → (s₀.sockets fd).isOpen = false
  nodup : (l.map fun e => e.2.fd).Nodup

/-- The addresses of a list depend on the links only. -/
theorem map_fst_eq (h : IsList m a l) (h' : IsList m' a l')
    (hnext : ∀ u, nextOf m' u = nextOf m u) : l'.map Prod.fst = l.map Prod.fst := by
  induction l generalizing a l' with
  | nil =>
    have hnil : nextOf m' a = some none := (hnext a).trans h
    cases l' with
    | nil => rfl
    | cons e l' => cases hnil.symm.trans h'.1
  | cons e l ih =>
    have hcons : nextOf m' a = some (some e.1) := (hnext a).trans h.1
    cases l' with
    | nil => cases hcons.symm.trans h'
    | cons e' l' =>
      have haddr : e'.1 = e.1 := by
        have heq := h'.1.symm.trans hcons
        simpa using heq
      have hrest : Seg m' e.1 l' none := haddr ▸ h'.2.2
      rw [List.map_cons, List.map_cons, haddr, ih h.2.2 hrest]

/-- A step that neither takes nor gives anything back. -/
theorem Ledger.of_same (h : Ledger s₀ s l new) (hmem : ∀ a, a ∈ s'.mem ↔ a ∈ s.mem)
    (hopen : ∀ fd, (s'.sockets fd).isOpen = (s.sockets fd).isOpen)
    (haddrs : l'.map Prod.fst = l.map Prod.fst) (hhand : inHand s'.pc new' = inHand s.pc new)
    (hfds : (l'.map fun e => e.2.fd) = l.map fun e => e.2.fd)
    (hsocket : ∀ fd, (s'.pc.HasSocket ∧ fd ∈ new'.map fun e => e.2.fd) ↔
      s.pc.HasSocket ∧ fd ∈ new.map fun e => e.2.fd) : Ledger s₀ s' l' new' where
  mem a := by rw [hmem, h.mem, haddrs, hhand]
  fresh a := by
    rw [haddrs, hhand]
    exact h.fresh a
  isOpen fd := by rw [hopen, h.isOpen, hfds, ← and_assoc, ← and_assoc, hsocket]
  closed fd := by
    rw [hfds, hsocket]
    exact h.closed fd
  nodup := hfds ▸ h.nodup

/-- A step from one place without a socket to another. -/
theorem Ledger.of_mem (h : Ledger s₀ s l new) (hmem : ∀ a, a ∈ s'.mem ↔ a ∈ s.mem)
    (hsockets : s'.sockets = s.sockets) (hhand : inHand s'.pc new' = inHand s.pc new)
    (hpc : ¬ s.pc.HasSocket) (hpc' : ¬ s'.pc.HasSocket) : Ledger s₀ s' l new' :=
  h.of_same hmem (fun fd => by rw [hsockets]) rfl hhand rfl
    (fun _ => iff_of_false (fun hs => hpc' hs.1) fun hs => hpc hs.1)

/-- Once the connection has its socket, the new connection is the one in hand. -/
theorem inHand_of_hasSocket {pc : Pc} (h : pc.HasSocket) (new : List (Addr × Conn)) :
    inHand pc new = new.map Prod.fst := by
  cases pc with
  | link conn p args => exact absurd h id
  | _ => rfl

/-- A step between two places with a socket. -/
theorem Ledger.of_sockets (h : Ledger s₀ s l new) (hmem : s'.mem = s.mem)
    (hopen : ∀ fd, (s'.sockets fd).isOpen = (s.sockets fd).isOpen)
    (hpc : s.pc.HasSocket) (hpc' : s'.pc.HasSocket) : Ledger s₀ s' l new := by
  have hhand : inHand s'.pc new = inHand s.pc new := by
    rw [inHand_of_hasSocket hpc, inHand_of_hasSocket hpc']
  exact h.of_same (fun a => by rw [hmem]) hopen rfl hhand rfl
    (fun _ => and_congr_left' (iff_of_true hpc' hpc))

/-- A socket that is written, and not opened or closed, leaves all of them as open as before. -/
theorem isOpen_update {sockets : Int → Socket} {k : Socket} (h : k.isOpen = (sockets fd).isOpen)
    (fd' : Int) : (Function.update sockets fd k fd').isOpen = (sockets fd').isOpen := by
  by_cases heq : fd' = fd
  · rw [heq, Function.update_self, h]
  · rw [Function.update_of_ne heq]

/-- When `aIOOpenUDPSocket` has not been called yet the ledger is empty. -/
theorem Ledger.start (h : Started s₀) : Ledger s₀ s₀ [] [] where
  mem a := by simp [inHand, h.pc]
  fresh a ha := by simp [inHand, h.pc] at ha
  isOpen fd := by simp [Pc.HasSocket, h.pc]
  closed fd hfd := by simp [Pc.HasSocket, h.pc] at hfd
  nodup := List.nodup_nil

/-! ### Interrupts -/

/-- An interrupt allocates and frees no connection, so the ledger stays. -/
theorem Ledger.interrupted (h : Ledger s₀ s l new) (hmem : ∀ a, a ∈ s'.mem ↔ a ∈ s.mem)
    (hi : Interrupted l s s' l') : Ledger s₀ s' l' new :=
  h.of_same hmem hi.sockets.isOpen hi.addrs (by rw [hi.pc]) hi.fds (fun _ => by rw [hi.pc])

/-- An interrupt leaves the same addresses in use. -/
theorem Interrupted.mem_iff (hi : Interrupted l s s' l') (h : Registered s l new)
    (h' : Registered s' l' new) (a : Addr) : a ∈ s'.mem ↔ a ∈ s.mem := by
  by_cases ha : a ∈ l.map Prod.fst
  · have hmem := Seg.mem h.list a
    have hmem' := Seg.mem h'.list a
    rw [List.map_append, List.mem_cons, List.mem_append] at hmem hmem'
    exact iff_of_true (hmem' (Or.inr (Or.inl (hi.addrs ▸ ha)))) (hmem (Or.inr (Or.inl ha)))
  · rw [← nextOf_isSome, (hi.frame a ha).1, nextOf_isSome]

/-- The invariant of a run: the process has exited, or its ledger is right. -/
def Accounted (s₀ s : State) : Prop :=
  ∃ l new, Opening s l new ∧ (s.pc = .exited ∨ Ledger s₀ s l new)

/-- The ledger survives an interrupt of the code that opens a socket. -/
theorem Opening.account_interrupt (h : Opening s l new)
    (hledger : s.pc = .exited ∨ Ledger s₀ s l new) (hstep : interrupt s e = some s') :
    Accounted s₀ s' := by
  obtain ⟨hmem, hpc, hsame⟩ | ⟨fd, hfd, hhandler⟩ := interrupt_cases hstep
  · have hopen : ∀ fd, (s.sockets fd).isOpen = true → (s'.sockets fd).isOpen = true :=
      fun fd hopen => (hsame.isOpen fd).trans hopen
    have hregistered : Registered s' l new :=
      ⟨hmem ▸ h.list, hmem ▸ h.head, fun e he => (h.ready e he).congr hopen⟩
    have hi : Interrupted l s s' l := ⟨hpc, hsame, rfl, rfl, fun a _ => by simp [hmem]⟩
    exact ⟨l, new, h.interrupted hregistered hi, hledger.imp (hi.pc.trans ·) fun hledger =>
      hledger.interrupted (hi.mem_iff h.toRegistered hregistered) hi⟩
  · have hunlocking := (h.completes_iff hfd).mp ⟨s', hhandler⟩
    obtain ⟨s₁, l', hs₁, hregistered, hi⟩ :=
      h.toRegistered.served ((h.armed fd hfd).resolve_right hunlocking)
    cases hhandler.symm.trans hs₁
    exact ⟨l', new, h.interrupted hregistered hi, hledger.imp (hi.pc.trans ·) fun hledger =>
      hledger.interrupted (hi.mem_iff h.toRegistered hregistered) hi⟩

/-! ### Steps of `aIOOpenUDPSocket` -/

/-- After an allocation one more address is in use. -/
theorem mem_alloc {v : Conn} (h : alloc m p v = some m') (a : Addr) : a ∈ m' ↔ a ∈ m ∨ a = p := by
  rw [← nextOf_isSome, nextOf_alloc h, ← nextOf_isSome]
  by_cases ha : a = p
  · simp [ha]
  · simp [ha]

/-- Writing a link leaves the same addresses in use. -/
theorem mem_setNext {z : Option Addr} (h : setNext m p z = some m') (a : Addr) :
    a ∈ m' ↔ a ∈ m := by
  have hp : p ∈ m := by
    obtain ⟨n, hn, -⟩ := Option.map_eq_some_iff.mp h
    exact Finmap.mem_iff.mpr ⟨n, hn⟩
  rw [← nextOf_isSome, nextOf_setNext h, ← nextOf_isSome]
  by_cases ha : a = p
  · rw [if_pos ha, ha]
    exact iff_of_true rfl (nextOf_isSome.mpr hp)
  · rw [if_neg ha]

/-- The new node has been allocated. -/
theorem Ledger.created {conn : Addr} {args : OpenArgs} {v : Conn} (h : Ledger s₀ s l [])
    (hpc : s.pc = .create conn args) (halloc : alloc s.mem p v = some m) :
    Ledger s₀ { s with mem := m, pc := .link conn p args } l [] := by
  have hp := not_mem_of_alloc halloc
  have hhand : inHand s.pc [] = [] := by rw [hpc]; rfl
  have hmem := h.mem
  have hfresh := h.fresh
  rw [hhand] at hfresh
  simp only [hhand, List.not_mem_nil, or_false] at hmem
  constructor
  · intro a
    -- the new node is in hand until it is linked into the list
    show a ∈ m ↔ a ∈ s₀.mem ∨ a ∈ l.map Prod.fst ∨ a ∈ [p]
    rw [mem_alloc halloc, hmem, List.mem_singleton, or_assoc]
  · rintro a (ha | ha)
    · exact hfresh a (Or.inl ha)
    · obtain rfl : a = p := List.mem_singleton.mp ha
      exact fun hstart => hp ((hmem a).mpr (Or.inl hstart))
  · intro fd
    have hopen := h.isOpen fd
    simpa [Pc.HasSocket, hpc] using hopen
  · intro fd hfd
    apply h.closed fd
    simpa [Pc.HasSocket, hpc] using hfd
  · exact h.nodup

/-- `socket` has returned a descriptor that was not open. -/
theorem Ledger.socketed {conn sUdp : Addr} (h : Ledger s₀ s l [(p, c)])
    (hpc : s.pc = .socket conn sUdp) (hclosed : (s.sockets fd).isOpen = false) {c' : Conn}
    (hc' : c'.fd = fd) (hmem : ∀ a, a ∈ m ↔ a ∈ s.mem) :
    Ledger s₀ { s with
      mem := m, pc := .sigaction conn sUdp,
      sockets := if fd < 0 then s.sockets
        else Function.update s.sockets fd { Socket.closed with isOpen := true } } l [(p, c')] := by
  have hopen := h.isOpen
  have hclosed₀ := h.closed
  simp only [hpc, Pc.HasSocket, false_and, or_false] at hopen hclosed₀
  -- a descriptor that is not in use was not in use at the start
  have hstart : (s₀.sockets fd).isOpen = false := by
    by_contra hne
    have hnow := (hopen fd).mpr (Or.inl (by simpa using hne))
    rw [hclosed] at hnow
    cases hnow
  constructor
  · intro a
    show a ∈ m ↔ _
    rw [hmem, h.mem, hpc]
    rfl
  · intro a ha
    apply h.fresh a
    rw [hpc]
    exact ha
  · intro fd'
    simp only [Pc.HasSocket, true_and, List.map_cons, List.map_nil, List.mem_singleton, hc']
    rw [← or_assoc, ← hopen fd']
    -- `socket` fails, or the connection in hand now has a socket
    by_cases hneg : fd < 0
    · rw [if_pos hneg]
      constructor
      · exact Or.inl
      · rintro (h' | ⟨rfl, hpos⟩)
        · exact h'
        · omega
    · rw [if_neg hneg]
      by_cases heq : fd' = fd
      · subst heq
        rw [Function.update_self]
        exact iff_of_true rfl (Or.inr ⟨rfl, by omega⟩)
      · rw [Function.update_of_ne heq]
        exact (or_iff_left fun hand => heq hand.1).symm
  · -- the new descriptor is none of the sockets at the start
    rintro fd' (hfd' | ⟨-, hfd'⟩)
    · exact hclosed₀ fd' hfd'
    · rw [List.map_cons, List.map_nil, List.mem_singleton, hc'] at hfd'
      rw [hfd']
      exact hstart
  · exact h.nodup

/-- The connection is registered. -/
theorem Ledger.unlocked {conn : Addr} (h : Ledger s₀ s l [(p, c)]) (hpc : s.pc = .unlock conn)
    (hmem : ∀ a, a ∈ m ↔ a ∈ s.mem) (hfd : c.fd ∉ l.map fun e => e.2.fd)
    (hopen : (s.sockets c.fd).isOpen = true) {c' : Conn} (hc' : c'.fd = c.fd) :
    Ledger s₀ { s with mem := m, pc := .main } (l ++ [(p, c')]) [] := by
  have hisOpen := h.isOpen
  have hclosed := h.closed
  simp only [hpc, Pc.HasSocket, true_and, List.map_cons, List.map_nil, List.mem_singleton]
    at hisOpen hclosed
  -- the socket is open, and only the connection in hand can have opened it
  have hpos : 0 ≤ c.fd := by
    obtain hstart | hmem | ⟨-, hpos⟩ := (hisOpen c.fd).mp hopen
    · rw [hclosed c.fd (Or.inr rfl)] at hstart
      cases hstart
    · exact absurd hmem hfd
    · exact hpos
  -- the new connection goes from the hand into the list
  have hhand : inHand s.pc [(p, c)] = [p] := by rw [hpc]; rfl
  constructor
  · intro a
    show a ∈ m ↔ a ∈ s₀.mem ∨ a ∈ (l ++ [(p, c')]).map Prod.fst ∨ a ∈ []
    rw [hmem, h.mem, hhand, List.map_append, List.mem_append]
    simp
  · intro a ha
    apply h.fresh a
    rw [hhand]
    simpa [inHand] using ha
  · intro fd
    rw [hisOpen fd]
    simp only [Pc.HasSocket, false_and, or_false, List.map_append, List.mem_append, List.map_cons,
      List.map_nil, List.mem_singleton, hc']
    refine or_congr_right (or_congr_right (and_iff_left_of_imp ?_))
    rintro rfl
    exact hpos
  · intro fd ha
    apply hclosed fd
    simpa [Pc.HasSocket, hc'] using ha
  · rw [List.map_append, List.nodup_append]
    refine ⟨h.nodup, by simp, ?_⟩
    intro fd hmem fd' hmem' heq
    rw [List.map_cons, List.map_nil, List.mem_singleton, hc'] at hmem'
    exact hfd (hmem' ▸ heq ▸ hmem)

/-- Only the contents of nodes change. -/
theorem Opening.new_addrs (h : Opening s l new) (h' : Opening s' l new')
    (hnext : ∀ u, nextOf s'.mem u = nextOf s.mem u) : new'.map Prod.fst = new.map Prod.fst := by
  have haddrs := map_fst_eq h.list h'.list hnext
  rw [List.map_append, List.map_append] at haddrs
  exact List.append_cancel_left haddrs

/-- Taking a lock writes the value of the connection. -/
theorem lock_setVal (h : lock m a = .ok m') : ∃ g, setVal m a g = some m' := by
  unfold lock at h
  cases hval : valOf m a with
  | none => simp [hval, access, bind, Except.bind] at h
  | some v =>
    simp only [hval, access_some, bind, Except.bind] at h
    split at h
    · cases h
    · cases hset : setVal m a fun c => { c with locked := true } with
      | none => rw [hset] at h; cases h
      | some m₁ =>
        rw [hset] at h
        cases h
        exact ⟨_, hset⟩

/-- The ledger survives every step of `aIOOpenUDPSocket` itself. -/
theorem Opening.account_opens (h : Opening s l new) (hledger : Ledger s₀ s l new)
    (hgranted : Granted s e) (hstep : Opens s e s') : Accounted s₀ s' := by
  cases hstep with
  | @call args conn hpc hlast =>
    have hnew : new = [] := by simpa only [Place, hpc] using h.place
    exact ⟨l, new, h.called hpc hlast, Or.inr <|
      hledger.of_mem (fun _ => Iff.rfl) rfl (by rw [hpc]; rfl) (by rw [hpc]; exact id) id⟩
  | @create conn args p bytes m hpc halloc =>
    obtain ⟨rfl, -⟩ : new = [] ∧ conn = lastAddr headAddr l := by
      simpa only [Place, hpc] using h.place
    have hlen : bytes.length = args.bufferSize.toNat := by simpa [Granted, hpc] using hgranted
    exact ⟨l, [], h.created hpc ⟨rfl, bytes, rfl, hlen⟩ rfl halloc,
      Or.inr (hledger.created hpc halloc)⟩
  | @link conn p args m ok hpc hlink =>
    obtain ⟨c, hc⟩ := h.linked hpc hlink
    exact ⟨l, _, hc, Or.inr <|
      hledger.of_mem (mem_setNext hlink) rfl (by rw [hpc]; rfl) (by rw [hpc]; exact id) id⟩
  | @lock conn p args m ok hpc hnext hlock =>
    obtain ⟨new', h'⟩ := h.locked hpc hnext hlock
    obtain ⟨g, hset⟩ := lock_setVal hlock
    exact ⟨l, new', h', Or.inr <| hledger.of_mem (mem_setVal hset) rfl
      (by rw [hpc]; exact h.new_addrs h' (nextOf_setVal hset)) (by rw [hpc]; exact id) id⟩
  | @fill conn sUdp args m ok hpc hset =>
    obtain ⟨new', h'⟩ := h.addressed hpc hset
    exact ⟨l, new', h', Or.inr <| hledger.of_mem (mem_setVal hset) rfl
      (by rw [hpc]; exact h.new_addrs h' (nextOf_setVal hset)) (by rw [hpc]; exact id) id⟩
  | @socket conn sUdp fd m hpc hset =>
    have hclosed : (s.sockets fd).isOpen = false := by simpa [Granted, hpc] using hgranted
    obtain ⟨new', h'⟩ := h.socketed hpc hclosed hset
    by_cases hzero : fd = 0
    · exact ⟨l, new', h', Or.inl (if_pos hzero)⟩
    · rw [if_neg hzero] at h' ⊢
      obtain ⟨c, hbehind⟩ : ∃ c, Behind l new conn sUdp c := by
        simpa only [Place, hpc] using h.place
      obtain ⟨c', hbehind', -⟩ : ∃ c', Behind l new' conn sUdp c' ∧ Unowned _ l c'.fd := h'.place
      obtain rfl := hbehind.new
      obtain rfl := hbehind'.new
      have hval : valOf m sUdp = some c' := (seg_append.mp h'.list).2.1
      have hfd : c'.fd = fd := by
        rw [valOf_setVal hset, if_pos rfl] at hval
        obtain ⟨c₁, -, rfl⟩ := Option.map_eq_some_iff.mp hval
        rfl
      exact ⟨l, _, h', Or.inr (hledger.socketed hpc hclosed hfd (mem_setVal hset))⟩
  | @sigaction conn sUdp ok hpc =>
    obtain ⟨hunlocking, c, -, hbehind, hunowned⟩ := h.midway (.inl hpc)
    exact ⟨l, new, h.move hunlocking ⟨c, hbehind, hunowned⟩,
      Or.inr <| hledger.of_sockets rfl (fun _ => rfl) (by rw [hpc]; trivial) trivial⟩
  | @setFl conn sUdp c ok hpc hval =>
    obtain ⟨hunlocking, c, hval', hbehind, hunowned⟩ := h.midway (.inr (.inl hpc))
    cases hval'.symm.trans hval
    exact ⟨l, new, h.flag _ (fun k => { k with async := true }) hunlocking (fun _ => rfl)
      (fun _ => rfl) hunowned fun _ hunowned' => ⟨_, hbehind, hunowned'⟩,
      Or.inr <| hledger.of_sockets rfl (isOpen_update rfl) (by rw [hpc]; trivial) trivial⟩
  | @setSig conn sUdp c ok hpc hval =>
    obtain ⟨hunlocking, c, hval', hbehind, hunowned⟩ := h.midway (.inr (.inr (.inl hpc)))
    cases hval'.symm.trans hval
    exact ⟨l, new, h.flag _ (fun k => { k with sig := true }) hunlocking (fun _ => rfl)
      (fun _ => rfl) hunowned fun _ hunowned' => ⟨_, hbehind, hunowned'⟩,
      Or.inr <| hledger.of_sockets rfl (isOpen_update rfl) (by rw [hpc]; trivial) trivial⟩
  | @setSigFailed conn sUdp ok hpc =>
    obtain ⟨hunlocking, c, -, hbehind, hunowned⟩ := h.midway (.inr (.inr (.inl hpc)))
    exact ⟨l, new, h.move hunlocking ⟨c, hbehind, hunowned⟩,
      Or.inr <| hledger.of_sockets rfl (fun _ => rfl) (by rw [hpc]; trivial) trivial⟩
  | @bind conn sUdp ok hpc =>
    obtain ⟨hunlocking, c, -, hbehind, hunowned⟩ := h.midway (.inr (.inr (.inr (.inl hpc))))
    exact ⟨l, new, h.move hunlocking ⟨c, hbehind, hunowned⟩,
      Or.inr <| hledger.of_sockets rfl (fun _ => rfl) (by rw [hpc]; trivial) trivial⟩
  | @setOwn conn sUdp c ok hpc hval hopen =>
    exact ⟨l, new, h.owned hpc hval hopen,
      Or.inr <| hledger.of_sockets rfl (isOpen_update rfl) (by rw [hpc]; trivial) trivial⟩
  | @unlock conn p m ok hpc hnext hunlock =>
    obtain ⟨l', h'⟩ := h.unlocked hpc hnext hunlock
    obtain ⟨p', c, hbehind, hfresh, hopen⟩ : ∃ p c, Behind l new conn p c ∧
        (c.fd ∉ l.map fun e => e.2.fd) ∧ (s.sockets c.fd).isOpen = true := by
      simpa only [Place, hpc] using h.place
    obtain rfl := hbehind.new
    have hfront : nextOf s.mem conn = some (some p') := by
      rw [hbehind.conn]
      exact h.list.nextOf_front
    obtain rfl : p' = p := by simpa using hfront.symm.trans hnext
    obtain ⟨m', hm⟩ := exists_setVal (mem_of_valOf (seg_append.mp h.list).2.1) released
    have hm' : setVal s.mem p' (fun c => { c with locked := false }) = some m' := hm
    obtain rfl : m' = m := by simpa [unlock, hm'] using hunlock
    -- the list is the one before with the last connection unlocked
    have hlist : IsList m' headAddr (l ++ [(p', released c)]) := h.list.update hm
    have hlist' : IsList m' headAddr l' := by
      have hall := h'.list
      rwa [List.append_nil] at hall
    obtain rfl := hlist'.unique hlist
    exact ⟨_, [], h', Or.inr (hledger.unlocked hpc (mem_setVal hm) hfresh hopen rfl)⟩
  | exit hpc => exact ⟨l, new, h.move hpc trivial, Or.inl rfl⟩

/-- The ledger survives every step of a run. -/
theorem Accounted.step (h : Accounted s₀ s) (hgranted : Granted s e)
    (hstep : openStep s e = some s') : Accounted s₀ s' := by
  obtain ⟨l, new, hopening, hledger⟩ := h
  have hopens (hstep : aIOOpenUDPSocket s e = some s') : Accounted s₀ s' := by
    obtain hexited | hledger := hledger
    · simp [aIOOpenUDPSocket, hexited] at hstep
    · exact hopening.account_opens hledger hgranted (aIOOpenUDPSocket_cases hstep)
  cases e with
  | arrive fd datagram =>
    have hinterrupt : interrupt s (.arrive fd datagram) = some s' := hstep
    exact hopening.account_interrupt hledger hinterrupt
  | sigio fd =>
    have hinterrupt : interrupt s (.sigio fd) = some s' := hstep
    exact hopening.account_interrupt hledger hinterrupt
  | _ => exact hopens hstep

end AsyncUdp
