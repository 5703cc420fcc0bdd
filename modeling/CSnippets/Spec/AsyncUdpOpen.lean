import CSnippets.ForStd.Runs
import CSnippets.Spec.AsyncUdpHandler

/-!
# Interrupting `aIOOpenUDPSocket`

`aIOOpenUDPSocket` links the new connection behind the last one, locks it, arms its
socket and unlocks it. A `SIGIO` for an earlier socket is served at every point, since
the walk ends in front of the new connection. From `F_SETOWN` on the new socket is armed
as well, while the interrupted code still holds the lock of its connection.
-/

namespace AsyncUdp

open SentinelList

variable {s s' : State} {e : Event} {l l' new : List (Addr × Conn)} {fd : Int}
  {sockets sockets' : Int → Socket} {c : Conn} {d p : Addr} {m m' : Memory Conn}

/-! ## The invariant -/

/-- The connection being opened is linked behind the registered ones and locked. -/
structure Behind (l new : List (Addr × Conn)) (conn sUdp : Addr) (c : Conn) : Prop where
  new : new = [(sUdp, c)]
  conn : conn = lastAddr headAddr l
  made : Made c
  locked : c.locked = true

/-- Its descriptor is none of the registered ones, and nobody owns its socket. -/
structure Unowned (sockets : Int → Socket) (l : List (Addr × Conn)) (fd : Int) : Prop where
  fresh : fd ∉ l.map fun e => e.2.fd
  unowned : (sockets fd).isOpen = true → (sockets fd).owner = false

/-- How far the new connection is at each place in `aIOOpenUDPSocket`. -/
def Place (s : State) (l new : List (Addr × Conn)) : Prop :=
  match s.pc with
  | .main => new = []
  | .create conn _ => new = [] ∧ conn = lastAddr headAddr l
  | .link conn p _ => new = [] ∧ conn = lastAddr headAddr l ∧ p ∉ headAddr :: l.map Prod.fst ∧
      nextOf s.mem p = some none ∧ ∃ c, valOf s.mem p = some c ∧ Made c ∧ c.locked = false
  | .lock conn _ => conn = lastAddr headAddr l ∧
      ∃ p c, new = [(p, c)] ∧ Made c ∧ c.locked = false
  | .fill conn sUdp _ => ∃ c, Behind l new conn sUdp c
  | .socket conn sUdp => ∃ c, Behind l new conn sUdp c
  | .sigaction conn sUdp | .setFl conn sUdp | .setSig conn sUdp | .bind conn sUdp
  | .setOwn conn sUdp => ∃ c, Behind l new conn sUdp c ∧ Unowned s.sockets l c.fd
  | .unlock conn => ∃ p c, Behind l new conn p c ∧ (c.fd ∉ l.map fun e => e.2.fd) ∧
      (s.sockets c.fd).isOpen = true
  | .exited => True
  | _ => False

/-- The socket that `aIOOpenUDPSocket` has armed and whose connection it still holds
    locked: from `F_SETOWN` to the unlock. -/
def unlocking (s : State) : Option Int :=
  match s.pc with
  | .unlock conn => do
    let new ← nextOf s.mem conn
    let new ← new
    let c ← valOf s.mem new
    return c.fd
  | _ => none

/-- The invariant of a run: only registered sockets are armed, and the one whose
    connection is about to be unlocked. -/
structure Opening (s : State) (l new : List (Addr × Conn)) : Prop
    extends Registered s l new where
  place : Place s l new
  armed : ∀ fd, Armed s fd → (∃ e ∈ l, e.2.fd = fd) ∨ unlocking s = some fd

/-- At the unlock, the connection behind `conn` is the new one. -/
theorem Registered.unlocking_eq {conn : Addr} (h : Registered s l new) (hpc : s.pc = .unlock conn)
    (hbehind : Behind l new conn p c) : unlocking s = some c.fd := by
  have hlist := h.list
  rw [hbehind.new] at hlist
  have hnext : nextOf s.mem conn = some (some p) := by rw [hbehind.conn]; exact hlist.nextOf_front
  have hval : valOf s.mem p = some c := (seg_append.mp hlist).2.1
  simp [unlocking, hpc, hnext, hval]

/-- At the unlock the connection being opened is behind all others and locked. -/
theorem Opening.of_unlocking (h : Opening s l new) (hfd : unlocking s = some fd) :
    ∃ conn p c, s.pc = .unlock conn ∧ Behind l new conn p c ∧ c.fd = fd ∧
      fd ∉ l.map fun e => e.2.fd := by
  have hplace := h.place
  cases hpc : s.pc with
  | unlock conn =>
    simp only [Place, hpc] at hplace
    obtain ⟨p, c, hbehind, hfresh, -⟩ := hplace
    have hcfd : c.fd = fd := by
      have hsome := h.toRegistered.unlocking_eq hpc hbehind
      exact Option.some.inj (hsome.symm.trans hfd)
    exact ⟨conn, p, c, rfl, hbehind, hcfd, hcfd ▸ hfresh⟩
  | _ => simp [unlocking, hpc] at hfd

/-- The handler completes unless it is run for the socket that is armed while its
    connection is still locked. -/
theorem Opening.completes_iff (h : Opening s l new) (hfd : Armed s fd) :
    (∃ s', aIOUDPSigHandler s fd = .ok s') ↔ unlocking s ≠ some fd := by
  constructor
  · rintro ⟨s', hs'⟩ hunlocking
    obtain ⟨conn, p, c, -, hbehind, -, hfresh⟩ := h.of_unlocking hunlocking
    -- the walk goes past all registered connections and then waits
    have hlist := h.list
    rw [hbehind.new] at hlist
    have hpassed : ∀ e ∈ l, Passed fd e.2 := fun e he =>
      ⟨(h.ready e he).unlocked, fun hmatch => hfresh (List.mem_map.mpr ⟨e, he, hmatch.2⟩)⟩
    have hfind := findConnection_locked h.head hlist hpassed hbehind.locked
    simp [aIOUDPSigHandler, hfind, bind, Except.bind] at hs'
  · intro hunlocking
    have hregistered := (h.armed fd hfd).resolve_right hunlocking
    obtain ⟨s', l', hs', -, -⟩ := h.toRegistered.served hregistered
    exact ⟨s', hs'⟩

/-! ## Interrupts keep the invariant -/

/-- Only the addresses of the connections in front matter. -/
theorem Behind.congr {conn : Addr} (h : Behind l new conn p c)
    (haddrs : l'.map Prod.fst = l.map Prod.fst) : Behind l' new conn p c :=
  { h with conn := h.conn.trans (lastAddr_congr haddrs).symm }

/-- Interrupts change neither the descriptors nor the owners. -/
theorem Unowned.congr (h : Unowned sockets l fd)
    (hfds : l'.map (fun e => e.2.fd) = l.map fun e => e.2.fd)
    (hsockets : SameButQueue sockets sockets') : Unowned sockets' l' fd where
  fresh := hfds ▸ h.fresh
  unowned := by
    rw [hsockets.isOpen, hsockets.owner]
    exact h.unowned

/-- An interrupt leaves the new connection as far as it was. -/
theorem Interrupted.place (hi : Interrupted l s s' l') (h : Place s l new) :
    Place s' l' new := by
  have hlast : lastAddr headAddr l = lastAddr headAddr l' := (lastAddr_congr hi.addrs).symm
  unfold Place at h ⊢
  rw [hi.pc]
  cases hpc : s.pc with
  | main => simpa only [hpc] using h
  | create conn args => simpa only [hpc, hlast] using h
  | link conn p args =>
    -- the new connection is not in the list yet, so no interrupt reaches it
    simp only [hpc] at h ⊢
    obtain ⟨hnew, hconn, hp, hnext, c, hval, hc⟩ := h
    obtain ⟨hnext', hval'⟩ := hi.frame p fun hmem => hp (List.mem_cons_of_mem _ hmem)
    exact ⟨hnew, hconn.trans hlast, hi.addrs ▸ hp, hnext'.trans hnext, c, hval'.trans hval, hc⟩
  | lock conn args => simpa only [hpc, hlast] using h
  | fill conn sUdp args =>
    simp only [hpc] at h ⊢
    exact h.imp fun c hc => hc.congr hi.addrs
  | socket conn sUdp =>
    simp only [hpc] at h ⊢
    exact h.imp fun c hc => hc.congr hi.addrs
  | sigaction conn sUdp | setFl conn sUdp | setSig conn sUdp | bind conn sUdp
  | setOwn conn sUdp =>
    simp only [hpc] at h ⊢
    exact h.imp fun c hc => ⟨hc.1.congr hi.addrs, hc.2.congr hi.fds hi.sockets⟩
  | unlock conn =>
    simp only [hpc] at h ⊢
    obtain ⟨p, c, hbehind, hfresh, hopen⟩ := h
    exact ⟨p, c, hbehind.congr hi.addrs, hi.fds ▸ hfresh, (hi.sockets.isOpen _).trans hopen⟩
  | exited => trivial
  | deinit iterator | freeBuffer del iterator | close del iterator | free del iterator =>
    simp only [hpc] at h

/-- A list that an interrupt leaves registered keeps the whole invariant. -/
theorem Opening.interrupted (h : Opening s l new) (hregistered : Registered s' l' new)
    (hi : Interrupted l s s' l') : Opening s' l' new := by
  refine { hregistered with place := hi.place h.place, armed := fun fd hfd => ?_ }
  have hfds : (∃ e ∈ l', e.2.fd = fd) ↔ ∃ e ∈ l, e.2.fd = fd := by
    rw [← List.mem_map (f := fun e : Addr × Conn => e.2.fd), hi.fds, List.mem_map]
  rw [hfds]
  rcases h.armed fd ((hi.sockets.armed fd).mp hfd) with hmem | hunlocking
  · exact Or.inl hmem
  · obtain ⟨conn, p, c, hpc, hbehind, hcfd, -⟩ := h.of_unlocking hunlocking
    rw [← hcfd]
    exact Or.inr (hregistered.unlocking_eq (hi.pc.trans hpc) (hbehind.congr hi.addrs))

/-- Every interrupt that returns keeps the invariant. -/
theorem Opening.interrupt_step (h : Opening s l new) (hstep : interrupt s e = some s') :
    ∃ l', Opening s' l' new := by
  obtain ⟨hmem, hpc, hsame⟩ | ⟨fd, hfd, hhandler⟩ := interrupt_cases hstep
  · have hopen : ∀ fd, (s.sockets fd).isOpen = true → (s'.sockets fd).isOpen = true :=
      fun fd hopen => (hsame.isOpen fd).trans hopen
    have hregistered : Registered s' l new :=
      ⟨hmem ▸ h.list, hmem ▸ h.head, fun e he => (h.ready e he).congr hopen⟩
    exact ⟨l, h.interrupted hregistered ⟨hpc, hsame, rfl, rfl, fun a _ => by simp [hmem]⟩⟩
  · have hunlocking := (h.completes_iff hfd).mp ⟨s', hhandler⟩
    obtain ⟨s₁, l', hs₁, hregistered, hi⟩ :=
      h.toRegistered.served ((h.armed fd hfd).resolve_right hunlocking)
    cases hhandler.symm.trans hs₁
    exact ⟨l', h.interrupted hregistered hi⟩

/-! ## The steps of `aIOOpenUDPSocket` -/

/-- `malloc` returns a block of the size asked for, `socket` a descriptor that is not
    open. -/
def Granted (s : State) (e : Event) : Prop :=
  (match s.pc, e with
  | .create _ args, .calloc _ (some buffer) => buffer.length == args.bufferSize.toNat
  | .socket _ _, .socket fd => !(s.sockets fd).isOpen
  | _, _ => true) = true

instance (s : State) (e : Event) : Decidable (Granted s e) := inferInstanceAs (Decidable (_ = true))

/-- A step up to the unlock arms no socket but the one whose unlock comes next. -/
theorem Opening.next {new' : List (Addr × Conn)} (h : Opening s l new)
    (hunlocking : unlocking s = none) (hregistered : Registered s' l new')
    (hplace : Place s' l new')
    (harmed : ∀ fd, Armed s' fd → Armed s fd ∨ unlocking s' = some fd) : Opening s' l new' := by
  refine { hregistered with place := hplace, armed := fun fd hfd => ?_ }
  rcases harmed fd hfd with hbefore | hnow
  · have hnone : unlocking s ≠ some fd := by rw [hunlocking]; exact nofun
    exact Or.inl ((h.armed fd hbefore).resolve_right hnone)
  · exact Or.inr hnow

/-- Only the place changes. -/
theorem Opening.move {pc : Pc} (h : Opening s l new) (hunlocking : unlocking s = none)
    (hplace : Place { s with pc := pc } l new) : Opening { s with pc := pc } l new :=
  h.next hunlocking ⟨h.list, h.head, h.ready⟩ hplace fun _ hfd => Or.inl hfd

/-- A change of the connection being opened. -/
theorem Registered.update {g : Conn → Conn} (h : Registered s l [(p, c)])
    (hset : setVal s.mem p g = some m)
    (hopen : ∀ fd, (s.sockets fd).isOpen = true → (sockets fd).isOpen = true) (pc : Pc) :
    Registered { s with mem := m, sockets := sockets, pc := pc } l [(p, g c)] where
  list := h.list.update hset
  head := by
    have hp : headAddr ≠ p := (h.not_mem_head (by simp)).symm
    apply h.head.congr
    rw [valOf_setVal hset, if_neg hp]
  ready e he := (h.ready e he).congr hopen

/-- What one step of `aIOOpenUDPSocket` does. -/
inductive Opens (s : State) : Event → State → Prop where
  | call {args : OpenArgs} {conn : Addr} (hpc : s.pc = .main)
      (hlast : getLastConnection s.mem = some conn) :
      Opens s (.call args) { s with pc := .create conn args }
  | create {conn : Addr} {args : OpenArgs} {p : Addr} {bytes : List UInt8} {m : Memory Conn}
      (hpc : s.pc = .create conn args)
      (halloc : alloc s.mem p
        { type := .udp, fd := 0, sAddr := 0, sinPort := 0, bufferSize := args.bufferSize,
          buffer := some bytes, callback := args.callback, args := args.args, locked := false } =
        some m) :
      Opens s (.calloc (some p) (some bytes)) { s with mem := m, pc := .link conn p args }
  | link {conn p : Addr} {args : OpenArgs} {m : Memory Conn} {ok : Bool}
      (hpc : s.pc = .link conn p args) (hlink : setNext s.mem conn (some p) = some m) :
      Opens s (.next ok) { s with mem := m, pc := .lock conn args }
  | lock {conn p : Addr} {args : OpenArgs} {m : Memory Conn} {ok : Bool}
      (hpc : s.pc = .lock conn args) (hnext : nextOf s.mem conn = some (some p))
      (hlock : AsyncUdp.lock s.mem p = .ok m) :
      Opens s (.next ok) { s with mem := m, pc := .fill conn p args }
  | fill {conn sUdp : Addr} {args : OpenArgs} {m : Memory Conn} {ok : Bool}
      (hpc : s.pc = .fill conn sUdp args)
      (hset : setVal s.mem sUdp (fun c => { c with sAddr := args.sAddr, sinPort := args.port }) =
        some m) :
      Opens s (.next ok) { s with mem := m, pc := .socket conn sUdp }
  | socket {conn sUdp : Addr} {fd : Int} {m : Memory Conn} (hpc : s.pc = .socket conn sUdp)
      (hset : setVal s.mem sUdp (fun c => { c with fd := fd }) = some m) :
      Opens s (.socket fd) { s with
        mem := m, pc := if fd = 0 then .exited else .sigaction conn sUdp,
        sockets := if fd < 0 then s.sockets
          else Function.update s.sockets fd { Socket.closed with isOpen := true } }
  | sigaction {conn sUdp : Addr} {ok : Bool} (hpc : s.pc = .sigaction conn sUdp) :
      Opens s (.next ok) { s with pc := .setFl conn sUdp }
  | setFl {conn sUdp : Addr} {c : Conn} {ok : Bool} (hpc : s.pc = .setFl conn sUdp)
      (hval : valOf s.mem sUdp = some c) :
      Opens s (.next ok) { s with
        sockets := Function.update s.sockets c.fd { s.sockets c.fd with async := true },
        pc := .setSig conn sUdp }
  | setSig {conn sUdp : Addr} {c : Conn} {ok : Bool} (hpc : s.pc = .setSig conn sUdp)
      (hval : valOf s.mem sUdp = some c) :
      Opens s (.next ok) { s with
        sockets := Function.update s.sockets c.fd { s.sockets c.fd with sig := true },
        pc := .bind conn sUdp }
  | setSigFailed {conn sUdp : Addr} {ok : Bool} (hpc : s.pc = .setSig conn sUdp) :
      Opens s (.next ok) { s with pc := .bind conn sUdp }
  | bind {conn sUdp : Addr} {ok : Bool} (hpc : s.pc = .bind conn sUdp) :
      Opens s (.next ok) { s with pc := .setOwn conn sUdp }
  | setOwn {conn sUdp : Addr} {c : Conn} {ok : Bool} (hpc : s.pc = .setOwn conn sUdp)
      (hval : valOf s.mem sUdp = some c) (hopen : (s.sockets c.fd).isOpen = true) :
      Opens s (.next ok) { s with
        sockets := Function.update s.sockets c.fd { s.sockets c.fd with owner := true },
        pc := .unlock conn }
  | unlock {conn p : Addr} {m : Memory Conn} {ok : Bool} (hpc : s.pc = .unlock conn)
      (hnext : nextOf s.mem conn = some (some p)) (hunlock : AsyncUdp.unlock s.mem p = .ok m) :
      Opens s (.next ok) { s with mem := m, pc := .main }
  | exit {e : Event} (hpc : unlocking s = none) : Opens s e { s with pc := .exited }

/-- `fcntl` fails, or it sets one flag of the connection's own socket. -/
theorem fcntl_cases {ok : Bool} {f : Socket → Socket} {r : Option (Int → Socket)}
    (h : fcntl s p ok f = some r) :
    r = none ∨ ∃ c, valOf s.mem p = some c ∧ (s.sockets c.fd).isOpen = true ∧
      r = some (Function.update s.sockets c.fd (f (s.sockets c.fd))) := by
  obtain ⟨c, hval, h⟩ := Option.bind_eq_some_iff.mp h
  split at h
  · rename_i hok
    cases h
    exact Or.inr ⟨c, hval, hok.2, rfl⟩
  · cases h
    exact Or.inl rfl

/-- A result that is there is no error. -/
theorem toOption_eq_some {α : Type} {r : Except Halt α} {x : α} (h : r.toOption = some x) :
    r = .ok x := by
  cases r with
  | error halt => cases h
  | ok y =>
    cases h
    rfl

/-- All that a step of `aIOOpenUDPSocket` can do. -/
theorem aIOOpenUDPSocket_cases (hstep : aIOOpenUDPSocket s e = some s') : Opens s e s' := by
  have hexit : unlocking s = none → s' = { s with pc := .exited } → Opens s e s' := by
    rintro hpc rfl
    exact .exit hpc
  unfold aIOOpenUDPSocket at hstep
  split at hstep
  · -- the call
    rename_i args hpc
    obtain ⟨conn, hlast, hs'⟩ := Option.bind_eq_some_iff.mp hstep
    cases hs'
    exact .call hpc hlast
  · -- `createAsyncIO`
    rename_i conn args p buffer hpc
    split at hstep
    · obtain ⟨m, halloc, hs'⟩ := Option.bind_eq_some_iff.mp hstep
      cases hs'
      exact .create hpc halloc
    · exact hexit (by simp [unlocking, hpc]) (Option.some.inj hstep).symm
  · rename_i conn p args ok hpc
    obtain ⟨m, hlink, hs'⟩ := Option.bind_eq_some_iff.mp hstep
    cases hs'
    exact .link hpc hlink
  · rename_i conn args ok hpc
    obtain ⟨next, hnext, hp⟩ := Option.bind_eq_some_iff.mp hstep
    obtain ⟨p, rfl, hm⟩ := Option.bind_eq_some_iff.mp hp
    obtain ⟨m, hlock, hs'⟩ := Option.bind_eq_some_iff.mp hm
    cases hs'
    exact .lock hpc hnext (toOption_eq_some hlock)
  · rename_i conn sUdp args ok hpc
    obtain ⟨m, hset, hs'⟩ := Option.bind_eq_some_iff.mp hstep
    cases hs'
    exact .fill hpc hset
  · -- `socket`
    rename_i conn sUdp fd hpc
    obtain ⟨m, hset, hs'⟩ := Option.bind_eq_some_iff.mp hstep
    cases hs'
    exact .socket hpc hset
  · rename_i conn sUdp ok hpc
    cases ok with
    | true => cases hstep; exact .sigaction hpc
    | false => exact hexit (by simp [unlocking, hpc]) (Option.some.inj hstep).symm
  · -- `F_SETFL`
    rename_i conn sUdp ok hpc
    obtain ⟨r, hfcntl, hs'⟩ := Option.bind_eq_some_iff.mp hstep
    obtain rfl | ⟨c, hval, -, rfl⟩ := fcntl_cases hfcntl
    · exact hexit (by simp [unlocking, hpc]) (Option.some.inj hs').symm
    · cases hs'
      exact .setFl hpc hval
  · -- `F_SETSIG`
    rename_i conn sUdp ok hpc
    obtain ⟨r, hfcntl, hs'⟩ := Option.bind_eq_some_iff.mp hstep
    obtain rfl | ⟨c, hval, -, rfl⟩ := fcntl_cases hfcntl
    · cases hs'
      exact .setSigFailed hpc
    · cases hs'
      exact .setSig hpc hval
  · rename_i conn sUdp ok hpc
    cases ok with
    | true => cases hstep; exact .bind hpc
    | false => exact hexit (by simp [unlocking, hpc]) (Option.some.inj hstep).symm
  · -- `F_SETOWN`
    rename_i conn sUdp ok hpc
    obtain ⟨r, hfcntl, hs'⟩ := Option.bind_eq_some_iff.mp hstep
    obtain rfl | ⟨c, hval, hopen, rfl⟩ := fcntl_cases hfcntl
    · exact hexit (by simp [unlocking, hpc]) (Option.some.inj hs').symm
    · cases hs'
      exact .setOwn hpc hval hopen
  · rename_i conn ok hpc
    obtain ⟨next, hnext, hp⟩ := Option.bind_eq_some_iff.mp hstep
    obtain ⟨p, rfl, hm⟩ := Option.bind_eq_some_iff.mp hp
    obtain ⟨m, hunlock, hs'⟩ := Option.bind_eq_some_iff.mp hm
    cases hs'
    exact .unlock hpc hnext (toOption_eq_some hunlock)
  · cases hstep

/-! ## They keep the invariant -/

/-- The call stops at the last connection of the list. -/
theorem Opening.called {conn : Addr} {args : OpenArgs} (h : Opening s l new) (hpc : s.pc = .main)
    (hlast : getLastConnection s.mem = some conn) :
    Opening { s with pc := .create conn args } l new := by
  have hnew : new = [] := by simpa only [Place, hpc] using h.place
  have hlist : IsList s.mem headAddr l := by simpa [hnew] using h.list
  have hconn : getLastConnection s.mem = some (lastAddr headAddr l) := by
    rw [getLastConnection, seek_eq _ hlist hlist.length_lt_card, List.takeWhile_eq_self_iff.mpr]
    exact fun e _ => rfl
  exact h.move (by simp [unlocking, hpc]) ⟨hnew, Option.some.inj (hlast.symm.trans hconn)⟩

/-- The new connection is allocated, and not in the list yet. -/
theorem Opening.created {conn : Addr} {args : OpenArgs} {w : Conn} (h : Opening s l new)
    (hpc : s.pc = .create conn args) (hmade : Made w) (hunlocked : w.locked = false)
    (halloc : alloc s.mem p w = some m) :
    Opening { s with mem := m, pc := .link conn p args } l new := by
  obtain ⟨hnew, hconn⟩ : new = [] ∧ conn = lastAddr headAddr l := by
    simpa only [Place, hpc] using h.place
  -- the address is not in use
  have hp : p ∉ headAddr :: (l ++ new).map Prod.fst := fun hp =>
    not_mem_of_alloc halloc (Seg.mem h.list p hp)
  have hregistered : Registered { s with mem := m, pc := .link conn p args } l new := by
    refine ⟨Seg.of_alloc h.list halloc, h.head.congr ?_, h.ready⟩
    rw [valOf_alloc halloc, if_neg (List.ne_of_not_mem_cons hp).symm]
  have hnext : nextOf m p = some none := by rw [nextOf_alloc halloc, if_pos rfl]
  have hval : valOf m p = some w := by rw [valOf_alloc halloc, if_pos rfl]
  have hp' : p ∉ headAddr :: l.map Prod.fst := by simpa [hnew] using hp
  exact h.next (by simp [unlocking, hpc]) hregistered
    ⟨hnew, hconn, hp', hnext, w, hval, hmade, hunlocked⟩ fun _ hfd => Or.inl hfd

/-- The new connection is linked behind the last one. -/
theorem Opening.linked {conn : Addr} {args : OpenArgs} (h : Opening s l new)
    (hpc : s.pc = .link conn p args) (hlink : setNext s.mem conn (some p) = some m) :
    ∃ c, Opening { s with mem := m, pc := .lock conn args } l [(p, c)] := by
  have hplace := h.place
  simp only [Place, hpc] at hplace
  obtain ⟨hnew, hconn, hp, hnext, c, hval, hmade, hunlocked⟩ := hplace
  have hlist : IsList s.mem headAddr l := by simpa [hnew] using h.list
  have hlink' : setNext s.mem (lastAddr headAddr l) (some p) = some m := hconn ▸ hlink
  have hregistered : Registered { s with mem := m, pc := .lock conn args } l [(p, c)] :=
    ⟨hlist.link hp hval hnext hlink', h.head.congr (valOf_setNext hlink' _), h.ready⟩
  exact ⟨c, h.next (by simp [unlocking, hpc]) hregistered
    ⟨hconn, p, c, rfl, hmade, hunlocked⟩ fun _ hfd => Or.inl hfd⟩

/-- The lock of a connection that was just linked is free. -/
theorem Opening.locked {conn : Addr} {args : OpenArgs} (h : Opening s l new)
    (hpc : s.pc = .lock conn args) (hnext : nextOf s.mem conn = some (some p))
    (hlock : lock s.mem p = .ok m) :
    ∃ new', Opening { s with mem := m, pc := .fill conn p args } l new' := by
  have hplace := h.place
  simp only [Place, hpc] at hplace
  obtain ⟨hconn, p', c, rfl, hmade, hunlocked⟩ := hplace
  have hfront : nextOf s.mem conn = some (some p') := by rw [hconn]; exact h.list.nextOf_front
  obtain rfl : p' = p := by simpa using hfront.symm.trans hnext
  have hval : valOf s.mem p' = some c := (seg_append.mp h.list).2.1
  obtain ⟨m', hm, hlock'⟩ := lock_free hval hunlocked
  cases hlock.symm.trans hlock'
  have hregistered := h.toRegistered.update hm (fun _ hopen => hopen) (.fill conn p' args)
  exact ⟨_, h.next (by simp [unlocking, hpc]) hregistered ⟨taken c, rfl, hconn,
    ⟨hmade.type, hmade.buffer⟩, rfl⟩ fun _ hfd => Or.inl hfd⟩

/-- The address and the port are written into the new connection. -/
theorem Opening.addressed {conn sUdp : Addr} {args : OpenArgs} (h : Opening s l new)
    (hpc : s.pc = .fill conn sUdp args)
    (hset : setVal s.mem sUdp (fun c => { c with sAddr := args.sAddr, sinPort := args.port }) =
      some m) : ∃ new', Opening { s with mem := m, pc := .socket conn sUdp } l new' := by
  have hplace := h.place
  simp only [Place, hpc] at hplace
  obtain ⟨c, rfl, hconn, hmade, hlocked⟩ := hplace
  have hregistered := h.toRegistered.update hset (fun _ hopen => hopen) (.socket conn sUdp)
  exact ⟨_, h.next (by simp [unlocking, hpc]) hregistered ⟨_, rfl, hconn,
    ⟨hmade.type, hmade.buffer⟩, hlocked⟩ fun _ hfd => Or.inl hfd⟩

/-- `socket` changes no socket but the one it creates. -/
theorem socket_cases (sockets : Int → Socket) (fd fd' : Int) :
    (if fd < 0 then sockets
      else Function.update sockets fd { Socket.closed with isOpen := true }) fd' = sockets fd' ∨
    fd' = fd ∧ (if fd < 0 then sockets
      else Function.update sockets fd { Socket.closed with isOpen := true }) fd' =
        { Socket.closed with isOpen := true } := by
  split
  · exact Or.inl rfl
  · by_cases h : fd' = fd
    · exact Or.inr ⟨h, by rw [h, Function.update_self]⟩
    · exact Or.inl (Function.update_of_ne h _ _)

/-- The socket is open and owned by nobody; its descriptor is none of the registered
    ones, which are open already. -/
theorem Opening.socketed {conn sUdp : Addr} (h : Opening s l new)
    (hpc : s.pc = .socket conn sUdp) (hclosed : (s.sockets fd).isOpen = false)
    (hset : setVal s.mem sUdp (fun c => { c with fd := fd }) = some m) :
    ∃ new', Opening { s with
      mem := m, pc := if fd = 0 then .exited else .sigaction conn sUdp,
      sockets := if fd < 0 then s.sockets
        else Function.update s.sockets fd { Socket.closed with isOpen := true } } l new' := by
  have hplace := h.place
  simp only [Place, hpc] at hplace
  obtain ⟨c, rfl, hconn, hmade, hlocked⟩ := hplace
  -- all that matters of the sockets is that a new one may be open now, owned by nobody
  have hcases := socket_cases s.sockets fd
  generalize (if fd < 0 then s.sockets
    else Function.update s.sockets fd { Socket.closed with isOpen := true }) = sockets at hcases ⊢
  have hopen : ∀ fd', (s.sockets fd').isOpen = true → (sockets fd').isOpen = true := by
    intro fd' hopen
    rcases hcases fd' with heq | ⟨-, heq⟩
    · rw [heq, hopen]
    · rw [heq]
  have hunowned : (sockets fd).isOpen = true → (sockets fd).owner = false := by
    intro hnow
    rcases hcases fd with heq | ⟨-, heq⟩
    · rw [heq, hclosed] at hnow
      cases hnow
    · rw [heq]
      rfl
  -- the registered connections keep their sockets open
  have hfresh : fd ∉ l.map fun e => e.2.fd := by
    intro hfd
    obtain ⟨e, he, hefd⟩ := List.mem_map.mp hfd
    have hnow := (h.ready e he).isOpen
    rw [hefd, hclosed] at hnow
    cases hnow
  have hregistered := h.toRegistered.update hset hopen
    (if fd = 0 then .exited else .sigaction conn sUdp)
  refine ⟨_, h.next (by simp [unlocking, hpc]) hregistered ?_ ?_⟩
  · by_cases hzero : fd = 0
    · simp only [Place, if_pos hzero]
    · simp only [Place, if_neg hzero]
      exact ⟨_, ⟨rfl, hconn, ⟨hmade.type, hmade.buffer⟩, hlocked⟩, hfresh, hunowned⟩
  · intro fd' hfd'
    rcases hcases fd' with heq | ⟨-, heq⟩
    · exact Or.inl ((armed_congr heq).mp hfd')
    · -- the new socket is not asynchronous yet, so it is not armed
      have hasync := hfd'.2.1
      rw [show Socket.async _ = _ from congrArg Socket.async heq] at hasync
      cases hasync

/-- A flag other than the owner does not arm a socket that nobody owns. -/
theorem Opening.flag (pc : Pc) (f : Socket → Socket) (h : Opening s l new)
    (hunlocking : unlocking s = none) (hopen : ∀ k, (f k).isOpen = k.isOpen)
    (howner : ∀ k, (f k).owner = k.owner) (hunowned : Unowned s.sockets l fd)
    (hplace : ∀ sockets, Unowned sockets l fd →
      Place { s with sockets := sockets, pc := pc } l new) :
    Opening { s with sockets := Function.update s.sockets fd (f (s.sockets fd)), pc := pc }
      l new := by
  have hopen' : ∀ fd', (Function.update s.sockets fd (f (s.sockets fd)) fd').isOpen =
      (s.sockets fd').isOpen := by
    intro fd'
    by_cases heq : fd' = fd
    · rw [heq, Function.update_self, hopen]
    · rw [Function.update_of_ne heq]
  have howner' : (Function.update s.sockets fd (f (s.sockets fd)) fd).owner =
      (s.sockets fd).owner := by
    rw [Function.update_self, howner]
  have hunowned' : Unowned (Function.update s.sockets fd (f (s.sockets fd))) l fd :=
    ⟨hunowned.fresh, fun hnow => howner'.trans (hunowned.unowned ((hopen' fd).symm.trans hnow))⟩
  have hregistered : Registered
      { s with sockets := Function.update s.sockets fd (f (s.sockets fd)), pc := pc } l new :=
    ⟨h.list, h.head, fun e he =>
      (h.ready e he).congr fun fd' hnow => (hopen' fd').trans hnow⟩
  -- `fd` itself stays unarmed, the others are as before
  refine h.next hunlocking hregistered (hplace _ hunowned') fun fd' hfd' => Or.inl ?_
  by_cases heq : fd' = fd
  · obtain ⟨hnow, -, -, hown⟩ := hfd'
    rw [heq] at hnow hown
    rw [show Socket.owner _ = _ from hunowned'.unowned hnow] at hown
    cases hown
  · exact (armed_congr (Function.update_of_ne heq _ _)).mp hfd'

/-- Between `socket` and `F_SETOWN` the connection has a socket that nobody owns. -/
theorem Opening.midway {conn sUdp : Addr} (h : Opening s l new)
    (hpc : s.pc = .sigaction conn sUdp ∨ s.pc = .setFl conn sUdp ∨ s.pc = .setSig conn sUdp ∨
      s.pc = .bind conn sUdp ∨ s.pc = .setOwn conn sUdp) :
    unlocking s = none ∧ ∃ c, valOf s.mem sUdp = some c ∧ Behind l new conn sUdp c ∧
      Unowned s.sockets l c.fd := by
  obtain ⟨c, hbehind, hunowned⟩ : ∃ c, Behind l new conn sUdp c ∧ Unowned s.sockets l c.fd := by
    have hplace := h.place
    rcases hpc with hpc | hpc | hpc | hpc | hpc <;> simpa only [Place, hpc] using hplace
  have hlist := h.list
  rw [hbehind.new] at hlist
  refine ⟨?_, c, (seg_append.mp hlist).2.1, hbehind, hunowned⟩
  rcases hpc with hpc | hpc | hpc | hpc | hpc <;> simp [unlocking, hpc]

/-- `F_SETOWN` arms the new socket. -/
theorem Opening.owned {conn sUdp : Addr} (h : Opening s l new) (hpc : s.pc = .setOwn conn sUdp)
    (hval : valOf s.mem sUdp = some c) (hopen : (s.sockets c.fd).isOpen = true) :
    Opening { s with
      sockets := Function.update s.sockets c.fd { s.sockets c.fd with owner := true },
      pc := .unlock conn } l new := by
  obtain ⟨hunlocking, c', hval', hbehind, hunowned⟩ := h.midway (.inr (.inr (.inr (.inr hpc))))
  obtain rfl : c' = c := Option.some.inj (hval'.symm.trans hval)
  -- `F_SETOWN` changes this socket only
  have hother : ∀ fd ≠ c'.fd, Function.update s.sockets c'.fd
      { s.sockets c'.fd with owner := true } fd = s.sockets fd := fun fd hfd =>
    Function.update_of_ne hfd _ _
  have hopen' : ∀ fd, (s.sockets fd).isOpen = true → (Function.update s.sockets c'.fd
      { s.sockets c'.fd with owner := true } fd).isOpen = true := by
    intro fd hnow
    by_cases heq : fd = c'.fd
    · rw [heq, Function.update_self]
      exact hopen
    · rwa [hother fd heq]
  generalize Function.update s.sockets c'.fd { s.sockets c'.fd with owner := true } = sockets
    at hother hopen' ⊢
  have hregistered : Registered { s with sockets := sockets, pc := .unlock conn } l new :=
    ⟨h.list, h.head, fun e he => (h.ready e he).congr hopen'⟩
  -- if it is armed now, its unlock comes next
  have hnow := hregistered.unlocking_eq rfl hbehind
  refine h.next hunlocking hregistered
    ⟨sUdp, c', hbehind, hunowned.fresh, hopen' c'.fd hopen⟩ fun fd hfd => ?_
  by_cases heq : fd = c'.fd
  · exact Or.inr (heq ▸ hnow)
  · exact Or.inl ((armed_congr (hother fd heq)).mp hfd)

/-- With the unlock the connection is one of the registered ones. -/
theorem Opening.unlocked {conn : Addr} (h : Opening s l new) (hpc : s.pc = .unlock conn)
    (hnext : nextOf s.mem conn = some (some p)) (hunlock : unlock s.mem p = .ok m) :
    ∃ l', Opening { s with mem := m, pc := .main } l' [] := by
  have hplace := h.place
  simp only [Place, hpc] at hplace
  obtain ⟨p', c, hbehind, -, hopen⟩ := hplace
  have hunlocking := h.toRegistered.unlocking_eq hpc hbehind
  obtain ⟨rfl, hconn, hmade, hlocked⟩ := hbehind
  have hfront : nextOf s.mem conn = some (some p') := by rw [hconn]; exact h.list.nextOf_front
  obtain rfl : p' = p := by simpa using hfront.symm.trans hnext
  obtain ⟨m', hm⟩ := exists_setVal (mem_of_valOf (seg_append.mp h.list).2.1) released
  have hm' : setVal s.mem p' (fun c => { c with locked := false }) = some m' := hm
  obtain rfl : m' = m := by simpa [unlock, hm'] using hunlock
  have hlast := h.toRegistered.update hm (fun _ hopen => hopen) .main
  refine ⟨l ++ [(p', released c)],
    { list := ?_, head := hlast.head, ready := ?_, place := rfl, armed := ?_ }⟩
  · simpa using hlast.list
  · intro e he
    rcases List.mem_append.mp he with hmem | hmem
    · exact h.ready e hmem
    · obtain rfl := List.mem_singleton.mp hmem
      exact { type := hmade.type, buffer := hmade.buffer, unlocked := rfl, isOpen := hopen }
  · -- the socket that was armed too early is now a registered one
    intro fd hfd
    rcases h.armed fd hfd with ⟨e, he, hefd⟩ | hfd
    · exact Or.inl ⟨e, List.mem_append_left _ he, hefd⟩
    · have hcfd : c.fd = fd := Option.some.inj (hunlocking.symm.trans hfd)
      exact Or.inl ⟨_, List.mem_append_right _ (List.mem_singleton_self _), hcfd⟩

/-- Every step of `aIOOpenUDPSocket` keeps the invariant. -/
theorem Opening.opens (h : Opening s l new) (hgranted : Granted s e) (hstep : Opens s e s') :
    ∃ l' new', Opening s' l' new' := by
  cases hstep with
  | call hpc hlast => exact ⟨l, new, h.called hpc hlast⟩
  | @create conn args p bytes m hpc halloc =>
    -- the block is as long as `malloc` was asked for
    have hlen : bytes.length = args.bufferSize.toNat := by simpa [Granted, hpc] using hgranted
    exact ⟨l, new, h.created hpc ⟨rfl, bytes, rfl, hlen⟩ rfl halloc⟩
  | link hpc hlink =>
    obtain ⟨c, hc⟩ := h.linked hpc hlink
    exact ⟨l, _, hc⟩
  | lock hpc hnext hlock => exact ⟨l, h.locked hpc hnext hlock⟩
  | fill hpc hset => exact ⟨l, h.addressed hpc hset⟩
  | @socket conn sUdp fd m hpc hset =>
    -- `socket` returns a descriptor that is not in use
    have hclosed : (s.sockets fd).isOpen = false := by simpa [Granted, hpc] using hgranted
    exact ⟨l, h.socketed hpc hclosed hset⟩
  | sigaction hpc =>
    obtain ⟨hunlocking, c, -, hbehind, hunowned⟩ := h.midway (.inl hpc)
    exact ⟨l, new, h.move hunlocking ⟨c, hbehind, hunowned⟩⟩
  | setFl hpc hval =>
    obtain ⟨hunlocking, c, hval', hbehind, hunowned⟩ := h.midway (.inr (.inl hpc))
    cases hval'.symm.trans hval
    exact ⟨l, new, h.flag _ (fun k => { k with async := true }) hunlocking (fun _ => rfl)
      (fun _ => rfl) hunowned fun _ hunowned' => ⟨_, hbehind, hunowned'⟩⟩
  | setSig hpc hval =>
    obtain ⟨hunlocking, c, hval', hbehind, hunowned⟩ := h.midway (.inr (.inr (.inl hpc)))
    cases hval'.symm.trans hval
    exact ⟨l, new, h.flag _ (fun k => { k with sig := true }) hunlocking (fun _ => rfl)
      (fun _ => rfl) hunowned fun _ hunowned' => ⟨_, hbehind, hunowned'⟩⟩
  | setSigFailed hpc =>
    obtain ⟨hunlocking, c, -, hbehind, hunowned⟩ := h.midway (.inr (.inr (.inl hpc)))
    exact ⟨l, new, h.move hunlocking ⟨c, hbehind, hunowned⟩⟩
  | bind hpc =>
    obtain ⟨hunlocking, c, -, hbehind, hunowned⟩ := h.midway (.inr (.inr (.inr (.inl hpc))))
    exact ⟨l, new, h.move hunlocking ⟨c, hbehind, hunowned⟩⟩
  | setOwn hpc hval hopen => exact ⟨l, new, h.owned hpc hval hopen⟩
  | unlock hpc hnext hunlock =>
    obtain ⟨l', hl'⟩ := h.unlocked hpc hnext hunlock
    exact ⟨l', [], hl'⟩
  | exit hpc => exact ⟨l, new, h.move hpc trivial⟩

/-! ## Runs -/

/-- `main` has started: no connection is registered, no socket has an owner. -/
structure Started (s : State) : Prop where
  list : IsList s.mem headAddr []
  head : HeadFree s.mem
  unowned : ∀ fd, (s.sockets fd).owner = false
  pc : s.pc = .main

/-- The program starts with an empty list and no socket. -/
theorem Started.opening (h : Started s) : Opening s [] [] where
  list := h.list
  head := h.head
  ready := nofun
  place := by simp [Place, h.pc]
  armed fd hfd := by
    have howner := hfd.2.2.2
    rw [h.unowned] at howner
    cases howner

/-- A `SIGIO` that can be delivered is served to the end. -/
def HandlerCompletes (s : State) : Event → Prop
  | .sigio fd => Armed s fd → ∃ s', aIOUDPSigHandler s fd = .ok s'
  | _ => True

/-- No `SIGIO` for the socket being opened is delivered between its `F_SETOWN` and
    the unlock of its connection. -/
def NotWhileLocked (s : State) : Event → Prop
  | .sigio fd => Armed s fd → unlocking s ≠ some fd
  | _ => True

instance (s : State) : ∀ e, Decidable (NotWhileLocked s e)
  | .sigio fd => inferInstanceAs (Decidable (Armed s fd → unlocking s ≠ some fd))
  | .call _ | .calloc _ _ | .socket _ | .next _ | .arrive _ _ => isTrue trivial

/-- Every step of a run keeps the invariant. -/
theorem Opening.step (h : Opening s l new) (hgranted : Granted s e)
    (hstep : openStep s e = some s') : ∃ l' new', Opening s' l' new' := by
  cases e with
  | arrive fd datagram =>
    have hinterrupt : interrupt s (.arrive fd datagram) = some s' := hstep
    obtain ⟨l', hl'⟩ := h.interrupt_step hinterrupt
    exact ⟨l', new, hl'⟩
  | sigio fd =>
    have hinterrupt : interrupt s (.sigio fd) = some s' := hstep
    obtain ⟨l', hl'⟩ := h.interrupt_step hinterrupt
    exact ⟨l', new, hl'⟩
  | _ => exact h.opens hgranted (aIOOpenUDPSocket_cases hstep)

/-- Whatever sockets are opened and whenever `SIGIO` comes: every handler completes
    exactly if no `SIGIO` comes for a socket whose connection is still locked. -/
theorem handlers_complete_iff {es : List Event} (hstart : Started s)
    (hgranted : Runs.StepsMeet openStep Granted s es) :
    Runs.StepsMeet openStep HandlerCompletes s es ↔
      Runs.StepsMeet openStep NotWhileLocked s es := by
  apply Runs.stepsMeet_iff (J := fun s => ∃ l new, Opening s l new) _ _ ⟨[], [], hstart.opening⟩
    hgranted
  · rintro s e s' ⟨l, new, h⟩ hgranted hstep
    exact h.step hgranted hstep
  · rintro s e ⟨l, new, h⟩ -
    cases e with
    | sigio fd => exact forall_congr' h.completes_iff
    | _ => exact Iff.rfl

/-- The process at the start of `main`, with the standard streams open. -/
def started : State :=
  { mem := Finmap.singleton headAddr
      ⟨{ type := .none, fd := 0, sAddr := 0, sinPort := 0, bufferSize := 0, buffer := none,
         callback := 0, args := none, locked := false }, none⟩,
    sockets := fun fd => { Socket.closed with isOpen := decide (0 ≤ fd ∧ fd ≤ 2) },
    pc := .main, calls := [] }

/-- The state that the runs below start in is one at the start of the program. -/
theorem started_started : Started started where
  list := rfl
  head := ⟨_, rfl, rfl⟩
  unowned _ := rfl
  pc := rfl

/-- The calls of `aIOOpenUDPSocket` for a buffer of `n` bytes, up to `F_SETOWN`. -/
def upToSetOwn (p : Addr) (n : Nat) (fd : Int) : List Event :=
  [.call { sAddr := 0, port := 1111, bufferSize := n, callback := 0, args := none },
    .calloc (some p) (some (List.replicate n 0)), .next true, .next true, .next true,
    .socket fd, .next true, .next true, .next true, .next true, .next true]

/-- A second socket is opened while datagrams for the first come in. -/
theorem handlers_complete_second_open :
    Runs.StepsMeet openStep HandlerCompletes started
      (upToSetOwn 8 4 3 ++ [.next true, .arrive 3 [104, 105, 10]] ++ upToSetOwn 16 4 4 ++
        [.sigio 3, .next true, .sigio 3]) :=
  (handlers_complete_iff started_started (by decide +kernel)).mpr (by decide +kernel)

/-- A datagram that comes right after `F_SETOWN`: the handler waits for the lock that
    the code it interrupted holds. -/
theorem armed_before_unlock :
    Started started ∧
    Runs.StepsMeet openStep Granted started (upToSetOwn 8 4 3 ++ [Event.arrive 3 [104]]) ∧
    ∃ s, (upToSetOwn 8 4 3 ++ [Event.arrive 3 [104]]).foldlM openStep started = some s ∧
      Armed s 3 ∧ aIOUDPSigHandler s 3 = .error .deadlock :=
  ⟨started_started, by decide +kernel, exists_halted (by decide +kernel)⟩

end AsyncUdp
