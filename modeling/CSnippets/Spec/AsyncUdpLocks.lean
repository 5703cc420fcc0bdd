import CSnippets.Spec.AsyncUdpFind

/-!
# The locks of a search

`findConnection` goes along the list with one lock in its hand, and lets go of it when it
has the next. For TCP and UDP it finds the first connection of that type with the
descriptor, and at the end no lock is taken. For the other types it returns out of the
`switch`, with the lock of `head` and that of the first connection still taken.
-/

namespace AsyncUdp

open SentinelList

variable {m : Memory Conn} {a : Addr} {c₀ : Conn} {l : List (Addr × Conn)} {type : ConnType}
  {arg : Int}

/-- What is done with the lock of a connection. -/
inductive LockEvent where
  | lock (a : Addr)
  | unlock (a : Addr)
deriving Repr, DecidableEq

/-- `findLoop` with the locks that it takes and releases. -/
def findLoopLocks (type : ConnType) (arg : Int) : Nat → Addr → Memory Conn →
    Except Halt (List LockEvent × Option Addr × Memory Conn)
  | 0, _, _ => .error .endless
  | fuel + 1, prev, m => do
    let next ← access (nextOf m prev)
    match next with
    | none =>
      let m ← unlock m prev
      return ([.unlock prev], none, m)
    | some curr =>
      let m ← lock m curr
      let c ← access (valOf m curr)
      if type = .tcp ∨ type = .udp then
        if c.type = type ∧ c.fd = arg then
          let m ← unlock m prev
          let m ← unlock m curr
          return ([.lock curr, .unlock prev, .unlock curr], some curr, m)
        else
          let m ← unlock m prev
          let (events, r) ← findLoopLocks type arg fuel curr m
          return (.lock curr :: .unlock prev :: events, r)
      else return ([.lock curr], none, m)

/-- `findConnection` with the locks that it takes and releases. -/
def findConnectionLocks (m : Memory Conn) (type : ConnType) (arg : Int) :
    Except Halt (List LockEvent × Option Addr × Memory Conn) := do
  let m ← lock m headAddr
  let (events, r) ← findLoopLocks type arg m.keys.card headAddr m
  return (.lock headAddr :: events, r)

/-! ## The same search -/

/-- A result that is changed at the end of a call is changed behind its first step. -/
theorem map_bind {α β γ : Type} (f : β → γ) (x : Except Halt α) (g : α → Except Halt β) :
    (x >>= g).map f = x >>= fun a => (g a).map f := by
  cases x <;> rfl

/-- Without its events the search is `findLoop`. -/
theorem findLoopLocks_erase (fuel : Nat) (prev : Addr) (m : Memory Conn) :
    (findLoopLocks type arg fuel prev m).map Prod.snd = findLoop type arg fuel prev m := by
  induction fuel generalizing prev m with
  | zero => rfl
  | succ fuel ih =>
    -- both loops read and lock alike; only the record differs
    rw [findLoopLocks, findLoop, map_bind]
    apply bind_congr
    intro next
    cases next with
    | none => simp only [map_bind]; rfl
    | some curr =>
      simp only [map_bind]
      apply bind_congr
      intro m
      apply bind_congr
      intro c
      split
      · split
        · simp only [map_bind]
          rfl
        · simp only [map_bind]
          apply bind_congr
          intro m
          -- the locks of this round stand in front of those of the rest
          rw [← ih]
          cases findLoopLocks type arg fuel curr m <;> rfl
      · rfl

/-- Without its record of the locks the instrumented walk is `findConnection`. -/
theorem findConnectionLocks_erase (m : Memory Conn) :
    (findConnectionLocks m type arg).map Prod.snd = findConnection m type arg := by
  rw [findConnectionLocks, findConnection, map_bind]
  apply bind_congr
  intro m
  rw [← findLoopLocks_erase]
  cases findLoopLocks type arg m.keys.card headAddr m <;> rfl

/-! ## Hand over hand -/

/-- With the locks `held`, each lock is taken while that of the predecessor is held (`head` has
    none), and in the end no lock is held. -/
def HandOverHand (m : Memory Conn) : List Addr → List LockEvent → Prop
  | held, [] => held = []
  | held, .lock a :: events =>
    (a = headAddr ∨ ∃ p ∈ held, nextOf m p = some (some a)) ∧ HandOverHand m (a :: held) events
  | held, .unlock a :: events => a ∈ held ∧ HandOverHand m (held.erase a) events

/-- The connection that is looked for. -/
def Wanted (type : ConnType) (arg : Int) (c : Conn) : Prop := c.type = type ∧ c.fd = arg

instance (c : Conn) : Decidable (Wanted type arg c) := inferInstanceAs (Decidable (_ ∧ _))

/-- The locks of a walk that holds that of `a`, in front of `l`. -/
def walkLocks (type : ConnType) (arg : Int) (a : Addr) : List (Addr × Conn) → List LockEvent
  | [] => [.unlock a]
  | (d, c) :: l =>
    if Wanted type arg c then [.lock d, .unlock a, .unlock d]
    else .lock d :: .unlock a :: walkLocks type arg d l

/-- The first connection that is wanted. -/
def firstWanted (type : ConnType) (arg : Int) (l : List (Addr × Conn)) : Option Addr :=
  (l.find? fun e => decide (Wanted type arg e.2)).map Prod.fst

/-- Along a list the walk locks hand over hand. -/
theorem handOverHand_walkLocks (hseg : Seg m a l none) (hnodup : (a :: l.map Prod.fst).Nodup) :
    HandOverHand m [a] (walkLocks type arg a l) := by
  induction l generalizing a with
  | nil => simp [walkLocks, HandOverHand]
  | cons e l ih =>
    obtain ⟨d, c⟩ := e
    obtain ⟨hnext, -, hrest⟩ := hseg
    obtain ⟨had, hnodup'⟩ := List.nodup_cons.mp hnodup
    have hne : d ≠ a := (List.ne_of_not_mem_cons had).symm
    -- the lock of `a` is the one released
    have herase : [d, a].erase a = [d] := by simp [hne]
    rw [walkLocks]
    split
    · refine ⟨.inr ⟨a, List.mem_singleton_self a, hnext⟩, by simp, ?_⟩
      rw [herase]
      simp [HandOverHand]
    · refine ⟨.inr ⟨a, List.mem_singleton_self a, hnext⟩, by simp, ?_⟩
      rw [herase]
      exact ih hrest hnodup'

/-- The walk comes to the end of the list. -/
theorem findLoopLocks_end (type : ConnType) (arg : Int) (fuel : Nat) {mp : Memory Conn}
    (hnext : nextOf m a = some none) (ha : valOf m a = some c₀) (hc₀ : c₀.locked = false)
    (hmp : setVal m a taken = some mp) :
    findLoopLocks type arg (fuel + 1) a mp = .ok ([.unlock a], none, m) := by
  have hend : nextOf mp a = some none := by rw [nextOf_setVal hmp, hnext]
  rw [findLoopLocks, hend]
  simp [unlock_taken ha hc₀ hmp, bind, Except.bind, pure, Except.pure]

/-- The walk for TCP or UDP: where all locks are free it comes to the first connection that is
    wanted, or to the end, and leaves memory as it was. -/
theorem findLoopLocks_walk (htype : type = .tcp ∨ type = .udp) (arg : Int) (fuel : Nat)
    {mp : Memory Conn} (hseg : Seg m a l none) (hnodup : (a :: l.map Prod.fst).Nodup)
    (ha : valOf m a = some c₀) (hc₀ : c₀.locked = false) (hl : ∀ e ∈ l, e.2.locked = false)
    (hmp : setVal m a taken = some mp) :
    findLoopLocks type arg (l.length + 1 + fuel) a mp =
      .ok (walkLocks type arg a l, firstWanted type arg l, m) := by
  induction l generalizing a c₀ mp with
  | nil =>
    rw [List.length_nil, Nat.zero_add, Nat.add_comm,
      findLoopLocks_end type arg fuel hseg ha hc₀ hmp]
    rfl
  | cons e l ih =>
    obtain ⟨d, c⟩ := e
    obtain ⟨hnext, hd, hrest⟩ := hseg
    obtain ⟨had, hnodup'⟩ := List.nodup_cons.mp hnodup
    have hne : a ≠ d := List.ne_of_not_mem_cons had
    rw [List.forall_mem_cons] at hl
    obtain ⟨hc, hl⟩ := hl
    -- the next node is locked before this one is unlocked
    obtain ⟨mb, mq, hlock, hcurr, hunlock, hmq⟩ := lock_next hne ha hc₀ hd hc hmp
    have hnext' : nextOf mp a = some (some d) := by rw [nextOf_setVal hmp, hnext]
    have hfuel : (((d, c) :: l).length + 1 + fuel) = (l.length + 1 + fuel) + 1 := by
      rw [List.length_cons]
      omega
    rw [hfuel, findLoopLocks, walkLocks, firstWanted]
    by_cases hwanted : Wanted type arg c
    · -- the walk stops here and unlocks the node
      have hmatch : (taken c).type = type ∧ (taken c).fd = arg := hwanted
      simp [hnext', hlock, hcurr, htype, hmatch, hunlock, unlock_taken hd hc hmq, hwanted, bind,
        Except.bind, pure, Except.pure]
    · -- the walk goes on from the next node, with its lock held
      have hother : ¬ ((taken c).type = type ∧ (taken c).fd = arg) := hwanted
      have hloop := ih hrest hnodup' hd hc hl hmq
      rw [firstWanted] at hloop
      simp [hnext', hlock, hcurr, htype, hother, hunlock, hloop, hwanted, bind, Except.bind, pure,
        Except.pure]

/-- For another type the walk stops at the first connection, with both locks taken. -/
theorem findLoopLocks_other (htype : ¬ (type = .tcp ∨ type = .udp)) (arg : Int) (fuel : Nat)
    {mp : Memory Conn} {d : Addr} {c : Conn} (hne : a ≠ d) (hnext : nextOf m a = some (some d))
    (hd : valOf m d = some c) (hc : c.locked = false) (hmp : setVal m a taken = some mp) :
    ∃ m', findLoopLocks type arg (fuel + 1) a mp = .ok ([.lock d], none, m') ∧
      valOf m' a = valOf mp a := by
  have hd' : valOf mp d = some c := by rw [valOf_setVal hmp, if_neg hne.symm, hd]
  obtain ⟨mb, hmb, hlock⟩ := lock_free hd' hc
  have hcurr : valOf mb d = some (taken c) := by
    rw [valOf_setVal hmb, if_pos rfl, hd', Option.map_some]
  have hnext' : nextOf mp a = some (some d) := by rw [nextOf_setVal hmp, hnext]
  refine ⟨mb, ?_, by rw [valOf_setVal hmb, if_neg hne]⟩
  rw [findLoopLocks]
  simp [hnext', hlock, hcurr, htype, bind, Except.bind, pure, Except.pure]

/-! ## Every search -/

section

variable (hhead : HeadFree m) (hlist : IsList m headAddr l)

include hhead hlist

/-- The lock of `head` is taken, and the fuel is enough for the list. -/
theorem findConnectionLocks_start (type : ConnType) (arg : Int) :
    ∃ c₀ mp fuel, valOf m headAddr = some c₀ ∧ c₀.locked = false ∧
      setVal m headAddr taken = some mp ∧
      ∀ events r, findLoopLocks type arg (l.length + 1 + fuel) headAddr mp = .ok (events, r) →
        findConnectionLocks m type arg = .ok (.lock headAddr :: events, r) := by
  obtain ⟨c₀, hval, hc₀⟩ := hhead
  obtain ⟨mp, hmp, hlock⟩ := lock_free hval hc₀
  have hcard := Seg.length_lt_card hlist hlist.nodup
  obtain ⟨fuel, hfuel⟩ := Nat.exists_eq_add_of_le (Nat.succ_le_of_lt hcard)
  refine ⟨c₀, mp, fuel, hval, hc₀, hmp, ?_⟩
  intro events r hloop
  have hkeys : mp.keys.card = l.length + 1 + fuel := by rw [keys_setVal hmp, hfuel]
  simp [findConnectionLocks, hlock, hkeys, hloop, bind, Except.bind, pure, Except.pure]

/-- Where all locks are free, a search for TCP or UDP goes along the list. -/
theorem findConnectionLocks_walk (hl : ∀ e ∈ l, e.2.locked = false)
    (htype : type = .tcp ∨ type = .udp) :
    findConnectionLocks m type arg =
      .ok (.lock headAddr :: walkLocks type arg headAddr l, firstWanted type arg l, m) := by
  obtain ⟨c₀, mp, fuel, hval, hc₀, hmp, hstart⟩ := findConnectionLocks_start hhead hlist type arg
  exact hstart _ _ (findLoopLocks_walk htype arg fuel hlist hlist.nodup hval hc₀ hl hmp)

/-- On the empty list every search ends behind `head`. -/
theorem findConnectionLocks_nil (hnil : l = []) :
    findConnectionLocks m type arg = .ok ([.lock headAddr, .unlock headAddr], none, m) := by
  subst hnil
  obtain ⟨c₀, mp, fuel, hval, hc₀, hmp, hstart⟩ := findConnectionLocks_start hhead hlist type arg
  apply hstart
  rw [List.length_nil, Nat.zero_add, Nat.add_comm]
  exact findLoopLocks_end type arg fuel hlist hval hc₀ hmp

/-- With a connection in the list, a search for another type leaves the lock of `head` taken. -/
theorem findConnectionLocks_other (hl : ∀ e ∈ l, e.2.locked = false) (hne : l ≠ [])
    (htype : ¬ (type = .tcp ∨ type = .udp)) (arg : Int) :
    ∃ events m', findConnectionLocks m type arg = .ok (events, none, m') ∧ ¬ HeadFree m' := by
  obtain ⟨c₀, mp, fuel, hval, hc₀, hmp, hstart⟩ := findConnectionLocks_start hhead hlist type arg
  cases l with
  | nil => exact absurd rfl hne
  | cons e l =>
    obtain ⟨d, c⟩ := e
    have hheadd : headAddr ≠ d := List.ne_of_not_mem_cons (List.nodup_cons.mp hlist.nodup).1
    obtain ⟨hnext, hd, -⟩ := hlist
    obtain ⟨m', hloop, hm'⟩ := findLoopLocks_other htype arg (l.length + 1 + fuel) hheadd hnext
      hd (hl (d, c) List.mem_cons_self) hmp
    refine ⟨[.lock headAddr, .lock d], m', ?_, ?_⟩
    · apply hstart
      rw [List.length_cons, Nat.add_right_comm (l.length + 1) 1 fuel]
      exact hloop
    · rintro ⟨c', hval', hc'⟩
      rw [hm', valOf_setVal hmp, if_pos rfl, hval, Option.map_some, Option.some.injEq] at hval'
      rw [← hval'] at hc'
      cases hc'

/-- Where all locks are free no search waits. -/
theorem findConnection_returns (hl : ∀ e ∈ l, e.2.locked = false) (type : ConnType) (arg : Int) :
    haltOf (findConnection m type arg) = none := by
  have hlocks : ∃ r, findConnectionLocks m type arg = .ok r := by
    by_cases htype : type = .tcp ∨ type = .udp
    · exact ⟨_, findConnectionLocks_walk hhead hlist hl htype⟩
    · by_cases hnil : l = []
      · exact ⟨_, findConnectionLocks_nil hhead hlist hnil⟩
      · obtain ⟨events, m', hrun, -⟩ :=
          findConnectionLocks_other hhead hlist hl hnil htype arg
        exact ⟨_, hrun⟩
  obtain ⟨r, hr⟩ := hlocks
  rw [← findConnectionLocks_erase, hr]
  rfl

end

/-- What a search is to do: it finds the first connection that is wanted, of TCP or UDP, takes
    the locks hand over hand, and leaves them all as they were, so that no later search
    waits. -/
def Searches (m : Memory Conn) (l : List (Addr × Conn)) (type : ConnType) (arg : Int) : Prop :=
  ∃ events m', findConnectionLocks m type arg =
      .ok (events, if type = .tcp ∨ type = .udp then firstWanted type arg l else none, m') ∧
    HandOverHand m [] events ∧ m' = m ∧
    ∀ type' arg', haltOf (findConnection m' type' arg') = none

/-- On any list of connections, with all locks free, a search does so if and only if it is for
    TCP or UDP or the list is empty. -/
theorem findConnection_searches_iff (m : Memory Conn) (l : List (Addr × Conn))
    (hhead : HeadFree m) (hlist : IsList m headAddr l) (hl : ∀ e ∈ l, e.2.locked = false)
    (type : ConnType) (arg : Int) :
    Searches m l type arg ↔ type = .tcp ∨ type = .udp ∨ l = [] := by
  have hreturns := findConnection_returns hhead hlist hl
  constructor
  · rintro ⟨events, m', hrun, -, rfl, -⟩
    -- the other types leave a connection locked, if there is one
    by_contra hnot
    have htype : ¬ (type = .tcp ∨ type = .udp) := fun h => hnot (h.imp_right .inl)
    have hne : l ≠ [] := fun h => hnot (.inr (.inr h))
    obtain ⟨events', m'', hother, hlocked⟩ :=
      findConnectionLocks_other hhead hlist hl hne htype arg
    rw [hrun] at hother
    rw [Except.ok.injEq, Prod.mk.injEq, Prod.mk.injEq] at hother
    rw [← hother.2.2] at hlocked
    exact hlocked hhead
  · intro h
    by_cases htype : type = .tcp ∨ type = .udp
    · -- the walk to the connection, or to the end
      have hlocks : HandOverHand m [] (.lock headAddr :: walkLocks type arg headAddr l) :=
        ⟨.inl rfl, handOverHand_walkLocks hlist hlist.nodup⟩
      refine ⟨_, m, ?_, hlocks, rfl, hreturns⟩
      rw [if_pos htype]
      exact findConnectionLocks_walk hhead hlist hl htype
    · -- with no connection there is nothing to leave locked
      have hnil : l = [] := by
        rcases h with h | h | h
        · exact absurd (.inl h) htype
        · exact absurd (.inr h) htype
        · exact h
      have hlocks : HandOverHand m [] [.lock headAddr, .unlock headAddr] := by simp [HandOverHand]
      refine ⟨_, m, ?_, hlocks, rfl, hreturns⟩
      rw [if_neg htype]
      exact findConnectionLocks_nil hhead hlist hnil

/-- A connection with its lock free. -/
def freeConn (type : ConnType) (fd : Int) : Conn :=
  { type := type, fd := fd, sAddr := 0, sinPort := 0, bufferSize := 1, buffer := some [0],
    callback := 0, args := none, locked := false }

/-- A TCP connection and a UDP socket behind it, with the same descriptor. -/
def tcpAndUdp : Memory Conn :=
  ((Finmap.singleton headAddr ⟨freeConn .none 0, some 8⟩).insert
    8 ⟨freeConn .tcp 3, some 16⟩).insert 16 ⟨freeConn .udp 3, none⟩

/-- The two connections of the run form a list. -/
theorem isList_tcpAndUdp :
    IsList tcpAndUdp headAddr [(8, freeConn .tcp 3), (16, freeConn .udp 3)] :=
  ⟨rfl, rfl, rfl, rfl, rfl⟩

/-- The walk for a UDP connection passes the TCP one of the same descriptor. -/
theorem findConnection_searches_udp :
    Searches tcpAndUdp [(8, freeConn .tcp 3), (16, freeConn .udp 3)] .udp 3 :=
  (findConnection_searches_iff tcpAndUdp _ ⟨_, rfl, rfl⟩ isList_tcpAndUdp (by decide) .udp 3).mpr
    (.inr (.inl rfl))

/-- A search for a serial connection returns with the locks of `head` and of the first
    connection taken. -/
theorem serial_search_keeps_locks :
    ¬ Searches tcpAndUdp [(8, freeConn .tcp 3), (16, freeConn .udp 3)] .serial 3 := by
  rintro ⟨events, m', hrun, -, rfl, -⟩
  have hhead : HeadFree tcpAndUdp := ⟨_, rfl, rfl⟩
  have hserial : ¬ (ConnType.serial = .tcp ∨ ConnType.serial = .udp) := by decide
  obtain ⟨events', m'', hother, hlocked⟩ := findConnectionLocks_other hhead isList_tcpAndUdp
    (by decide) (List.cons_ne_nil _ _) hserial 3
  rw [hrun, Except.ok.injEq, Prod.mk.injEq, Prod.mk.injEq] at hother
  rw [← hother.2.2] at hlocked
  exact hlocked hhead

end AsyncUdp
