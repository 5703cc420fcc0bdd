import CSnippets.Native.AsyncUdp

/-!
# Finding a connection

`findConnection` takes the lock of every connection up to the one it looks for. Where
all of them are free it finds the first connection with the descriptor and leaves
memory as it was; the first lock that is taken stops it for good, and a link to a
freed connection makes it read freed memory.
-/

namespace AsyncUdp

open SentinelList

variable {m m' : Memory Conn} {a d : Addr} {c c₀ w : Conn} {fd : Int}
  {l l₁ l₂ : List (Addr × Conn)} {z : Option Addr}

/-- An access to live memory gives what is there. -/
@[simp] theorem access_some {α : Type} (x : α) : access (some x) = .ok x := rfl

/-- An access to freed memory is an error. -/
@[simp] theorem access_none {α : Type} : access (none : Option α) = .error .badMemory := rfl

/-- Why a call did not return. -/
def haltOf {α : Type} : Except Halt α → Option Halt
  | .error halt => some halt
  | .ok _ => none

/-- The halt of a result is the error it ended with. -/
theorem haltOf_eq_some {α : Type} {halt : Halt} {r : Except Halt α} :
    haltOf r = some halt ↔ r = .error halt := by
  cases r <;> simp [haltOf]

/-- A run that is evaluated to a state with `p`, where a call does not return. -/
theorem exists_halted {α : Type} {halt : Halt} {run : Option State} {p : State → Prop}
    [DecidablePred p] {r : State → Except Halt α}
    (h : (run.any fun s => decide (p s ∧ haltOf (r s) = some halt)) = true) :
    ∃ s, run = some s ∧ p s ∧ r s = .error halt := by
  cases run with
  | none => cases h
  | some s =>
    obtain ⟨hp, hr⟩ := of_decide_eq_true h
    exact ⟨s, rfl, hp, haltOf_eq_some.mp hr⟩

/-! ## Mutexes -/

/-- The connection with its lock taken. -/
def taken (c : Conn) : Conn := { c with locked := true }

/-- The connection with its lock free. -/
def released (c : Conn) : Conn := { c with locked := false }

/-- Locking and unlocking a connection leaves it as it was. -/
theorem released_taken (hc : c.locked = false) : released (taken c) = c := by
  cases c
  simp_all [released, taken]

/-- A free lock is taken. -/
theorem lock_free (hval : valOf m a = some c) (hc : c.locked = false) :
    ∃ m', setVal m a taken = some m' ∧ lock m a = .ok m' := by
  obtain ⟨m', hm'⟩ := exists_setVal (mem_of_valOf hval) taken
  have htaken : setVal m a (fun c => { c with locked := true }) = some m' := hm'
  refine ⟨m', hm', ?_⟩
  simp [lock, hval, hc, htaken, bind, Except.bind]

/-- A lock that is taken is waited for for ever. -/
theorem lock_locked (hval : valOf m a = some c) (hc : c.locked = true) :
    lock m a = .error .deadlock := by
  simp [lock, hval, hc, bind, Except.bind]

/-- There is no lock in freed memory. -/
theorem lock_freed (ha : a ∉ m) : lock m a = .error .badMemory := by
  have hval : valOf m a = none := by
    rw [valOf, Finmap.lookup_eq_none.mpr ha, Option.map_none]
  simp [lock, hval, bind, Except.bind]

/-- What was locked is unlocked. -/
theorem unlock_taken (hval : valOf m a = some c) (hc : c.locked = false)
    (hm' : setVal m a taken = some m') : unlock m' a = .ok m := by
  have hback : setVal m' a released = some m := by
    rw [setVal_setVal hm']
    exact setVal_id hval (released_taken hc)
  have hback' : setVal m' a (fun c => { c with locked := false }) = some m := hback
  simp [unlock, hback']

/-! ## The walk -/

/-- The walk looking for the UDP socket `fd` goes past the connection. -/
structure Passed (fd : Int) (c : Conn) : Prop where
  unlocked : c.locked = false
  other : ¬ (c.type = .udp ∧ c.fd = fd)

/-- With the lock of `a` held that of the next connection is taken, and then `a` is
    released: the lock of `d` stays. -/
theorem lock_next {mp : Memory Conn} (had : a ≠ d) (ha : valOf m a = some c₀)
    (hc₀ : c₀.locked = false) (hd : valOf m d = some c) (hc : c.locked = false)
    (hmp : setVal m a taken = some mp) :
    ∃ mb mq, lock mp d = .ok mb ∧ valOf mb d = some (taken c) ∧ unlock mb a = .ok mq ∧
      setVal m d taken = some mq := by
  have hd' : valOf mp d = some c := by rw [valOf_setVal hmp, if_neg had.symm, hd]
  obtain ⟨mb, hmb, hlock⟩ := lock_free hd' hc
  obtain ⟨mq, hmq⟩ := exists_setVal (mem_of_valOf hd) taken
  -- the two locks may as well have been taken in the other order
  have hmqa : setVal mq a taken = some mb := by rw [← setVal_comm had hmp hmq, hmb]
  have ha' : valOf mq a = some c₀ := by rw [valOf_setVal hmq, if_neg had, ha]
  have hcurr : valOf mb d = some (taken c) := by
    rw [valOf_setVal hmb, if_pos rfl, hd', Option.map_some]
  exact ⟨mb, mq, hlock, hcurr, unlock_taken ha' hc₀ hmqa, hmq⟩

/-- One round past a connection. -/
theorem findLoop_passed (fuel : Nat) {mp : Memory Conn} (hnext : nextOf m a = some (some d))
    (had : a ≠ d)
    (ha : valOf m a = some c₀) (hc₀ : c₀.locked = false) (hd : valOf m d = some c)
    (hc : Passed fd c) (hmp : setVal m a taken = some mp) :
    ∃ mq, setVal m d taken = some mq ∧
      findLoop .udp fd (fuel + 1) a mp = findLoop .udp fd fuel d mq := by
  have hnext' : nextOf mp a = some (some d) := by rw [nextOf_setVal hmp, hnext]
  obtain ⟨mb, mq, hlock, hcurr, hunlock, hmq⟩ := lock_next had ha hc₀ hd hc.unlocked hmp
  have hother : ¬ ((taken c).type = .udp ∧ (taken c).fd = fd) := hc.other
  refine ⟨mq, hmq, ?_⟩
  rw [findLoop]
  simp [hnext', hlock, hcurr, hother, hunlock, bind, Except.bind]

/-- The walk goes past the front part of a list and holds the lock of its last node. -/
theorem findLoop_front (fuel : Nat) {mp : Memory Conn} (hseg : Seg m a l z)
    (hnodup : (a :: l.map Prod.fst).Nodup) (ha : valOf m a = some c₀)
    (hc₀ : c₀.locked = false) (hl : ∀ e ∈ l, Passed fd e.2) (hmp : setVal m a taken = some mp) :
    ∃ c mq, valOf m (lastAddr a l) = some c ∧ c.locked = false ∧
      setVal m (lastAddr a l) taken = some mq ∧
      findLoop .udp fd (l.length + fuel) a mp = findLoop .udp fd fuel (lastAddr a l) mq := by
  induction l generalizing a c₀ mp with
  | nil => exact ⟨c₀, mp, ha, hc₀, hmp, by rw [List.length_nil, Nat.zero_add, lastAddr]⟩
  | cons e l ih =>
    obtain ⟨d, c⟩ := e
    obtain ⟨hnext, hd, hrest⟩ := hseg
    obtain ⟨had, hnodup'⟩ := List.nodup_cons.mp hnodup
    have hne : a ≠ d := List.ne_of_not_mem_cons had
    have hc : Passed fd c := hl (d, c) (by simp)
    have hl' : ∀ e ∈ l, Passed fd e.2 := fun e he => hl e (List.mem_cons_of_mem _ he)
    obtain ⟨mq, hmq, hround⟩ :=
      findLoop_passed (l.length + fuel) hnext hne ha hc₀ hd hc hmp
    -- the next connection takes the place of `a`
    obtain ⟨c', mr, hval, hc', hmr, hloop⟩ := ih hrest hnodup' hd hc.unlocked hl' hmq
    refine ⟨c', mr, hval, hc', hmr, ?_⟩
    rw [List.length_cons, show l.length + 1 + fuel = l.length + fuel + 1 by omega, hround, hloop,
      lastAddr]

/-- The lock of `head` can be taken. -/
def HeadFree (m : Memory Conn) : Prop := ∃ c, valOf m headAddr = some c ∧ c.locked = false

/-- The walk comes to the end of a front part with the lock of its last node held. -/
theorem findConnection_front (fd : Int) (hhead : HeadFree m) (hseg : Seg m headAddr l z)
    (hnodup : (headAddr :: l.map Prod.fst).Nodup) (hl : ∀ e ∈ l, Passed fd e.2) :
    ∃ c fuel mq, valOf m (lastAddr headAddr l) = some c ∧ c.locked = false ∧
      setVal m (lastAddr headAddr l) taken = some mq ∧
      nextOf mq (lastAddr headAddr l) = some z ∧
      findConnection m .udp fd = findLoop .udp fd (fuel + 1) (lastAddr headAddr l) mq := by
  obtain ⟨c₀, hval, hc₀⟩ := hhead
  obtain ⟨mp, hmp, hlock⟩ := lock_free hval hc₀
  -- the front part is shorter than the fuel
  have hcard := Seg.length_lt_card hseg hnodup
  obtain ⟨fuel, hfuel⟩ : ∃ k, m.keys.card = l.length + (k + 1) :=
    ⟨m.keys.card - l.length - 1, by omega⟩
  obtain ⟨c, mq, hlast, hc, hmq, hloop⟩ :=
    findLoop_front (fuel + 1) hseg hnodup hval hc₀ hl hmp
  have hnext : nextOf mq (lastAddr headAddr l) = some z := by
    rw [nextOf_setVal hmq, hseg.nextOf_lastAddr]
  have hkeys : mp.keys.card = l.length + (fuel + 1) := by rw [keys_setVal hmp, hfuel]
  refine ⟨c, fuel, mq, hlast, hc, hmq, hnext, ?_⟩
  simp [findConnection, hlock, bind, Except.bind, hkeys, hloop]

/-! ## How the walk ends -/

/-- The first connection with the descriptor is found, and no lock stays taken. -/
theorem findConnection_found (hhead : HeadFree m) (h : IsList m headAddr (l₁ ++ (d, w) :: l₂))
    (hl₁ : ∀ e ∈ l₁, Passed fd e.2) (hw : w.locked = false) (htype : w.type = .udp)
    (hfd : w.fd = fd) : findConnection m .udp fd = .ok (some d, m) := by
  obtain ⟨hseg, hd, -⟩ := seg_append.mp h
  have hne : lastAddr headAddr l₁ ≠ d := h.lastAddr_ne
  obtain ⟨c, fuel, mp, ha, hc, hmp, hnext, hfind⟩ :=
    findConnection_front fd hhead hseg h.nodup_front hl₁
  obtain ⟨mb, mq, hlock, hcurr, hunlock, hmq⟩ := lock_next hne ha hc hd hw hmp
  have hmatch : (taken w).type = .udp ∧ (taken w).fd = fd := ⟨htype, hfd⟩
  rw [hfind, findLoop]
  simp [hnext, hlock, hcurr, hmatch, hunlock, unlock_taken hd hw hmq, bind, Except.bind, pure,
    Except.pure]

/-- A registered descriptor is found when no lock is taken up to it. -/
theorem exists_found (hhead : HeadFree m) (h : IsList m headAddr (l ++ l₂))
    (hl : ∀ e ∈ l, e.2.locked = false ∧ e.2.type = .udp) (hfd : ∃ e ∈ l, e.2.fd = fd) :
    ∃ front d w rest, l = front ++ (d, w) :: rest ∧ w.fd = fd ∧
      findConnection m .udp fd = .ok (some d, m) := by
  obtain ⟨e, he, hefd⟩ := hfd
  -- what the walk finds is the first connection with the descriptor
  cases hfind : l.find? fun e => decide (e.2.fd = fd) with
  | none => exact absurd hefd (by simpa using List.find?_eq_none.mp hfind e he)
  | some first =>
    obtain ⟨d, w⟩ := first
    obtain ⟨hw, front, rest, rfl, hfront⟩ := List.find?_eq_some_iff_append.mp hfind
    have hwfd : w.fd = fd := by simpa using hw
    have hpassed : ∀ e ∈ front, Passed fd e.2 := fun e he =>
      ⟨(hl e (List.mem_append_left _ he)).1, fun hmatch => by simpa [hmatch.2] using hfront e he⟩
    obtain ⟨hunlocked, htype⟩ := hl (d, w) (by simp)
    rw [List.append_assoc, List.cons_append] at h
    exact ⟨front, d, w, rest, rfl, hwfd, findConnection_found hhead h hpassed hunlocked htype hwfd⟩

/-- A connection whose lock is taken stops the walk in front of it. -/
theorem findConnection_locked (hhead : HeadFree m) (h : IsList m headAddr (l₁ ++ (d, w) :: l₂))
    (hl₁ : ∀ e ∈ l₁, Passed fd e.2) (hw : w.locked = true) :
    findConnection m .udp fd = .error .deadlock := by
  obtain ⟨hseg, hd, -⟩ := seg_append.mp h
  have hne : d ≠ lastAddr headAddr l₁ := h.lastAddr_ne.symm
  obtain ⟨c, fuel, mp, -, -, hmp, hnext, hfind⟩ :=
    findConnection_front fd hhead hseg h.nodup_front hl₁
  have hd' : valOf mp d = some w := by rw [valOf_setVal hmp, if_neg hne, hd]
  rw [hfind, findLoop]
  simp [hnext, lock_locked hd' hw, bind, Except.bind]

/-- A link from `head` to a freed connection makes the walk read freed memory. -/
theorem findConnection_freed (hhead : HeadFree m) (hnext : nextOf m headAddr = some (some d))
    (hd : d ∉ m) : findConnection m .udp fd = .error .badMemory := by
  have hseg : Seg m headAddr [] (some d) := hnext
  obtain ⟨c, fuel, mp, -, -, hmp, hnext', hfind⟩ :=
    findConnection_front fd hhead hseg (by simp) (by simp)
  have hd' : d ∉ mp := by
    rw [← Finmap.mem_keys, keys_setVal hmp, Finmap.mem_keys]
    exact hd
  have hnext'' : nextOf mp headAddr = some (some d) := hnext'
  rw [hfind, findLoop]
  simp [lastAddr, hnext'', lock_freed hd', bind, Except.bind]

end AsyncUdp
