import Mathlib.Data.List.Basic

/-!
# Flat byte memory

A block of C memory is the list of its bytes. `calloc` and `memcpy` follow the
C library: `calloc` fails when the product of its arguments does not fit in
64 bits (and whenever no memory is available), and a `memcpy` that leaves the
source or the destination block has no defined result.

The second part cuts a block into slots of equal width, the way an array of
fixed-size items lies in memory; the third reads a block as a C string.
-/

namespace CMemory

/-- `calloc(nmemb, size)`; `avail` says whether the allocator has the memory. -/
def calloc (avail : Bool) (nmemb size : UInt64) : Option (List UInt8) :=
  if avail ∧ nmemb.toNat * size.toNat < UInt64.size then
    some (List.replicate (nmemb.toNat * size.toNat) 0)
  else none

/-- Overwrite `dst` with `src` from offset `off` on. -/
def splice (dst : List UInt8) (off : Nat) (src : List UInt8) : List UInt8 :=
  dst.take off ++ src ++ dst.drop (off + src.length)

/-- `memcpy(dst + off, src, n)`, undefined when it leaves either block. -/
def memcpyTo (dst : List UInt8) (off : Nat) (src : List UInt8) (n : Nat) : Option (List UInt8) :=
  if off + n ≤ dst.length ∧ n ≤ src.length then some (splice dst off (src.take n)) else none

/-- `memcpy(dst, src + off, n)`, undefined when it leaves either block. -/
def memcpyFrom (dst src : List UInt8) (off n : Nat) : Option (List UInt8) :=
  if off + n ≤ src.length ∧ n ≤ dst.length then
    some (splice dst 0 ((src.drop off).take n))
  else none

/-- `a % b` on 64-bit unsigned integers, undefined for `b = 0`. -/
def umod (a b : UInt64) : Option UInt64 :=
  if b = 0 then none else some (a % b)

/-- What `calloc` returns is zeroed, and its size did not wrap around. -/
theorem calloc_eq_some {avail : Bool} {nmemb size : UInt64} {bytes : List UInt8}
    (h : calloc avail nmemb size = some bytes) :
    nmemb.toNat * size.toNat < UInt64.size ∧
      bytes = List.replicate (nmemb.toNat * size.toNat) 0 := by
  unfold calloc at h
  split at h
  · rename_i hfit
    exact ⟨hfit.2, (Option.some.inj h).symm⟩
  · cases h

/-- The remainder by a positive number is defined. -/
theorem umod_of_pos {a b : UInt64} (hb : 0 < b.toNat) : umod a b = some (a % b) := by
  have hne : b ≠ 0 := by rintro rfl; simp at hb
  simp [umod, hne]

/-- A splice that ends inside the block keeps the block's length. -/
theorem length_splice {dst src : List UInt8} {off : Nat} (h : off + src.length ≤ dst.length) :
    (splice dst off src).length = dst.length := by
  simp only [splice, List.length_append, List.length_take, List.length_drop]
  omega

/-- A `memcpy` inside both blocks, which keeps the length of the destination. -/
theorem exists_memcpyTo {dst src : List UInt8} {off n : Nat} (hdst : off + n ≤ dst.length)
    (hsrc : n ≤ src.length) :
    ∃ bytes, memcpyTo dst off src n = some bytes ∧ bytes.length = dst.length := by
  refine ⟨splice dst off (src.take n), by rw [memcpyTo, if_pos ⟨hdst, hsrc⟩], length_splice ?_⟩
  rw [List.length_take]
  omega

/-! ## Slots of equal width -/

/-- The `i`-th slot of width `w`. -/
def slot (bytes : List UInt8) (w i : Nat) : List UInt8 := (bytes.drop (i * w)).take w

/-- The slots `i < n` of a block of `n * w` bytes lie inside it. -/
theorem slot_bound {n w i : Nat} (hi : i < n) : i * w + w ≤ n * w := by
  calc i * w + w = (i + 1) * w := (Nat.succ_mul i w).symm
    _ ≤ n * w := Nat.mul_le_mul_right w hi

/-- Every slot of an array of `n` items of width `w` is `w` bytes wide. -/
theorem length_slot {bytes : List UInt8} {n w i : Nat} (hlen : bytes.length = n * w)
    (hi : i < n) : (slot bytes w i).length = w := by
  have := slot_bound (w := w) hi
  simp only [slot, List.length_take, List.length_drop]
  omega

/-- Overwriting one slot keeps the length of the array. -/
theorem length_splice_slot {bytes src : List UInt8} {n w i : Nat} (hlen : bytes.length = n * w)
    (hi : i < n) (hsrc : src.length = w) : (splice bytes (i * w) src).length = n * w := by
  have hb := slot_bound (w := w) hi
  exact (length_splice (by omega)).trans hlen

/-- Writing slot `i` makes it the written bytes. -/
theorem slot_splice_self {bytes src : List UInt8} {n w i : Nat} (hlen : bytes.length = n * w)
    (hi : i < n) (hsrc : src.length = w) : slot (splice bytes (i * w) src) w i = src := by
  have hb := slot_bound (w := w) hi
  have htake : (bytes.take (i * w)).length = i * w := by
    rw [List.length_take]; omega
  rw [slot, splice, List.append_assoc, List.drop_append_of_le_length (by omega),
    List.drop_of_length_le (by omega), List.nil_append, List.take_append_of_le_length (by omega),
    List.take_of_length_le (by omega)]

/-- Writing slot `i` leaves every other slot as it was. -/
theorem slot_splice_of_ne {bytes src : List UInt8} {n w i j : Nat} (hlen : bytes.length = n * w)
    (hi : i < n) (hij : j ≠ i) (hsrc : src.length = w) :
    slot (splice bytes (i * w) src) w j = slot bytes w j := by
  have hb := slot_bound (w := w) hi
  apply List.ext_getElem?
  intro k
  simp only [slot, splice, List.getElem?_take, List.getElem?_drop, List.append_assoc]
  split
  · rename_i hk
    rcases Nat.lt_or_gt_of_ne hij with hlt | hgt
    · -- the slot lies before the bytes written
      have hle := slot_bound (w := w) hlt
      rw [List.getElem?_append_left (by rw [List.length_take]; omega), List.getElem?_take,
        if_pos (by omega)]
    · -- the slot lies behind them
      have hle := slot_bound (w := w) hgt
      have htake : (bytes.take (i * w)).length = i * w := by
        rw [List.length_take]; omega
      rw [List.getElem?_append_right (by omega), List.getElem?_append_right (by omega),
        List.getElem?_drop, htake, hsrc]
      congr 1
      omega
  · rfl

/-- A copy of one item into a slot of the array is defined. -/
theorem memcpyTo_slot {dst src : List UInt8} {n w i : Nat} (hlen : dst.length = n * w)
    (hi : i < n) (hsrc : src.length = w) :
    memcpyTo dst (i * w) src w = some (splice dst (i * w) src) := by
  have hb := slot_bound (w := w) hi
  rw [memcpyTo, if_pos ⟨by omega, by omega⟩, List.take_of_length_le (by omega)]

/-- A copy of one slot out of the array is defined, and delivers that slot. -/
theorem memcpyFrom_slot {dst src : List UInt8} {n w i : Nat} (hlen : src.length = n * w)
    (hi : i < n) (hdst : dst.length = w) :
    memcpyFrom dst src (i * w) w = some (slot src w i) := by
  have hb := slot_bound (w := w) hi
  have hslot := length_slot hlen hi
  have hread : (src.drop (i * w)).take w = slot src w i := rfl
  rw [memcpyFrom, if_pos ⟨by omega, by omega⟩, hread, splice, List.take_zero, List.nil_append,
    List.drop_of_length_le (by omega), List.append_nil]

/-! ## Strings -/

/-- The string at the start of a block: its bytes before the first NUL. Without a
    NUL the string goes on behind the block, and reading it is undefined. -/
def cString : List UInt8 → Option (List UInt8)
  | [] => none
  | b :: bytes => if b = 0 then some [] else (cString bytes).map (b :: ·)

/-- `strlen` -/
def strlen (bytes : List UInt8) : Option Nat := (cString bytes).map List.length

/-- `strncat(dst, src, n)`: at most `n` bytes of the string `src` and a terminator, from
    the terminator of `dst` on; undefined when that leaves either block. -/
def strncat (dst src : List UInt8) (n : Nat) : Option (List UInt8) := do
  let len ← strlen dst
  guard (n ≤ src.length ∨ 0 ∈ src)
  let text := (src.take n).takeWhile (· != 0)
  memcpyTo dst len (text ++ [0]) (text.length + 1)

/-- `strncmp(s, t, n)`: the difference of the first bytes that differ, up to the end of
    the strings and to `n` bytes; undefined when it leaves either block. -/
def strncmp : List UInt8 → List UInt8 → Nat → Option Int
  | _, _, 0 => some 0
  | a :: s, b :: t, n + 1 =>
    if a ≠ b then some ((a.toNat : Int) - b.toNat)
    else if a = 0 then some 0 else strncmp s t n
  | _, _, _ + 1 => none

/-- `memset(bytes, 0, n)` -/
def clear (bytes : List UInt8) (n : Nat) : List UInt8 := splice bytes 0 (List.replicate n 0)

/-- A string read is followed by its terminator. -/
theorem cString_eq_some {bytes text : List UInt8} :
    cString bytes = some text ↔ 0 ∉ text ∧ ∃ rest, bytes = text ++ 0 :: rest := by
  induction bytes generalizing text with
  | nil => simp [cString]
  | cons b bytes ih =>
    by_cases hb : b = 0
    · -- the empty string
      subst hb
      cases text with
      | nil => simp [cString]
      | cons c text =>
        simp only [cString, if_pos, Option.some.injEq, reduceCtorEq, List.mem_cons, not_or,
          List.cons_append, List.cons.injEq, false_iff, not_and, not_exists]
        exact fun hc _ h0 _ => hc.1 h0
    · cases text with
      | nil => simp [cString, hb]
      | cons c text =>
        simp only [cString, if_neg hb, Option.map_eq_some_iff, ih, List.cons.injEq, List.mem_cons,
          not_or, List.cons_append]
        constructor
        · rintro ⟨t, ⟨ht, rest, rfl⟩, rfl, rfl⟩
          exact ⟨⟨Ne.symm hb, ht⟩, rest, rfl, rfl⟩
        · rintro ⟨⟨-, ht⟩, rest, rfl, rfl⟩
          exact ⟨text, ⟨ht, rest, rfl⟩, rfl, rfl⟩

/-- Only a block without a NUL has no string. -/
theorem cString_eq_none {bytes : List UInt8} : cString bytes = none ↔ 0 ∉ bytes := by
  induction bytes with
  | nil => simp [cString]
  | cons b bytes ih =>
    by_cases hb : b = 0
    · simp [cString, hb]
    · simp [cString, hb, ih, Ne.symm hb]

/-- A copy to the start of a block is defined when it fits on both sides. -/
theorem memcpyTo_zero {dst src : List UInt8} {n : Nat} (hdst : n ≤ dst.length)
    (hsrc : n ≤ src.length) : memcpyTo dst 0 src n = some (splice dst 0 (src.take n)) := by
  rw [memcpyTo, if_pos (by omega)]

/-- A splice at the start replaces as many bytes as it brings. -/
theorem splice_zero (dst src : List UInt8) : splice dst 0 src = src ++ dst.drop src.length := by
  simp [splice]

/-- Bytes that fill a block are all that is left in it. -/
theorem splice_full {dst src : List UInt8} (h : dst.length ≤ src.length) :
    splice dst 0 src = src := by
  rw [splice_zero, List.drop_of_length_le h, List.append_nil]

/-- A text that covers the old one leaves only zeros behind it. -/
theorem splice_text {front src : List UInt8} {n : Nat} (h : front.length ≤ src.length) :
    splice (front ++ List.replicate n 0) 0 src =
      src ++ List.replicate (n - (src.length - front.length)) 0 := by
  rw [splice_zero, List.drop_append, List.drop_of_length_le h, List.nil_append,
    List.drop_replicate]

/-- A text written without a terminator is read back exactly when the byte behind it
    is a NUL already. -/
theorem cString_splice {dst src : List UInt8} (hsrc : 0 ∉ src) :
    cString (splice dst 0 src) = some src ↔ dst[src.length]? = some 0 := by
  rw [cString_eq_some, splice_zero]
  constructor
  · rintro ⟨-, rest, hrest⟩
    have hdrop := List.append_cancel_left hrest
    rw [← List.head?_drop, hdrop]
    rfl
  · intro hnext
    rw [← List.head?_drop] at hnext
    obtain ⟨rest, hrest⟩ := List.head?_eq_some_iff.mp hnext
    exact ⟨hsrc, rest, by rw [hrest]⟩

/-- Clearing a text just written clears its place. -/
theorem clear_splice (dst src : List UInt8) :
    clear (splice dst 0 src) src.length = clear dst src.length := by
  rw [clear, clear, splice_zero, splice_zero, splice_zero, List.length_replicate, List.drop_left]

/-- Clearing a block of zeros leaves it as it is. -/
theorem clear_zeros {m n : Nat} (h : n ≤ m) :
    clear (List.replicate m 0) n = List.replicate m 0 := by
  rw [clear, splice_zero, List.length_replicate, List.drop_replicate, ← List.replicate_add]
  congr 1
  omega

/-- With only zeros behind an old text, that is when the new one covers it. -/
theorem cString_splice_text {front src : List UInt8} {n : Nat} (hfront : 0 ∉ front)
    (hsrc : 0 ∉ src) (h : src.length < front.length + n) :
    cString (splice (front ++ List.replicate n 0) 0 src) = some src ↔
      front.length ≤ src.length := by
  rw [cString_splice hsrc]
  constructor
  · intro hnext
    by_contra hlong
    -- the byte behind the new text is one of the old text
    rw [List.getElem?_append_left (by omega)] at hnext
    exact hfront (List.mem_of_getElem? hnext)
  · intro hcover
    rw [List.getElem?_append_right hcover, List.getElem?_replicate, if_pos (by omega)]

/-- A text with zeros behind it. -/
theorem cString_zeros {front : List UInt8} {n : Nat} (hfront : 0 ∉ front) :
    cString (front ++ List.replicate n 0) = if n = 0 then none else some front := by
  cases n with
  | zero =>
    rw [if_pos rfl, cString_eq_none]
    simpa using hfront
  | succ n =>
    rw [if_neg (Nat.succ_ne_zero n)]
    exact cString_eq_some.mpr ⟨hfront, List.replicate n 0, by rw [List.replicate_succ]⟩

/-- Bytes with a terminator behind them are read up to the first NUL. -/
theorem cString_terminated (bytes rest : List UInt8) :
    cString (bytes ++ 0 :: rest) = some (bytes.takeWhile (· != 0)) := by
  induction bytes with
  | nil => rfl
  | cons b bytes ih =>
    by_cases hb : b = 0
    · simp [cString, hb]
    · simp [cString, hb, ih]

/-- A block with a zero behind its text has a C string: the text up to its first zero. -/
theorem cString_padded {bytes : List UInt8} {n : Nat} (hn : 0 < n) :
    cString (bytes ++ List.replicate n 0) = some (bytes.takeWhile (· != 0)) := by
  obtain ⟨n, rfl⟩ : ∃ k, n = k + 1 := ⟨n - 1, by omega⟩
  rw [List.replicate_succ, cString_terminated]

/-- A word without a NUL is not continued by zeros. -/
theorem prefix_zeros {word bytes : List UInt8} {n : Nat} (hword : 0 ∉ word) :
    word <+: bytes ++ List.replicate n 0 ↔ word <+: bytes := by
  constructor
  · induction word generalizing bytes with
    | nil => exact fun _ => List.nil_prefix
    | cons w word ih =>
      rw [List.mem_cons, not_or] at hword
      intro h
      cases bytes with
      | nil =>
        obtain ⟨rest, hrest⟩ := h
        have hw : w ∈ List.replicate n 0 := by
          rw [List.nil_append] at hrest
          rw [← hrest]
          exact List.mem_cons_self
        exact absurd (List.eq_of_mem_replicate hw).symm hword.1
      | cons b bytes =>
        rw [List.cons_append, List.cons_prefix_cons] at h
        exact List.cons_prefix_cons.mpr ⟨h.1, ih hword.2 h.2⟩
  · exact fun h => h.trans (List.prefix_append bytes _)

/-- Comparing with the whole of a word says whether the bytes begin with it. -/
theorem strncmp_word {word bytes : List UInt8} (hword : 0 ∉ word)
    (hlen : word.length ≤ bytes.length) :
    ∃ c, strncmp bytes (word ++ [0]) word.length = some c ∧ (c = 0 ↔ word <+: bytes) := by
  induction word generalizing bytes with
  | nil => exact ⟨0, by rw [List.length_nil, strncmp], iff_of_true rfl List.nil_prefix⟩
  | cons w word ih =>
    rw [List.mem_cons, not_or] at hword
    cases bytes with
    | nil => simp at hlen
    | cons b bytes =>
      rw [List.length_cons, List.cons_append, strncmp, List.cons_prefix_cons]
      by_cases hb : b = w
      · subst hb
        obtain ⟨c, hc, hiff⟩ := ih hword.2 (Nat.le_of_succ_le_succ hlen)
        rw [if_neg (not_not_intro rfl), if_neg (Ne.symm hword.1)]
        exact ⟨c, hc, hiff.trans (and_iff_right rfl).symm⟩
      · have hne : b.toNat ≠ w.toNat := fun heq => hb (UInt8.toNat_inj.mp heq)
        refine ⟨_, if_pos hb, ?_⟩
        apply iff_of_false
        · omega
        · exact fun h => hb h.1.symm

/-- Appending to a string with `rest` behind its terminator, which has to stay inside. -/
theorem strncat_text {front src : List UInt8} (rest : List UInt8) (n : Nat) (hfront : 0 ∉ front)
    (hsrc : n ≤ src.length ∨ 0 ∈ src) :
    strncat (front ++ 0 :: rest) src n =
      if ((src.take n).takeWhile (· != 0)).length ≤ rest.length then
        some (front ++ (src.take n).takeWhile (· != 0) ++
          0 :: rest.drop ((src.take n).takeWhile (· != 0)).length)
      else none := by
  generalize htext : (src.take n).takeWhile (· != 0) = text
  have hsome : cString (front ++ 0 :: rest) = some front :=
    cString_eq_some.mpr ⟨hfront, rest, rfl⟩
  simp only [strncat, strlen, hsome, htext, Option.map_some, Option.bind_eq_bind,
    Option.bind_some, guard, if_pos hsrc, Option.pure_def, memcpyTo, List.length_append,
    List.length_cons]
  by_cases hfit : text.length ≤ rest.length
  · rw [if_pos ⟨by omega, by omega⟩, if_pos hfit, List.take_of_length_le (by simp), splice,
      List.take_left, Option.some.injEq, List.length_append, List.length_singleton,
      List.drop_append, List.drop_of_length_le (by omega), List.nil_append,
      Nat.add_sub_cancel_left, List.drop_succ_cons]
    simp only [List.append_assoc, List.singleton_append]
  · rw [if_neg (by omega), if_neg hfit]

/-- With `k` zeros behind a text, one of them has to stay. -/
theorem strncat_zeros {front src : List UInt8} {k n : Nat} (hfront : 0 ∉ front)
    (hsrc : n ≤ src.length ∨ 0 ∈ src) :
    strncat (front ++ List.replicate k 0) src n =
      if ((src.take n).takeWhile (· != 0)).length < k then
        some (front ++ (src.take n).takeWhile (· != 0) ++
          List.replicate (k - ((src.take n).takeWhile (· != 0)).length) 0)
      else none := by
  cases k with
  | zero =>
    rw [strncat, strlen, cString_zeros hfront, if_pos rfl, if_neg (by omega)]
    rfl
  | succ k =>
    rw [List.replicate_succ, strncat_text _ n hfront hsrc, List.length_replicate]
    by_cases hlt : ((src.take n).takeWhile (· != 0)).length ≤ k
    · rw [if_pos hlt, if_pos (by omega), List.drop_replicate, ← List.replicate_succ]
      congr 3
      omega
    · rw [if_neg hlt, if_neg (by omega)]

end CMemory
