import CSnippets.ForStd.Runs
import CSnippets.Native.MyString

/-!
# Do string objects keep their strings?

An object is represented by its `struct` and the block of its string, and no two
objects share a block. `myStringSetString` writes the new length before it asks for
the memory, and frees the object when `realloc` fails: then the owner has a handle to
nothing, and the block of the old string is lost. It also reads its argument after
`realloc` has taken the old block, so that an object cannot be set to a part of its own
string.
-/

namespace MyString

variable {heap heap' : Heap} {s s' : State}

/-! ## The heap -/

/-- The block that was stored is found at its address. -/
@[simp] theorem store_self (heap : Heap) (a : Addr) (block : Block) :
    store heap a block a = some block := Function.update_self ..

/-- Storing one block leaves the others alone. -/
theorem store_of_ne {a x : Addr} (h : x ≠ a) (heap : Heap) (block : Block) :
    store heap a block x = heap x := Function.update_of_ne h ..

/-- A freed block is gone. -/
@[simp] theorem free_self (heap : Heap) (a : Addr) : free heap a a = none :=
  Function.update_self ..

/-- Freeing one block leaves the others alone. -/
theorem free_of_ne {a x : Addr} (h : x ≠ a) (heap : Heap) : free heap a x = heap x :=
  Function.update_of_ne h ..

/-- Reading the struct of an object. -/
theorem load_eq {h : Addr} {strLen : Int} {string : Option Addr}
    (hh : heap h = some (.object strLen string)) : load heap h = some (strLen, string) := by
  rw [load, hh]

/-- Reading a block of bytes. -/
theorem loadBytes_eq {p : Addr} {content : List UInt8} (hp : heap p = some (.bytes content)) :
    loadBytes heap (some p) = some content := by
  simp [loadBytes, hp]

/-- Only a block of bytes is read. -/
theorem exists_bytes {p : Addr} {content : List UInt8}
    (h : loadBytes heap (some p) = some content) : heap p = some (.bytes content) := by
  simp only [loadBytes, Option.bind_eq_bind, Option.bind_some] at h
  split at h
  · next hp => rw [hp, Option.some.inj h]
  · cases h
  · cases h

/-! ## Strings -/

/-- A text with its terminator is read as the text. -/
theorem cString_text {text : List UInt8} (h : 0 ∉ text) :
    CMemory.cString (text ++ [0]) = some text := CMemory.cString_eq_some.mpr ⟨h, [], rfl⟩

/-- A string stays as it is while its block does. -/
theorem readString_congr {source : CharPtr}
    (hblock : ∀ b, source.block = some b → heap' b = heap b) :
    readString heap' source = readString heap source := by
  cases source with
  | outside bytes => rfl
  | inside block offset =>
    have hsame : loadBytes heap' (some block) = loadBytes heap (some block) := by
      simp only [loadBytes, Option.bind_eq_bind, Option.bind_some, hblock block rfl]
    rw [readString, readString, hsame]

/-- A string that can be read lies in a block of bytes. -/
theorem readString_block {source : CharPtr} {text : List UInt8} {b : Addr}
    (hread : readString heap source = some text) (hb : source.block = some b) :
    ∃ content, heap b = some (.bytes content) := by
  cases source with
  | outside bytes => cases hb
  | inside block offset =>
    obtain ⟨content, hcontent, -⟩ := Option.bind_eq_some_iff.mp hread
    exact ⟨content, Option.some.inj hb ▸ exists_bytes hcontent⟩

/-- It does not lie in a block that is not in use. -/
theorem block_ne_of_free {source : CharPtr} {text : List UInt8} {a : Addr}
    (hread : readString heap source = some text) (ha : heap a = none) :
    source.block ≠ some a := by
  intro hb
  obtain ⟨content, hcontent⟩ := readString_block hread hb
  cases ha.symm.trans hcontent

/-- Nor in the struct of an object. -/
theorem block_ne_of_object {source : CharPtr} {text : List UInt8} {h : Addr} {strLen : Int}
    {string : Option Addr} (hread : readString heap source = some text)
    (hh : heap h = some (.object strLen string)) : source.block ≠ some h := by
  intro hb
  obtain ⟨content, hcontent⟩ := readString_block hread hb
  cases hh.symm.trans hcontent

/-- What is read has no NUL. -/
theorem nul_notMem_of_readString {source : CharPtr} {text : List UInt8}
    (hread : readString heap source = some text) : 0 ∉ text := by
  cases source with
  | outside bytes => exact (CMemory.cString_eq_some.mp hread).1
  | inside block offset =>
    obtain ⟨content, -, htext⟩ := Option.bind_eq_some_iff.mp hread
    exact (CMemory.cString_eq_some.mp htext).1

/-- A part of a text up to its end is read from its first byte on. -/
theorem cString_drop {text part : List UInt8} {offset : Nat} (hnul : 0 ∉ text)
    (h : CMemory.cString ((text ++ [0]).drop offset) = some part) :
    offset ≤ text.length ∧ part = text.drop offset := by
  by_cases hle : offset ≤ text.length
  · have hpart : 0 ∉ text.drop offset := fun h0 => hnul (List.mem_of_mem_drop h0)
    rw [List.drop_append_of_le_length hle, cString_text hpart] at h
    exact ⟨hle, (Option.some.inj h).symm⟩
  · -- there is nothing behind the terminator
    rw [List.drop_of_length_le (by simp; omega)] at h
    cases h

/-- A copy into another block of just the right size. -/
theorem strcpy_eq {p : Addr} {source : CharPtr} {content text : List UInt8}
    (hp : heap p = some (.bytes content)) (hlength : content.length = text.length + 1)
    (hread : readString heap source = some text) (hother : source.block ≠ some p) :
    strcpy heap p source = some (store heap p (.bytes (text ++ [0]))) := by
  have hcopy : CMemory.memcpyTo content 0 (text ++ [0]) (text.length + 1) = some (text ++ [0]) := by
    rw [CMemory.memcpyTo_zero (by omega) (by simp), List.take_of_length_le (by simp),
      CMemory.splice_zero, List.drop_of_length_le (by simp; omega), List.append_nil]
  have hapart : ¬ Overlap source p (text.length + 1) := by
    cases source with
    | outside bytes => exact id
    | inside block offset => exact fun h => hother (congrArg some h.1)
  rw [strcpy, hread]
  simp only [Option.bind_eq_bind, Option.bind_some, if_neg hapart, loadBytes_eq hp, hcopy]
  rfl

/-- A string that begins where it is to be copied to overlaps its copy. -/
theorem strcpy_start (heap : Heap) (p : Addr) : strcpy heap p (.inside p 0) = none := by
  unfold strcpy
  cases readString heap (.inside p 0) with
  | none => rfl
  | some text =>
    have hoverlap : Overlap (.inside p 0) p (text.length + 1) := ⟨rfl, Nat.succ_pos _⟩
    exact if_pos hoverlap

/-- A string that cannot be read is not copied. -/
theorem strcpy_unreadable {p : Addr} {source : CharPtr} (h : readString heap source = none) :
    strcpy heap p source = none := by
  rw [strcpy, h]
  rfl

/-! ## Objects -/

/-- The object at `h` has its string, with its length and a terminator, at `p`. -/
structure Stored (heap : Heap) (h : Addr) (text : List UInt8) (p : Addr) : Prop where
  object : heap h = some (.object text.length (some p))
  string : ∃ content, heap p = some (.bytes content) ∧ CMemory.cString content = some text

/-- The object at `h` has its string at `p`, in a block of just its size. -/
structure Tight (heap : Heap) (h : Addr) (text : List UInt8) (p : Addr) : Prop where
  object : heap h = some (.object text.length (some p))
  block : heap p = some (.bytes (text ++ [0]))
  nul : 0 ∉ text

/-- Every object has its string stored at `string h`, each at a place of its own. -/
structure Represents (s : State) (string : Addr → Addr) : Prop where
  tight : ∀ h text, s.values h = some text → Tight s.heap h text (string h)
  separate : ∀ h h', s.values h ≠ none → s.values h' ≠ none → string h = string h' → h = h'

/-- An object that its owner can go on using: it has its string, and the queries
    answer with it. -/
structure Usable (heap : Heap) (h : Addr) (text : List UInt8) : Prop where
  stored : ∃ p, Stored heap h text p
  length : myStringGetStringLength heap h = some text.length
  get : ∀ a, myStringGetString heap h (some a) =
    some (store heap a (.bytes (text ++ [0])), some a)

/-- Every object has the string of its last successful init or set. -/
def Intact (s : State) : Prop := ∀ h text, s.values h = some text → Usable s.heap h text

/-- No object has been created. -/
def Start (s : State) : Prop := ∀ h, s.values h = none

/-- The argument is NULL or points to a string, anywhere in memory; allocators return
    addresses that are not in use, and only objects that exist are used; `realloc` may also
    return the block it got. -/
def Contract (s : State) : Event → Prop
  | .init theString obj str => readString s.heap theString ≠ none ∧
      (∀ a, obj = some a → s.heap a = none) ∧
      (∀ p, str = some p → s.heap p = none ∧ obj ≠ some p)
  | .set st theString ret _ => s.values st ≠ none ∧
      (∀ source, theString = some source → readString s.heap source ≠ none) ∧
      ∀ a, ret = some a → s.heap a = none ∨ ∃ strLen, load s.heap st = some (strLen, some a)
  | .get st ret => s.values st ≠ none ∧ ∀ a, ret = some a → s.heap a = none
  | .length st => s.values st ≠ none

/-- The pointer lies in the block that the object has its string in. -/
def OwnBlock (heap : Heap) (st : Addr) (source : CharPtr) : Prop :=
  ∃ strLen p, load heap st = some (strLen, some p) ∧ source.block = some p

/-- A set with a string gets its memory, and the string is none of the object's own. -/
def Settable (s : State) : Event → Prop
  | .init _ _ _ => True
  | .set st theString ret _ => ∀ source, theString = some source →
      ret ≠ none ∧ ¬ OwnBlock s.heap st source
  | .get _ _ => True
  | .length _ => True

/-- The queries read an object that is stored. -/
theorem Stored.usable {h : Addr} {text : List UInt8} {p : Addr} (hs : Stored heap h text p) :
    Usable heap h text := by
  obtain ⟨content, hp, htext⟩ := hs.string
  refine ⟨⟨p, hs⟩, ?_, fun a => ?_⟩
  · simp [myStringGetStringLength, load_eq hs.object]
  · simp [myStringGetString, load_eq hs.object, loadBytes_eq hp, htext]

/-- A tight block holds the string and its terminator. -/
theorem Tight.stored {h : Addr} {text : List UInt8} {p : Addr} (ht : Tight heap h text p) :
    Stored heap h text p :=
  ⟨ht.object, text ++ [0], ht.block, cString_text ht.nul⟩

/-- Objects with blocks of their own are intact. -/
theorem Represents.intact {string : Addr → Addr} (h : Represents s string) : Intact s :=
  fun st text hst => (h.tight st text hst).stored.usable

/-- The struct of an object is not the block of a string. -/
theorem Stored.ne {h h' : Addr} {text text' : List UInt8} {p p' : Addr}
    (hs : Stored heap h text p) (hs' : Stored heap h' text' p') : h ≠ p' := by
  rintro rfl
  obtain ⟨content, hp, -⟩ := hs'.string
  cases hs.object.symm.trans hp

/-- An object whose two blocks are not touched is as it was. -/
theorem Tight.frame {h : Addr} {text : List UInt8} {p : Addr} (ht : Tight heap h text p)
    (hh : heap' h = heap h) (hp : heap' p = heap p) : Tight heap' h text p :=
  ⟨hh.trans ht.object, hp.trans ht.block, ht.nul⟩

/-! ## The functions -/

/-- With memory for both blocks, `myStringInit` makes an object with a copy of the string,
    and touches nothing else. -/
theorem myStringInit_eq {source : CharPtr} {text : List UInt8} {st p : Addr} (hne : p ≠ st)
    (hread : readString heap source = some text) (hst : source.block ≠ some st)
    (hp : source.block ≠ some p) :
    ∃ heap', myStringInit heap source (some st) (some p) = some (heap', some st) ∧
      heap' st = some (.object text.length (some p)) ∧ heap' p = some (.bytes (text ++ [0])) ∧
      ∀ x, x ≠ st → x ≠ p → heap' x = heap x := by
  -- the string is measured when the struct is there
  have hlen : strlen (store heap st (.object 0 none)) source = some text.length := by
    rw [strlen, readString_congr fun b hb => store_of_ne (by rintro rfl; exact hst hb) ..,
      hread]
    rfl
  -- the heap before `strcpy`
  obtain ⟨heap₁, h₁⟩ : ∃ heap₁, heap₁ = store (store (store (store heap st (.object 0 none)) st
    (.object text.length none)) p (.bytes (List.replicate (text.length + 1) 0))) st
      (.object text.length (some p)) := ⟨_, rfl⟩
  have hframe : ∀ x, x ≠ st → x ≠ p → heap₁ x = heap x := by
    intro x hst hp
    rw [h₁, store_of_ne hst, store_of_ne hp, store_of_ne hst, store_of_ne hst]
  have hblock : heap₁ p = some (.bytes (List.replicate (text.length + 1) 0)) := by
    rw [h₁, store_of_ne hne, store_self]
  have hread₁ : readString heap₁ source = some text := by
    rw [readString_congr fun b hb => hframe b (by rintro rfl; exact hst hb)
      (by rintro rfl; exact hp hb), hread]
  have hcopy := strcpy_eq hblock List.length_replicate hread₁ hp
  refine ⟨store heap₁ p (.bytes (text ++ [0])), ?_, ?_, store_self .., fun x hst hp => ?_⟩
  · simp only [myStringInit, hlen, Option.bind_eq_bind, Option.bind_some, ← h₁, hcopy]
    rfl
  · rw [store_of_ne (Ne.symm hne), h₁, store_self]
  · rw [store_of_ne hp, hframe x hst hp]

/-- Without memory for the string nothing has changed. -/
theorem myStringInit_none {source : CharPtr} {text : List UInt8} {st : Addr}
    (hread : readString heap source = some text) (hfree : heap st = none) :
    myStringInit heap source (some st) none = some (heap, none) := by
  have hst := block_ne_of_free hread hfree
  have hlen : strlen (store heap st (.object 0 none)) source = some text.length := by
    rw [strlen, readString_congr fun b hb => store_of_ne (by rintro rfl; exact hst hb) ..,
      hread]
    rfl
  have hsame : free (store (store heap st (.object 0 none)) st (.object text.length none)) st =
      heap := by
    funext x
    by_cases hx : x = st
    · rw [hx, free_self, hfree]
    · rw [free_of_ne hx, store_of_ne hx, store_of_ne hx]
  simp only [myStringInit, hlen, Option.bind_eq_bind, Option.bind_some, hsame]
  rfl

/-- The `realloc` of a set that gets its memory: the front of the old block has moved to the
    new one, which has room for the text and its terminator. -/
theorem realloc_eq {p a : Addr} {content : List UInt8} (n : Nat) (fill : UInt8)
    (hp : heap p = some (.bytes content)) :
    realloc heap (some p) n (some a) fill =
      some (store (free heap p) a (.bytes (content.take n ++
        List.replicate (n - content.length) fill)), some a) := by
  simp [realloc, loadBytes_eq hp]

/-- A set up to its `strcpy`, when `realloc` returns `ret`. -/
theorem myStringSetString_realloc {source : CharPtr} {text content : List UInt8} {st p : Addr}
    {strLen : Int} (ret : Option Addr) (fill : UInt8)
    (hobject : heap st = some (.object strLen (some p))) (hp : heap p = some (.bytes content))
    (hread : readString heap source = some text) :
    myStringSetString heap st (some source) ret fill =
      match ret with
      | none =>
        some (free (store (store heap st (.object text.length (some p))) st
          (.object text.length none)) st, -1)
      | some a =>
        (strcpy (store (store (free (store heap st (.object text.length (some p))) p) a
          (.bytes (content.take (text.length + 1) ++
            List.replicate (text.length + 1 - content.length) fill))) st
          (.object text.length (some a))) a source).bind fun heap => some (heap, 0) := by
  -- a block holds either the object or its string
  have hne : p ≠ st := by
    rintro rfl
    cases hp.symm.trans hobject
  have hp' : store heap st (.object text.length (some p)) p = some (.bytes content) := by
    rw [store_of_ne hne, hp]
  -- `strlen` comes before `realloc`, and so sees the string where it was
  have hlen : strlen heap source = some text.length := by rw [strlen, hread]; rfl
  cases ret with
  | none =>
    simp only [myStringSetString, load_eq hobject, hlen, Option.bind_eq_bind, Option.bind_some,
      realloc, loadBytes_eq hp']
    rfl
  | some a =>
    simp only [myStringSetString, load_eq hobject, hlen, Option.bind_eq_bind, Option.bind_some,
      realloc_eq _ fill hp']
    rfl

/-- A set that gets its memory, to a string that is not the object's own: the object has a
    copy of it at `a`, and only the object's blocks have changed. -/
theorem myStringSetString_eq {source : CharPtr} {text : List UInt8} (fill : UInt8)
    {old : List UInt8} {st p a : Addr} (hs : Stored heap st old p) (hst : st ≠ a)
    (hread : readString heap source = some text) (hp : source.block ≠ some p)
    (ha : source.block ≠ some a) :
    ∃ heap', myStringSetString heap st (some source) (some a) fill = some (heap', 0) ∧
      heap' st = some (.object text.length (some a)) ∧ heap' a = some (.bytes (text ++ [0])) ∧
      ∀ x, x ≠ st → x ≠ a → x ≠ p → heap' x = heap x := by
  obtain ⟨content, hcontent, -⟩ := hs.string
  -- the block has room for the text and its terminator
  have hlength : (content.take (text.length + 1) ++
      List.replicate (text.length + 1 - content.length) fill).length = text.length + 1 := by
    rw [List.length_append, List.length_take, List.length_replicate]
    omega
  obtain ⟨heap₁, h₁⟩ : ∃ heap₁, heap₁ = store (store (free (store heap st
      (.object text.length (some p))) p) a (.bytes (content.take (text.length + 1) ++
        List.replicate (text.length + 1 - content.length) fill))) st
      (.object text.length (some a)) := ⟨_, rfl⟩
  have hframe : ∀ x, x ≠ st → x ≠ a → x ≠ p → heap₁ x = heap x := by
    intro x hxst hxa hxp
    rw [h₁, store_of_ne hxst, store_of_ne hxa, free_of_ne hxp, store_of_ne hxst]
  -- the argument is where it was
  have hread₁ : readString heap₁ source = some text := by
    have hsource := block_ne_of_object hread hs.object
    rw [readString_congr fun b hb => hframe b (by rintro rfl; exact hsource hb)
      (by rintro rfl; exact ha hb) (by rintro rfl; exact hp hb), hread]
  have hcopy : strcpy heap₁ a source = some (store heap₁ a (.bytes (text ++ [0]))) := by
    apply strcpy_eq _ hlength hread₁ ha
    rw [h₁, store_of_ne (Ne.symm hst), store_self]
  refine ⟨store heap₁ a (.bytes (text ++ [0])), ?_, ?_, store_self .., fun x hxst hxa hxp => ?_⟩
  · rw [myStringSetString_realloc _ fill hs.object hcontent hread]
    simp only [← h₁, hcopy, Option.bind_some]
  · rw [store_of_ne hst, h₁, store_self]
  · rw [store_of_ne hxa, hframe x hxst hxa hxp]

/-- When `realloc` fails the object is gone. -/
theorem myStringSetString_none {source : CharPtr} {text : List UInt8} (fill : UInt8)
    {old : List UInt8} {st p : Addr} (hs : Stored heap st old p)
    (hread : readString heap source = some text) :
    ∃ heap', myStringSetString heap st (some source) none fill = some (heap', -1) ∧
      heap' st = none := by
  obtain ⟨content, hcontent, -⟩ := hs.string
  exact ⟨_, myStringSetString_realloc none fill hs.object hcontent hread, free_self ..⟩

/-- An object cannot be set to a part of its own string: the block has been freed, or it is
    copied onto itself, or the terminator has been cut off. -/
theorem myStringSetString_ownBlock {source : CharPtr} {text old : List UInt8} {st p a : Addr}
    (fill : UInt8) (ht : Tight heap st old p) (hread : readString heap source = some text)
    (hblock : source.block = some p) :
    myStringSetString heap st (some source) (some a) fill = none := by
  have hps : p ≠ st := Ne.symm (ht.stored.ne ht.stored)
  cases source with
  | outside bytes => cases hblock
  | inside block offset =>
    obtain rfl : block = p := Option.some.inj hblock
    -- what is read is the part of the old string from `offset` on
    have hpart : offset ≤ old.length ∧ text = old.drop offset := by
      simp only [readString, loadBytes_eq ht.block, Option.bind_eq_bind, Option.bind_some] at hread
      exact cString_drop ht.nul hread
    rw [myStringSetString_realloc _ fill ht.object ht.block hread]
    apply Option.bind_eq_none_iff.mpr
    intro heap' hcopy
    by_cases ha : a = block
    · subst ha
      by_cases hzero : offset = 0
      · rw [hzero, strcpy_start] at hcopy
        cases hcopy
      · -- the front that is left of the old string has no terminator
        have hshort : text.length + 1 ≤ old.length := by
          rw [hpart.2, List.length_drop]
          omega
        have hnul : 0 ∉ (old.take (text.length + 1)).drop offset := fun h0 =>
          ht.nul (List.mem_of_mem_take (List.mem_of_mem_drop h0))
        have hfill : text.length + 1 - (old ++ [0]).length = 0 := by
          rw [List.length_append]
          omega
        rw [strcpy_unreadable] at hcopy
        · cases hcopy
        · simp only [readString, loadBytes, store_of_ne hps, store_self,
            List.take_append_of_le_length hshort, hfill, List.replicate_zero, List.append_nil,
            Option.bind_eq_bind, Option.bind_some]
          exact CMemory.cString_eq_none.mpr hnul
    · -- the block is not in use any more
      rw [strcpy_unreadable] at hcopy
      · cases hcopy
      · simp [readString, loadBytes, store_of_ne hps, store_of_ne (Ne.symm ha)]

/-! ## Steps -/

/-- Objects that are not touched stay as they are, whatever happens elsewhere. -/
theorem Represents.congr {string : Addr → Addr} (h : Represents s string)
    (hvalues : s'.values = s.values)
    (hheap : ∀ x, s.heap x ≠ none → s'.heap x = s.heap x) : Represents s' string := by
  refine ⟨fun st text hst => ?_, ?_⟩
  · rw [hvalues] at hst
    have ht := h.tight st text hst
    exact ht.frame (hheap st (by simp [ht.object])) (hheap _ (by simp [ht.block]))
  · rw [hvalues]
    exact h.separate

/-- An object is given a string at the place `p`, which no other object has, and all
    others stay as they are. -/
theorem Represents.update {string : Addr → Addr} (h : Represents s string) {st p : Addr}
    {text : List UInt8} (hvalues : s'.values = Function.update s.values st (some text))
    (htight : Tight s'.heap st text p)
    (hp : ∀ st', st' ≠ st → s.values st' ≠ none → string st' ≠ p)
    (hheap : ∀ st' text', st' ≠ st → s.values st' = some text' →
      s'.heap st' = s.heap st' ∧ s'.heap (string st') = s.heap (string st')) :
    Represents s' (Function.update string st p) := by
  have hother : ∀ st', st' ≠ st → s'.values st' = s.values st' := by
    intro st' hne
    rw [hvalues, Function.update_of_ne hne]
  constructor
  · intro st' text' hst'
    -- of the object that changes the new value holds, of the others the old ones
    by_cases hst : st' = st
    · subst hst
      rw [hvalues, Function.update_self] at hst'
      rw [Function.update_self, ← Option.some.inj hst']
      exact htight
    · rw [hother st' hst] at hst'
      obtain ⟨hobject, hstring⟩ := hheap st' text' hst hst'
      rw [Function.update_of_ne hst]
      exact (h.tight st' text' hst').frame hobject hstring
  · intro st₁ st₂ h₁ h₂ heq
    -- no other object has the block `p`
    by_cases h₁' : st₁ = st
    · by_cases h₂' : st₂ = st
      · rw [h₁', h₂']
      · rw [h₁', Function.update_self, Function.update_of_ne h₂'] at heq
        rw [hother st₂ h₂'] at h₂
        exact absurd heq.symm (hp st₂ h₂' h₂)
    · rw [hother st₁ h₁'] at h₁
      by_cases h₂' : st₂ = st
      · rw [h₂', Function.update_self, Function.update_of_ne h₁'] at heq
        exact absurd heq (hp st₁ h₁' h₁)
      · rw [hother st₂ h₂'] at h₂
        rw [Function.update_of_ne h₁', Function.update_of_ne h₂'] at heq
        exact h.separate st₁ st₂ h₁ h₂ heq

/-- An init makes a new object or, without memory for both blocks, changes nothing. -/
theorem Represents.init {string : Addr → Addr} (h : Represents s string) {source : CharPtr}
    {obj str : Option Addr} (hcontract : Contract s (.init source obj str)) :
    ∃ s' string', step s (.init source obj str) = some s' ∧ Represents s' string' := by
  obtain ⟨hreadable, hobj, hstr⟩ := hcontract
  obtain ⟨text, hread⟩ := Option.ne_none_iff_exists'.mp hreadable
  cases obj with
  | none => exact ⟨s, string, rfl, h⟩
  | some st =>
    have hfree := hobj st rfl
    cases str with
    | none =>
      refine ⟨s, string, ?_, h⟩
      simp only [step, myStringInit_none hread hfree, Option.bind_eq_bind, Option.bind_some]
      rfl
    | some p =>
      obtain ⟨hpfree, hpst⟩ := hstr p rfl
      have hne : p ≠ st := fun heq => hpst (by rw [heq])
      obtain ⟨heap', heq, hst', hp', hframe⟩ := myStringInit_eq hne hread
        (block_ne_of_free hread hfree) (block_ne_of_free hread hpfree)
      refine ⟨⟨heap', Function.update s.values st (some text)⟩, Function.update string st p, ?_, ?_⟩
      · simp only [step, heq, hread, Option.bind_eq_bind, Option.bind_some]
        rfl
      · -- the two new blocks are nobody's
        have hused : ∀ x, s.heap x ≠ none → heap' x = s.heap x := by
          intro x hx
          exact hframe x (fun heq => hx (heq ▸ hfree)) (fun heq => hx (heq ▸ hpfree))
        apply h.update rfl ⟨hst', hp', nul_notMem_of_readString hread⟩
        · intro st' _ hlive heq
          obtain ⟨text', htext'⟩ := Option.ne_none_iff_exists'.mp hlive
          have hcontent := (h.tight st' text' htext').block
          rw [heq, hpfree] at hcontent
          cases hcontent
        · intro st' text' _ hst'
          have ht := h.tight st' text' hst'
          exact ⟨hused st' (by simp [ht.object]), hused _ (by simp [ht.block])⟩

/-- A pointer that is in none of the object's own memory does not point into its string. -/
theorem Tight.block_ne {st p : Addr} {old : List UInt8} {source : CharPtr}
    (ht : Tight heap st old p) (hown : ¬ OwnBlock heap st source) : source.block ≠ some p :=
  fun hb => hown ⟨_, p, load_eq ht.object, hb⟩

/-- A set that gets its memory, to a string of somebody else. -/
theorem Represents.set {string : Addr → Addr} (h : Represents s string) {st : Addr}
    {theString : Option CharPtr} {ret : Option Addr} {fill : UInt8}
    (hcontract : Contract s (.set st theString ret fill))
    (hsettable : Settable s (.set st theString ret fill)) :
    ∃ s' string', step s (.set st theString ret fill) = some s' ∧ Represents s' string' := by
  obtain ⟨hlive, hreadable, hblock⟩ := hcontract
  cases theString with
  | none =>
    -- rejected
    refine ⟨s, string, ?_, h⟩
    simp only [step, myStringSetString, Option.bind_eq_bind, pure, Option.bind_some]
    rfl
  | some source =>
    obtain ⟨hret, hown⟩ := hsettable source rfl
    obtain ⟨a, rfl⟩ := Option.ne_none_iff_exists'.mp hret
    obtain ⟨text, hread⟩ := Option.ne_none_iff_exists'.mp (hreadable source rfl)
    obtain ⟨old, hold⟩ := Option.ne_none_iff_exists'.mp hlive
    have ht := h.tight st old hold
    -- the block is new, or the one that the object has already
    have ha : s.heap a = none ∨ a = string st := by
      rcases hblock a rfl with hfree | ⟨strLen, hload⟩
      · exact Or.inl hfree
      · rw [load_eq ht.object] at hload
        simp only [Option.some.injEq, Prod.mk.injEq] at hload
        exact Or.inr hload.2.symm
    have hst : st ≠ a := by
      rcases ha with hfree | rfl
      · rintro rfl
        cases hfree.symm.trans ht.object
      · exact ht.stored.ne ht.stored
    have hsource : source.block ≠ some a := by
      rcases ha with hfree | rfl
      · exact block_ne_of_free hread hfree
      · exact ht.block_ne hown
    obtain ⟨heap', heq, hst', ha', hframe⟩ :=
      myStringSetString_eq fill ht.stored hst hread (ht.block_ne hown) hsource
    refine ⟨⟨heap', Function.update s.values st (some text)⟩, Function.update string st a, ?_, ?_⟩
    · simp only [step, heq, hread, Option.bind_eq_bind, Option.bind_some]
      rfl
    · have hother : ∀ st', st' ≠ st → s.values st' ≠ none → string st' ≠ a := by
        intro st' hne hlive' heq
        obtain ⟨text', htext'⟩ := Option.ne_none_iff_exists'.mp hlive'
        have hcontent := (h.tight st' text' htext').block
        rcases ha with hfree | rfl
        · rw [heq, hfree] at hcontent
          cases hcontent
        · exact hne (h.separate st' st hlive' hlive heq)
      apply h.update rfl ⟨hst', ha', nul_notMem_of_readString hread⟩ hother
      intro st' text' hne htext'
      have ht' := h.tight st' text' htext'
      have hlive' : s.values st' ≠ none := by simp [htext']
      constructor
      · -- a struct is neither the old block nor the new one
        apply hframe st' hne _ (ht'.stored.ne ht.stored)
        rintro rfl
        rcases ha with hfree | heq'
        · cases hfree.symm.trans ht'.object
        · exact ht'.stored.ne ht.stored heq'
      · apply hframe _ (Ne.symm (ht.stored.ne ht'.stored)) (hother st' hne hlive')
        exact fun heq' => hne (h.separate st' st hlive' hlive heq')

/-- A step that meets the condition keeps all objects. -/
theorem Represents.step {string : Addr → Addr} (h : Represents s string) {e : Event}
    (hcontract : Contract s e) (hsettable : Settable s e) :
    ∃ s' string', MyString.step s e = some s' ∧ Represents s' string' := by
  cases e with
  | init theString obj str => exact h.init hcontract
  | set st theString ret fill => exact h.set hcontract hsettable
  | get st ret =>
    obtain ⟨hlive, hfree⟩ := hcontract
    obtain ⟨text, htext⟩ := Option.ne_none_iff_exists'.mp hlive
    have hs := (h.tight st text htext).stored
    -- when `malloc` fails nothing is copied
    cases ret with
    | none =>
      refine ⟨s, string, ?_, h⟩
      obtain ⟨content, hp, hstring⟩ := hs.string
      simp [MyString.step, myStringGetString, load_eq hs.object, loadBytes_eq hp, hstring]
    | some a =>
      refine ⟨{ s with heap := store s.heap a (.bytes (text ++ [0])) }, string, ?_, ?_⟩
      · simp [MyString.step, hs.usable.get a]
      · refine h.congr ?_ fun x hx => ?_
        · rfl
        · -- the copy is stored in a block that nobody used
          have hne : x ≠ a := by
            rintro rfl
            exact hx (hfree x rfl)
          exact store_of_ne hne ..
  | length st =>
    obtain ⟨text, htext⟩ := Option.ne_none_iff_exists'.mp (show s.values st ≠ none from hcontract)
    have hlength := (h.tight st text htext).stored.usable.length
    exact ⟨s, string, by simp [MyString.step, hlength], h⟩

/-- A set for which there is no memory destroys its object, and one to a part of the
    object's own string has no defined effect. -/
theorem Represents.not_intact {string : Addr → Addr} (h : Represents s string) {e : Event}
    (hcontract : Contract s e) (hsettable : ¬ Settable s e) (hstep : MyString.step s e = some s') :
    ¬ Intact s' := by
  cases e with
  | init theString obj str => exact absurd trivial hsettable
  | set st theString ret fill =>
    obtain ⟨hlive, hreadable, -⟩ := hcontract
    obtain ⟨old, hold⟩ := Option.ne_none_iff_exists'.mp hlive
    have ht := h.tight st old hold
    simp only [Settable, not_forall] at hsettable
    obtain ⟨source, rfl, hbad⟩ := hsettable
    obtain ⟨text, hread⟩ := Option.ne_none_iff_exists'.mp (hreadable source rfl)
    cases ret with
    | some a =>
      -- the string is the object's own
      have hown : OwnBlock s.heap st source := by
        by_contra hown
        exact hbad ⟨by simp, hown⟩
      obtain ⟨strLen, p, hload, hblock⟩ := hown
      rw [load_eq ht.object, Option.some.injEq, Prod.mk.injEq, Option.some.injEq] at hload
      rw [← hload.2] at hblock
      simp only [MyString.step, myStringSetString_ownBlock fill ht hread hblock,
        Option.bind_eq_bind, Option.bind_none] at hstep
      cases hstep
    | none =>
      obtain ⟨heap', heq, hgone⟩ := myStringSetString_none fill ht.stored hread
      have hs' : s' = { s with heap := heap' } := by
        simp only [MyString.step, heq, Option.bind_eq_bind, Option.bind_some] at hstep
        exact (Option.some.inj hstep).symm
      intro hintact
      rw [hs'] at hintact
      obtain ⟨p, hp⟩ := (hintact st old hold).stored
      have hobject : heap' st = some (.object old.length (some p)) := hp.object
      cases hgone.symm.trans hobject
  | get st ret => exact absurd trivial hsettable
  | length st => exact absurd trivial hsettable

/-! ## Whole runs -/

/-- Through a whole run all objects keep the strings they were last given if and only
    if every set with a string gets its memory and copies a string that is not in the
    object's own block. -/
theorem intact_iff (hstart : Start s) {es : List Event}
    (hcontract : Runs.StepsMeet step Contract s es) :
    Runs.Safe step Intact s es ↔ Runs.StepsMeet step Settable s es := by
  -- at the start no object exists
  have hrepresents : Represents s id := by
    refine ⟨fun st text hst => ?_, fun st st' hst => ?_⟩
    · rw [hstart st] at hst
      cases hst
    · exact absurd (hstart st) hst
  -- the invariant: every object represents the text that its owner gave it last
  apply Runs.safe_iff_stepsMeet (J := fun s => ∃ string, Represents s string) (K := Contract) _ _
    ⟨id, hrepresents⟩ hrepresents.intact hcontract
  · rintro s e s' ⟨string, h⟩ hK hC hs'
    obtain ⟨s'', string', hs'', h'⟩ := h.step hK hC
    obtain rfl : s' = s'' := Option.some.inj (hs'.symm.trans hs'')
    exact ⟨string', h'⟩
  · rintro s e ⟨string, h⟩ _ hK
    constructor
    · rintro ⟨s', hs', hintact⟩
      by_contra hret
      exact h.not_intact hK hret hs' hintact
    · intro hC
      obtain ⟨s', string', hs', h'⟩ := h.step hK hC
      exact ⟨s', hs', h'.intact⟩

/-- An empty heap. -/
def start : State := { heap := fun _ => none, values := fun _ => none }

/-- There are no objects on an empty heap. -/
theorem start_start : Start start := fun _ => rfl

/-- An object is created at address 1 with its string at 2, and set with `realloc`
    returning `ret`. -/
def initAndSet (ret : Option Addr) : List Event :=
  [.init (.outside [104, 105, 0]) (some 1) (some 2),
    .set 1 (some (.outside [121, 111, 117, 0])) ret 0]

/-- The heap and the values behind the init. -/
theorem step_init : ∃ s, step start (.init (.outside [104, 105, 0]) (some 1) (some 2)) = some s ∧
    s.values 1 = some [104, 105] ∧ s.heap 1 = some (.object 2 (some 2)) ∧
    ∀ a, a ≠ 1 → a ≠ 2 → s.heap a = none := by
  refine ⟨_, rfl, rfl, rfl, fun a h₁ h₂ => ?_⟩
  show store (store (store (store (store _ 1 _) 1 _) 2 _) 1 _) 2 _ a = none
  rw [store_of_ne h₂, store_of_ne h₁, store_of_ne h₂, store_of_ne h₁, store_of_ne h₁]
  rfl

/-- The calls meet the contract, unless `realloc` returns the struct of the object. -/
theorem contract_initAndSet {ret : Option Addr} (hret : ret ≠ some 1) :
    Runs.StepsMeet step Contract start (initAndSet ret) := by
  obtain ⟨s, hs, hvalues, hheap, hfree⟩ := step_init
  apply (Runs.stepsMeet_cons hs).mpr
  constructor
  · exact ⟨by decide, fun _ _ => rfl, fun p hp => ⟨rfl, by simp [← Option.some.inj hp]⟩⟩
  · refine ⟨⟨by simp [hvalues], fun source hsource => ?_, fun a ha => ?_⟩, fun _ _ => trivial⟩
    · rw [← Option.some.inj hsource]
      simp [readString, CMemory.cString]
    · by_cases h₂ : a = 2
      · exact Or.inr ⟨2, by rw [h₂]; exact load_eq hheap⟩
      · exact Or.inl (hfree a (fun h₁ => hret (ha.trans (by rw [h₁]))) h₂)

/-- "hi" and then "you", for which `realloc` returns a new block. -/
theorem intact_iff_two_strings : Runs.Safe step Intact start (initAndSet (some 3)) := by
  apply (intact_iff start_start (contract_initAndSet (by decide))).mpr
  apply Runs.stepsMeet_of_forall
  intro e he s
  simp only [initAndSet, List.mem_cons, List.not_mem_nil, or_false] at he
  rcases he with rfl | rfl
  · trivial
  · intro source hsource
    rw [← Option.some.inj hsource]
    exact ⟨by decide, fun ⟨_, _, _, hblock⟩ => by cases hblock⟩

/-- When `realloc` fails, `myStringSetString` returns -1 and the object is freed. -/
theorem failed_set_frees_object :
    Start start ∧ Runs.StepsMeet step Contract start (initAndSet none) ∧
      ¬ Runs.Safe step Intact start (initAndSet none) := by
  refine ⟨start_start, contract_initAndSet (by decide), fun h => ?_⟩
  obtain ⟨s', hrun, hintact⟩ := h.final
  obtain rfl := Option.some.inj hrun
  obtain ⟨p, hp⟩ := (hintact 1 [104, 105] rfl).stored
  cases hp.object

/-- An object is not set to its own string, nor to the rest of it behind the first byte. -/
example : ((step start (.init (.outside [104, 105, 0]) (some 1) (some 2))).bind fun s =>
    (myStringSetString s.heap 1 (some (.inside 2 0)) (some 3) 0).orElse fun _ =>
      (myStringSetString s.heap 1 (some (.inside 2 1)) (some 2) 0)).isNone := rfl

end MyString
