import CSnippets.Native.StaticString
import CSnippets.Spec.MyStringCorrect

/-!
# A static buffer for a heap object

The string module with its one static buffer and an object of the heap version receive
the same strings, save those that are too long for the buffer. What lies behind the
terminator in the buffer is what longer strings have left there; the object has a block
of the right size each time. No caller can tell them apart.
-/

namespace StaticString

open MyString (Addr CharPtr Heap Stored)

/-- A C string: no NUL among its bytes. -/
abbrev Text := { text : List UInt8 // 0 ∉ text }

/-- The pointer that the caller passes: to the string in memory of its own, as in `main`. -/
def pointerTo (text : Text) : CharPtr := .outside (text.val ++ [0])

/-- A call with NULL or a string. When the object receives it, its `realloc` returns `ret`
    and leaves `fill` in the new bytes. -/
structure Call where
  theString : Option Text
  ret : Addr
  fill : UInt8

/-- The static string, and the heap with the object. -/
structure Pair where
  ours : OurString
  heap : Heap

/-- NULL, or too long for the buffer -/
def Rejected : Option Text → Prop
  | none => True
  | some text => stringBufferLen < text.val.length

instance (theString : Option Text) : Decidable (Rejected theString) :=
  match theString with
  | none => .isTrue trivial
  | some text => inferInstanceAs (Decidable (stringBufferLen < text.val.length))

/-- One call: the object at `h` receives what the module has accepted. -/
def step (h : Addr) (p : Pair) (c : Call) : Option Pair := do
  let (ours, err) ← myStringSetString p.ours (c.theString.map (·.val))
  if err = 0 then
    let (heap, _) ←
      MyString.myStringSetString p.heap h (c.theString.map pointerTo) (some c.ret) c.fill
    return { ours := ours, heap := heap }
  else return { p with ours := ours }

/-- The block that `realloc` returns is not in use, or the one it got. -/
def Allocates (h : Addr) (p : Pair) (c : Call) : Prop :=
  ¬ Rejected c.theString →
    p.heap c.ret = none ∨ ∃ strLen, MyString.load p.heap h = some (strLen, some c.ret)

/-- No call tells the two apart: each set stays inside the buffer, and changes nothing
    where it is rejected, and the queries give the same answers. -/
structure Agrees (h : Addr) (p : Pair) : Prop where
  buffer : p.ours.string.length = stringBufferLen + 1
  rejects : ∀ theString, Rejected theString →
    myStringSetString p.ours (theString.map (·.val)) = some (p.ours, -1)
  accepts : ∀ theString, ¬ Rejected theString →
    ∃ ours, myStringSetString p.ours (theString.map (·.val)) = some (ours, 0)
  get : ∀ a, ∃ r, myStringGetString p.heap p.ours (some a) = some r ∧
    MyString.myStringGetString p.heap h (some a) = some r
  length : MyString.myStringGetStringLength p.heap h = some (myStringGetStringLen p.ours)

/-- Both hold `text`. -/
structure Holds (h : Addr) (p : Pair) (text : List UInt8) : Prop where
  buffer : p.ours.string.length = stringBufferLen + 1
  string : CMemory.cString p.ours.string = some text
  strLen : p.ours.strLen = text.length
  object : ∃ q, Stored p.heap h text q

variable {h : Addr} {p p' : Pair}

/-- The pointer is read as the string, whatever is on the heap. -/
theorem readString_pointerTo (heap : Heap) (text : Text) :
    MyString.readString heap (pointerTo text) = some text.val := MyString.cString_text text.property

/-- It does not point into the heap. -/
theorem block_pointerTo_ne (text : Text) (a : Addr) : (pointerTo text).block ≠ some a :=
  fun hblock => by cases hblock

/-- A rejected string leaves the buffer as it is. -/
theorem myStringSetString_rejected {theString : Option Text} (ours : OurString)
    (hreject : Rejected theString) :
    myStringSetString ours (theString.map (·.val)) = some (ours, -1) := by
  cases theString with
  | none => rfl
  | some text => exact if_pos hreject

/-- A string that is accepted is copied to the front of the buffer. -/
theorem myStringSetString_accepted {ours : OurString} {text : Text}
    (hbuffer : ours.string.length = stringBufferLen + 1) (haccept : ¬ Rejected (some text)) :
    ∃ ours', myStringSetString ours (some text.val) = some (ours', 0) ∧
      ours'.string.length = stringBufferLen + 1 ∧
      CMemory.cString ours'.string = some text.val ∧ ours'.strLen = text.val.length := by
  have hlen : text.val.length ≤ stringBufferLen := Nat.le_of_not_lt haccept
  have hcopy : CMemory.memcpyTo ours.string 0 (text.val ++ [0]) (text.val.length + 1) =
      some (CMemory.splice ours.string 0 (text.val ++ [0])) := by
    rw [CMemory.memcpyTo_zero (by omega) (by simp), List.take_of_length_le (by simp)]
  have hread : CMemory.cString (CMemory.splice ours.string 0 (text.val ++ [0])) = some text.val := by
    rw [CMemory.splice_zero, List.append_assoc]
    exact CMemory.cString_eq_some.mpr ⟨text.property, _, rfl⟩
  have hlength : (CMemory.splice ours.string 0 (text.val ++ [0])).length = stringBufferLen + 1 := by
    rw [CMemory.length_splice, hbuffer]
    rw [List.length_append, List.length_singleton]
    omega
  refine ⟨⟨text.val.length, CMemory.splice ours.string 0 (text.val ++ [0])⟩, ?_, hlength, hread,
    rfl⟩
  simp only [myStringSetString, hcopy, if_neg (Nat.not_lt_of_le hlen)]
  rfl

/-- Two objects that hold one text answer alike. -/
theorem Holds.agrees {text : List UInt8} (hp : Holds h p text) : Agrees h p where
  buffer := hp.buffer
  rejects theString hreject := myStringSetString_rejected p.ours hreject
  accepts theString haccept := by
    cases theString with
    | none => exact absurd trivial haccept
    | some text =>
      obtain ⟨ours, hset, -⟩ := myStringSetString_accepted hp.buffer haccept
      exact ⟨ours, hset⟩
  get a := by
    obtain ⟨q, hq⟩ := hp.object
    refine ⟨_, ?_, hq.usable.get a⟩
    simp [myStringGetString, hp.string]
  length := by
    obtain ⟨q, hq⟩ := hp.object
    rw [hq.usable.length, myStringGetStringLen, hp.strLen]
    rfl

/-- A call keeps the two together. -/
theorem Holds.step {text : List UInt8} {c : Call} (hp : Holds h p text)
    (hret : Allocates h p c) :
    ∃ p' text', StaticString.step h p c = some p' ∧ Holds h p' text' := by
  by_cases hreject : Rejected c.theString
  · -- the module has not changed, and the object is not called
    refine ⟨p, text, ?_, hp⟩
    simp only [StaticString.step, myStringSetString_rejected p.ours hreject, Option.bind_eq_bind,
      Option.bind_some]
    rfl
  · obtain ⟨theString, ret, fill⟩ := c
    cases theString with
    | none => exact absurd trivial hreject
    | some new =>
      obtain ⟨ours, hset, hbuffer, hstring, hlen⟩ := myStringSetString_accepted hp.buffer hreject
      obtain ⟨q, hq⟩ := hp.object
      -- the struct is in use, and is not the block of its string
      have hne : h ≠ ret := by
        rcases hret hreject with hfree | ⟨strLen, hload⟩
        · rintro rfl
          cases hfree.symm.trans hq.object
        · rw [MyString.load_eq hq.object, Option.some.injEq, Prod.mk.injEq] at hload
          rintro rfl
          exact hq.ne hq (Option.some.inj hload.2).symm
      obtain ⟨heap, hheap, hobject, hblock, -⟩ :=
        MyString.myStringSetString_eq fill hq hne (readString_pointerTo p.heap new)
          (block_pointerTo_ne new q) (block_pointerTo_ne new ret)
      refine ⟨{ ours := ours, heap := heap }, new.val, ?_, hbuffer, hstring, hlen, ret, hobject, _,
        hblock, MyString.cString_text new.property⟩
      simp [StaticString.step, hset, hheap]

/-- Both objects start with the empty text. -/
theorem holds_init {heap : Heap} (hobject : ∃ q, Stored heap h [] q) :
    Holds h { ours := ourString, heap := heap } [] where
  buffer := List.length_replicate
  string := CMemory.cString_eq_some.mpr ⟨List.not_mem_nil, _, List.replicate_succ⟩
  strLen := rfl
  object := hobject

/-- From the static string before the first call and an object that was made with the empty
    string on, with an allocator that has memory: every run of calls is defined, no write
    leaves the buffer, and the two agree after each call. -/
theorem static_string_agrees {heap₀ heap : Heap} {q : Addr} (hne : q ≠ h)
    (hinit : MyString.myStringInit heap₀ (.outside [0]) (some h) (some q) = some (heap, some h))
    (calls : List Call)
    (hret : Runs.StepsMeet (step h) (Allocates h) { ours := ourString, heap := heap } calls) :
    Runs.Safe (step h) (Agrees h) { ours := ourString, heap := heap } calls := by
  -- myStringInit gives the object with the empty text
  have hobject : ∃ q, Stored heap h [] q := by
    obtain ⟨heap', hinit', hobject, hblock, -⟩ := MyString.myStringInit_eq hne
      (readString_pointerTo heap₀ ⟨[], List.not_mem_nil⟩) (block_pointerTo_ne _ h)
      (block_pointerTo_ne _ q)
    rw [show pointerTo ⟨[], List.not_mem_nil⟩ = .outside [0] from rfl, hinit, Option.some.injEq,
      Prod.mk.injEq] at hinit'
    rw [← hinit'.1] at hobject hblock
    exact ⟨q, hobject, _, hblock, MyString.cString_text List.not_mem_nil⟩
  apply Runs.Safe.of_invariant (J := fun p => ∃ text, Holds h p text) _ _
    ⟨[], holds_init hobject⟩ hret
  · rintro p ⟨text, hp⟩
    exact hp.agrees
  · rintro p c ⟨text, hp⟩ hc
    obtain ⟨p', text', hstep, hp'⟩ := hp.step hc
    exact ⟨p', hstep, text', hp'⟩

/-- "hi" for an object made at 0 and 1, for which `realloc` returns a new block, and NULL. -/
theorem static_string_agrees_two :
    ∃ heap,
      MyString.myStringInit (fun _ => none) (.outside [0]) (some 0) (some 1) = some (heap, some 0) ∧
      Runs.Safe (step 0) (Agrees 0) { ours := ourString, heap := heap }
        [⟨some ⟨[104, 105], by decide⟩, 2, 7⟩, ⟨none, 0, 0⟩] := by
  have hread := readString_pointerTo (fun _ => none) ⟨[], List.not_mem_nil⟩
  obtain ⟨heap, hinit, -, -, hframe⟩ := MyString.myStringInit_eq
    (by decide : (1 : Addr) ≠ 0) hread (block_pointerTo_ne _ 0) (block_pointerTo_ne _ 1)
  refine ⟨heap, hinit, static_string_agrees (by decide) hinit _ ?_⟩
  constructor
  · exact fun _ => .inl (hframe 2 (by decide) (by decide))
  · exact fun p _ => ⟨fun haccept => absurd trivial haccept, fun _ _ => trivial⟩

end StaticString
