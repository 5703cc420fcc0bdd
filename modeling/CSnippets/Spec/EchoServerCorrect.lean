import CSnippets.Native.EchoServer

/-!
# Is everything echoed?

The loop takes the length of what it sends and of what it clears from `strlen`, not
from `recv`. A chunk without a NUL that leaves room for a terminator in the zeroed
buffer is sent whole and the buffer is zero again. Nothing written ever contains a
NUL, so a NUL received is not sent back, and a full buffer has no terminator.
-/

namespace EchoServer

/-- The chunk is a string that leaves room for its terminator. -/
def Fits (chunk : List UInt8) : Prop := 0 ∉ chunk ∧ chunk.length < bufferLength

/-- The message buffer, zeroed. -/
def zeroed : List UInt8 := List.replicate bufferLength 0

/-- What is written is a string. -/
theorem echo_written {message chunk written message' : List UInt8}
    (h : echo message chunk = some (written, message')) : 0 ∉ written := by
  unfold echo at h
  obtain ⟨filled, -, h⟩ := Option.bind_eq_some_iff.mp h
  obtain ⟨length, hlength, hpair⟩ := Option.bind_eq_some_iff.mp h
  cases hpair
  obtain ⟨text, htext, rfl⟩ := Option.map_eq_some_iff.mp hlength
  obtain ⟨hnul, rest, hrest⟩ := CMemory.cString_eq_some.mp htext
  rw [hrest, List.take_left]
  exact hnul

/-- No NUL is ever written back. -/
theorem echoLoop_written {message written : List UInt8} {chunks : List (List UInt8)}
    (h : echoLoop message chunks = some written) : 0 ∉ written := by
  induction chunks generalizing message written with
  | nil =>
    cases h
    exact List.not_mem_nil
  | cons chunk chunks ih =>
    unfold echoLoop at h
    obtain ⟨⟨first, message'⟩, hecho, h⟩ := Option.bind_eq_some_iff.mp h
    obtain ⟨rest, hrest, hpair⟩ := Option.bind_eq_some_iff.mp h
    cases hpair
    rw [List.mem_append]
    rintro (hfirst | hlater)
    · exact echo_written hecho hfirst
    · exact ih hrest hlater

/-- A string for whose end there is a NUL in the buffer is echoed, and its place is
    cleared. -/
theorem echo_text {message chunk : List UInt8} (hlength : chunk.length ≤ message.length)
    (hnul : 0 ∉ chunk) (hnext : message[chunk.length]? = some 0) :
    echo message chunk = some (chunk, CMemory.clear message chunk.length) := by
  have htext := (CMemory.cString_splice hnul).mpr hnext
  have hfront : (CMemory.splice message 0 chunk).take chunk.length = chunk := by
    rw [CMemory.splice_zero, List.take_left]
  rw [echo, CMemory.memcpyTo_zero hlength (Nat.le_refl _), List.take_length]
  simp only [CMemory.strlen, htext, Option.map_some, Option.bind_eq_bind, Option.bind_some, hfront,
    CMemory.clear_splice]
  rfl

/-- A chunk that fits is echoed, and the buffer is zero as before. -/
theorem echo_zeroed {chunk : List UInt8} (h : Fits chunk) :
    echo zeroed chunk = some (chunk, zeroed) := by
  obtain ⟨hnul, hlength⟩ := h
  have hzeroed : zeroed.length = bufferLength := List.length_replicate
  have hnext : zeroed[chunk.length]? = some 0 := by
    rw [zeroed, List.getElem?_replicate, if_pos hlength]
  rw [echo_text (by omega) hnul hnext]
  unfold zeroed
  rw [CMemory.clear_zeros (by omega)]

/-- A chunk that fills the buffer and has no NUL is read beyond the buffer. -/
theorem echo_full {chunk : List UInt8} (hnul : 0 ∉ chunk) (hfull : bufferLength ≤ chunk.length) :
    echo zeroed chunk = none := by
  have hzeroed : zeroed.length = bufferLength := List.length_replicate
  by_cases hlong : bufferLength < chunk.length
  · -- `recv` does not return more than `BUFFER_LENGTH` bytes
    rw [echo, CMemory.memcpyTo, if_neg (by omega)]
    rfl
  · have htext : CMemory.cString chunk = none := CMemory.cString_eq_none.mpr hnul
    rw [echo, CMemory.memcpyTo_zero (by omega) (Nat.le_refl _), List.take_length,
      CMemory.splice_full (by omega)]
    simp [CMemory.strlen, htext]

/-- A chunk that fits is written back as it is, and the loop goes on. -/
theorem echoLoop_fits {chunk : List UInt8} (h : Fits chunk) (chunks : List (List UInt8)) :
    echoLoop zeroed (chunk :: chunks) = (echoLoop zeroed chunks).map (chunk ++ ·) := by
  rw [echoLoop, echo_zeroed h]
  cases hrest : echoLoop zeroed chunks with
  | none => simp [hrest]
  | some rest => simp [hrest]

/-- The loop echoes what it receives exactly when all chunks fit. -/
theorem echoLoop_zeroed_iff (chunks : List (List UInt8)) :
    echoLoop zeroed chunks = some chunks.flatten ↔ ∀ chunk ∈ chunks, Fits chunk := by
  constructor
  · intro h
    -- a NUL received is missing from what is written
    have hnul := echoLoop_written h
    rw [List.mem_flatten] at hnul
    induction chunks with
    | nil => simp
    | cons chunk chunks ih =>
      have hchunk : 0 ∉ chunk := fun h0 => hnul ⟨chunk, List.mem_cons_self, h0⟩
      have hlength : chunk.length < bufferLength := by
        by_contra hlong
        rw [echoLoop, echo_full hchunk (by omega)] at h
        cases h
      rw [echoLoop_fits ⟨hchunk, hlength⟩] at h
      obtain ⟨rest, hrest, happend⟩ := Option.map_eq_some_iff.mp h
      obtain rfl : rest = chunks.flatten := List.append_cancel_left happend
      have hlater := ih hrest fun ⟨c, hc, h0⟩ => hnul ⟨c, List.mem_cons_of_mem _ hc, h0⟩
      exact List.forall_mem_cons.mpr ⟨⟨hchunk, hlength⟩, hlater⟩
  · intro h
    induction chunks with
    | nil => rfl
    | cons chunk chunks ih =>
      obtain ⟨hchunk, hrest⟩ := List.forall_mem_cons.mp h
      rw [echoLoop_fits hchunk, ih hrest, List.flatten_cons]
      rfl

/-- Each of the three servers, from a zeroed buffer, writes back exactly what it
    receives if and only if every result of `recv` is a string that leaves room for
    its terminator. -/
theorem servers_echo_iff (chunks : List (List UInt8)) :
    (serverMain zeroed chunks = some chunks.flatten ↔ ∀ chunk ∈ chunks, Fits chunk) ∧
    (multiServerHandler zeroed chunks = some (greeting ++ chunks.flatten) ↔
      ∀ chunk ∈ chunks, Fits chunk) ∧
    (asyncMultithreadHandler zeroed chunks = some chunks.flatten ↔
      ∀ chunk ∈ chunks, Fits chunk) := by
  refine ⟨echoLoop_zeroed_iff chunks, ?_, echoLoop_zeroed_iff chunks⟩
  rw [← echoLoop_zeroed_iff, multiServerHandler]
  constructor
  · intro h
    obtain ⟨echoed, hechoed, hpair⟩ := Option.bind_eq_some_iff.mp h
    rw [hechoed, List.append_cancel_left (Option.some.inj hpair)]
  · intro h
    rw [h]
    rfl

/-- The chunk "a\0b" comes back as "a". -/
theorem echo_stops_at_nul :
    serverMain zeroed [[97, 0, 98]] = some [97] ∧
    multiServerHandler zeroed [[97, 0, 98]] = some (greeting ++ [97]) ∧
    asyncMultithreadHandler zeroed [[97, 0, 98]] = some [97] := by
  decide +kernel

end EchoServer
