import OoOS.Libk.Arith
import OoOS.Libk.DynamicQueue

/-!
# `dynamic_queue_streambuf`

`xsputn` returns the difference of two end pointers, the first of which it takes
before the buffer grows or is trimmed.
-/

namespace OoOS.Libk

/-- The characters, and the address of `__begin`. -/
structure QueueStreambuf where
  begin : Nat
  queue : DynamicQueue UInt8

namespace QueueStreambuf

variable (s : QueueStreambuf) {src : List UInt8}

/-- What `xsputn` returns when the allocator gives the address `grown` to the buffer
that grows, and `trimmed` to the trimmed one. -/
def xsputn (grown trimmed : Nat) (src : List UInt8) : Nat :=
  let begin :=
    if src = [] then s.begin
    else if (s.queue.append src).trims then trimmed
    else if s.queue.qmax < s.queue.stop + src.length then grown
    else s.begin
  wsub (begin + (s.queue.pushElements src).stop) (s.begin + s.queue.stop)

/-- All buffers are within the address space. -/
structure Fits (grown trimmed : Nat) (src : List UInt8) : Prop where
  next_le : s.queue.next ≤ s.queue.stop
  old : s.begin + s.queue.stop < 2 ^ 64
  grown : grown + (s.queue.stop + src.length) < 2 ^ 64
  trimmed : trimmed + (s.queue.stop + src.length) < 2 ^ 64

lemma stop_pushElements (queue : DynamicQueue UInt8) (nonempty : src ≠ []) :
    (queue.pushElements src).stop = if (queue.append src).trims then
      queue.stop + src.length - queue.next else queue.stop + src.length := by
  rw [DynamicQueue.pushElements, if_neg nonempty, DynamicQueue.onModifyQueue]
  split <;> rfl

/-- The number of characters is returned if the buffer stays where it is, or by luck. -/
theorem xsputn_eq_iff {grown trimmed : Nat} (fits : s.Fits grown trimmed src) :
    s.xsputn grown trimmed src = src.length ↔ src = [] ∨
      if (s.queue.append src).trims then trimmed = s.begin + s.queue.next
      else s.queue.stop + src.length ≤ s.queue.qmax ∨ grown = s.begin := by
  obtain ⟨inside, old, isGrown, isTrimmed⟩ := fits
  unfold xsputn
  by_cases none : src = []
  · simp [none, wsub, DynamicQueue.pushElements]
  rw [or_iff_right none, if_neg none, stop_pushElements s.queue none]
  simp only [wsub]
  split
  · omega
  split <;> omega

theorem xsputn_eq_iff_room : ({ begin := 4096, queue := { capRem := 8 } } : QueueStreambuf).xsputn
    8192 8192 [1, 2, 3, 4, 5, 6, 7, 8] = 8 :=
  (xsputn_eq_iff _ ⟨by decide, by decide, by decide, by decide⟩).mpr (.inr (by decide))

/-- One character for a full buffer, which moves to the next page. -/
theorem xsputn_full :
    ({ begin := 4096, queue := { slots := [1, 2, 3, 4, 5, 6, 7, 8], stop := 8 } } :
      QueueStreambuf).xsputn 8192 0 [9] = 4097 := by
  decide

end QueueStreambuf

end OoOS.Libk
