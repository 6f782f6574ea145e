import OoOS.Libk.DynamicQueue

/-!
# `simplex_pipe`

The bytes of a pipe lie in a `__dynamic_queue` of 4096 bytes, of which those that were
read are trimmed once there are more than 256 of them.
-/

namespace OoOS.Fs

open List Libk

structure SimplexPipe where
  queue : DynamicQueue UInt8
  sound : queue.Sound

namespace SimplexPipe

def new : SimplexPipe where
  queue := { capRem := 4096, staleOpThresh := 2, staleSizeThresh := 256, trimStale := true }
  sound := ⟨Nat.le_refl _, rfl⟩

variable (pipe : SimplexPipe)

def xsputn (bytes : List UInt8) : SimplexPipe :=
  ⟨pipe.queue.pushElements bytes, pipe.sound.pushElements bytes⟩

def xsgetn (count : Nat) : List UInt8 × SimplexPipe :=
  ((pipe.queue.popElements count).1,
    ⟨(pipe.queue.popElements count).2, pipe.sound.popElements count⟩)

def pending : List UInt8 := pipe.queue.pending

lemma pending_xsputn (bytes : List UInt8) :
    (pipe.xsputn bytes).pending = pipe.pending ++ bytes :=
  pipe.sound.pending_pushElements bytes

lemma xsgetn_eq (count : Nat) : (pipe.xsgetn count).1 = pipe.pending.take count ∧
    (pipe.xsgetn count).2.pending = pipe.pending.drop count :=
  pipe.sound.popElements_eq count

inductive Operation
  | write (bytes : List UInt8)
  | read (count : Nat)

def step (state : List UInt8 × SimplexPipe) : Operation → List UInt8 × SimplexPipe
  | .write bytes => (state.1, state.2.xsputn bytes)
  | .read count => (state.1 ++ (state.2.xsgetn count).1, (state.2.xsgetn count).2)

def run (operations : List Operation) : List UInt8 × SimplexPipe := operations.foldl step ([], new)

def written : List Operation → List UInt8
  | [] => []
  | .write bytes :: operations => bytes ++ written operations
  | .read _ :: operations => written operations

/-- What was read and what is still in the pipe are together what was written. -/
lemma foldl_step_eq (operations : List Operation) (state : List UInt8 × SimplexPipe) :
    (operations.foldl step state).1 ++ (operations.foldl step state).2.pending =
      state.1 ++ state.2.pending ++ written operations := by
  induction operations generalizing state with
  | nil => simp [written]
  | cons operation operations ih =>
    rw [foldl_cons, ih]
    cases operation with
    | write bytes => simp [step, written, pending_xsputn]
    | read count =>
      obtain ⟨taken, left⟩ := state.2.xsgetn_eq count
      simp only [step, written, taken, left, append_assoc]
      rw [← append_assoc (take ..), take_append_drop]

/-- After every sequence of writes and reads the bytes read are the first of those
written. -/
theorem run_delivers (operations : List Operation) : (run operations).1 <+: written operations ∧
    (run operations).1 ++ (run operations).2.pending = written operations ∧
    ∀ count, ((run operations).2.xsgetn count).1.length =
      min count ((written operations).length - (run operations).1.length) := by
  have whole : (run operations).1 ++ (run operations).2.pending = written operations :=
    foldl_step_eq operations ([], new)
  refine ⟨⟨_, whole⟩, whole, fun count => ?_⟩
  rw [((run operations).2.xsgetn_eq count).1, length_take, ← whole, length_append,
    Nat.add_sub_cancel_left]

end SimplexPipe

end OoOS.Fs
