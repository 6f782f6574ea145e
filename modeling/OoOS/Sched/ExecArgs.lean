import Mathlib.Tactic.Common

/-!
# The arguments of a program

`init_task_state` puts the pointers of the arguments and of the environment, and
behind them the strings, at the end of the frame.
-/

namespace OoOS.Sched.ExecArgs

/-- A C string without its terminator; `none` is a null pointer. -/
abbrev CString := Option (List UInt8)

def strlen (str : CString) : Nat := (str.getD []).length

/-- `arg_vec` with the null at its end. -/
def sealed (args : List CString) : List CString :=
  if args = [] ∨ (args.getLast?.join).isSome then args ++ [none] else args

def totalLen (argVec envVec : List CString) : Nat :=
  let pointers := (argVec.length + envVec.length + 2) * 8
  (argVec ++ argVec).foldl (fun total str => total + strlen str) pointers

/-- What the copying loops write: strings with their terminators, and pointers. -/
inductive Value
  | chars (bytes : List UInt8)
  | pointer (target : Nat)
  deriving DecidableEq

def Value.size : Value → Nat
  | .chars bytes => bytes.length
  | .pointer _ => 8

/-- The loop over a vector, with the next slot of its array and the next free
address: what it writes where, and the address behind its strings. -/
def copyStrings : List CString → (slot oldExt : Nat) → List (Nat × Value) × Nat
  | [], slot, oldExt => ([(slot, .pointer 0)], oldExt)
  | str :: rest, slot, oldExt =>
    let (writes, after) := copyStrings rest (slot + 8) (oldExt + strlen str + 1)
    ((oldExt, .chars (str.getD [] ++ [0])) :: (slot, .pointer oldExt) :: writes, after)

structure ArgBlock where
  writes : List (Nat × Value)
  strlenCalls : List CString
  argv : Nat
  env : Nat
  total : Nat

def initTaskState (oldExt : Nat) (args envVec : List CString) : ArgBlock :=
  let argVec := sealed args
  let rtEnvPtr := oldExt + (argVec.length + 1) * 8
  let (argWrites, strings) := copyStrings argVec oldExt (rtEnvPtr + (envVec.length + 1) * 8)
  let (envWrites, _) := copyStrings envVec rtEnvPtr strings
  { writes := argWrites ++ envWrites
    strlenCalls := argVec.filter Option.isSome ++ argVec.filter Option.isSome ++ argVec ++ envVec
    argv := oldExt
    env := rtEnvPtr
    total := totalLen argVec envVec }

/-- An array of pointers to copies of the strings, with a null behind it. -/
def Terminated (writes : List (Nat × Value)) (array : Nat) (strings : List (List UInt8)) : Prop :=
  (array + 8 * strings.length, .pointer 0) ∈ writes ∧ ∀ i str, strings[i]? = some str →
    ∃ target, (array + 8 * i, .pointer target) ∈ writes ∧ (target, .chars (str ++ [0])) ∈ writes

structure WellFormed (oldExt : Nat) (args envVec : List CString) (block : ArgBlock) : Prop where
  inside : ∀ write ∈ block.writes, oldExt ≤ write.1 ∧ write.1 + write.2.size ≤ oldExt + block.total
  nonNull : none ∉ block.strlenCalls
  argv : Terminated block.writes block.argv args.reduceOption
  env : Terminated block.writes block.env envVec.reduceOption

lemma none_mem_sealed (args : List CString) : none ∈ sealed args := by
  rw [sealed]
  split
  · simp
  rename_i h
  rw [not_or] at h
  obtain ⟨front, last, rfl⟩ := List.eq_nil_or_concat args |>.resolve_left h.1
  have hl : last = none := by simpa using h.2
  simp [hl]

/-- The null at the end of the arguments is copied as if it were a string. -/
theorem not_wellFormed (oldExt : Nat) (args envVec : List CString) :
    ¬ WellFormed oldExt args envVec (initTaskState oldExt args envVec) := by
  intro h
  apply h.nonNull
  have hn := none_mem_sealed args
  simp [initTaskState, hn]

/-- The terminators and the environment are not counted. -/
theorem not_wellFormed_oneVariable :
    ¬ WellFormed 4096 [] [some [65]] (initTaskState 4096 [] [some [65]]) := by
  intro h
  have hw := h.inside (4129, .chars [65, 0]) (by decide)
  revert hw
  decide

end OoOS.Sched.ExecArgs
