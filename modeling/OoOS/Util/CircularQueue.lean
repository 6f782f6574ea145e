import Mathlib.Data.Int.Basic
import Mathlib.Logic.Function.Iterate
import Mathlib.Tactic.Common

/-!
# `circular_queue`

Pointers are counted in elements from `__base`.  The block of the heap has `room`
bytes, of which `held` were asked for; outside of it nothing is stored.
-/

namespace OoOS.Util

universe u

structure ElementType where
  size : Nat
  triviallyDestructible : Bool
  positive : 0 < size

structure CircularBuffer (α : Type u) where
  allocated : Bool := false
  room : Nat := 0
  held : Nat := 0
  cells : Nat → Option α := fun _ => none
  curr : Nat := 0
  back : Nat := 0
  rmax : Nat := 0

namespace CircularBuffer

variable {α : Type u} (buffer : CircularBuffer α)

def capacity : Nat := buffer.rmax

def posOf (p : Nat) : Nat :=
  let diff : Int := p - buffer.curr
  if diff = 0 then 0
  else ((buffer.capacity + diff) % buffer.capacity).toNat

def length : Nat := buffer.posOf buffer.back

def empty : Bool := buffer.length = 0

def peek : Option α := buffer.cells buffer.curr

def front : Option α := buffer.peek

def pclamp (p low high : Nat) : Nat :=
  if p < low then low else if high < p then high else p

def advPtr (p : Nat) : Nat := if p + 1 < buffer.rmax then p + 1 else 0

def advPtrBy (p n : Nat) : Nat := pclamp ((p + n) % buffer.capacity) 0 buffer.rmax

variable (kind : ElementType)

/-- `__create`, also of the constructor; `allocate(0)` is null. -/
def create (n extra : Nat) : CircularBuffer α :=
  if n = 0 then {}
  else
    { allocated := true
      room := n * kind.size + extra
      held := n * kind.size
      rmax := n }

def createIfEmpty (buffer : CircularBuffer α) (n extra : Nat) : CircularBuffer α :=
  if buffer.allocated then buffer else create kind n extra

/-- `kframe_tag::reallocate`: the block is kept if it has the bytes, otherwise the
held bytes are copied. -/
def alignedReallocate (buffer : CircularBuffer α) (n extra : Nat) : CircularBuffer α :=
  if n ≤ buffer.room then { buffer with held := n }
  else
    { buffer with
      room := n + extra
      held := n
      cells := fun i =>
        if (i + 1) * kind.size ≤ min buffer.held n then buffer.cells i
        else none }

/-- `ooos::resize`: for a trivially destructible type the count of elements is
passed on as a number of bytes. -/
def resize (buffer : CircularBuffer α) (ocount ncount extra : Nat) : CircularBuffer α :=
  if buffer.allocated = false then create kind ncount extra
  else if kind.triviallyDestructible = false then
    { buffer with
      room := ncount * kind.size + extra
      held := ncount * kind.size
      cells := fun i =>
        if i < (if ncount < ocount then ncount else ocount) then
          buffer.cells i
        else none }
  else buffer.alignedReallocate kind ncount extra

def expandSplice (buffer : CircularBuffer α) (extra : Nat) : CircularBuffer α :=
  let s := buffer.capacity
  let l := buffer.back + 1
  let c := buffer.rmax - buffer.curr
  let tar := s * 2
  { allocated := true
    room := tar * kind.size + extra
    held := tar * kind.size
    cells := fun i =>
      if i < c then buffer.cells (buffer.curr + i)
      else if i < c + l then buffer.cells (i - c)
      else none
    curr := 0
    back := c + l
    rmax := tar }

def expandDirect (buffer : CircularBuffer α) (extra : Nat) : CircularBuffer α :=
  let s := buffer.capacity
  let tar := s * 2
  { buffer.resize kind s tar extra with
    curr := 0
    back := s
    rmax := tar }

def advPush (buffer : CircularBuffer α) (extra : Nat) : CircularBuffer α :=
  let target := buffer.back + 1
  if target = buffer.rmax ∧ buffer.curr = 0 then
    buffer.expandDirect kind extra
  else if target = buffer.curr then buffer.expandSplice kind extra
  else { buffer with back := target % buffer.capacity }

def store (buffer : CircularBuffer α) (value : α) : Option (CircularBuffer α) :=
  if (buffer.back + 1) * kind.size ≤ buffer.room then
    some { buffer with
      cells := fun i =>
        if i = buffer.back then some value else buffer.cells i }
  else none

def push (buffer : CircularBuffer α) (value : α) (extra : Nat) : Option (CircularBuffer α) :=
  ((buffer.createIfEmpty kind 4 extra).store kind value).map
    fun stored => stored.advPush kind extra

def advPop (buffer : CircularBuffer α) : CircularBuffer α :=
  if buffer.capacity ≠ 0 ∧ buffer.curr ≠ buffer.back then
    { buffer with curr := buffer.advPtr buffer.curr }
  else buffer

def advPopBy (buffer : CircularBuffer α) (n : Nat) : CircularBuffer α :=
  if n = 1 then buffer.advPop
  else if buffer.capacity ≠ 0 then
    let l := buffer.length
    let n := if l < n then l else n
    if kind.triviallyDestructible = false then advPop^[n] buffer
    else { buffer with curr := buffer.advPtrBy buffer.curr n }
  else buffer

def pop (buffer : CircularBuffer α) : Option α × CircularBuffer α :=
  (buffer.cells buffer.curr, buffer.advPop)

def bump (buffer : CircularBuffer α) (n : Nat) : CircularBuffer α := buffer.advPopBy kind n

def construct (capacity : Option Nat) (extra : Nat) : CircularBuffer α :=
  match capacity with
  | none => {}
  | some n => create kind n extra

def next (pos : Nat) : Nat :=
  if buffer.capacity ≠ 0 ∧ pos ≠ buffer.back then
    if pos + 1 < buffer.rmax then pos + 1 else 0
  else buffer.back

/-- The cells an iterator visits from some position until it is `end()`. -/
def visit : Nat → Nat → Option (List (Option α))
  | 0, _ => none
  | fuel + 1, pos =>
    if pos = buffer.back then some []
    else (visit fuel (buffer.next pos)).map (buffer.cells pos :: ·)

def iterate : Option (List (Option α)) := buffer.visit (buffer.capacity + 1) buffer.curr

end CircularBuffer

inductive QueueCall (α : Type u) where
  | push (value : α) (extra : Nat)
  | pop
  | bump (n : Nat)

def CircularBuffer.call {α : Type u} (kind : ElementType)
    (buffer : CircularBuffer α) :
    QueueCall α → Option (Option α × CircularBuffer α)
  | .push value extra => (buffer.push kind value extra).map fun next => (none, next)
  | .pop => some buffer.pop
  | .bump n => some (none, buffer.bump kind n)

end OoOS.Util
