import Mathlib.Data.List.Perm.Basic
import Mathlib.Tactic.Ring

/-!
# `pool_allocator`

The copies of an allocator share one pool with a place for each power of two.
`block_malloc` is taken at its word.
-/

namespace OoOS.Util.PoolAllocator

/-- The value type, with what `array_zero` asks of it. -/
structure ElemType where
  size : Nat
  trivialCopy : Bool := true
  defaultConstructible : Bool := true
  integral : Bool := false
  size_pos : 0 < size
  size_lt : size < 2 ^ 64

/-- A block by the address of its tag, with `allocated_size()` and `align_bytes`. -/
structure Block where
  tag : Nat
  allocated : Nat
  alignBytes : Nat
deriving DecidableEq

structure Live where
  block : Block
  count : Nat
deriving DecidableEq

abbrev Pool := Nat → Option Block

structure State where
  pool : Pool
  live : List Live

def new : State := ⟨fun _ => none, []⟩

def nblocks : Nat := 16

def blockIdx (n : Nat) : Nat :=
  if n < 2 then 0 else if 2 ^ n.log2 < n then n.log2 + 1 else n.log2

def blockSize (n : Nat) : Nat := if n < 2 then 1 else 2 ^ (blockIdx n % 64)

def rangeCheck (n : Nat) : Bool := n ≤ 2 ^ (nblocks - 1)

def poolAt (pool : Pool) (n : Nat) : Option Block :=
  if rangeCheck n then pool (blockIdx n) else none

/-- `__get_tag`; `sys` is what `block_malloc` gives if the pool has no block. -/
def getTag (pool : Pool) (n : Nat) (sys : Option Block) : Option Block × Pool :=
  match poolAt pool n with
  | none => (sys, pool)
  | some block => (some block, Function.update pool (blockIdx n) none)

/-- `deallocate`: a block that is not kept goes back to the system. -/
def deallocate (pool : Pool) (array : Live) : Pool :=
  if rangeCheck array.count ∧ pool (blockIdx array.count) = none then
    Function.update pool (blockIdx array.count) (some array.block)
  else pool

/-- The number of bytes that `array_zero` writes for `n` elements.  `array_fill` with
an integer is a `memset` of as many bytes as it is given elements. -/
def ElemType.arrayZero (type : ElemType) (n : Nat) : Nat :=
  if type.defaultConstructible ∧ (type.integral = false ∨ 8 < type.size) then n * type.size
  else if type.trivialCopy = false then 0
  else if type.size = 8 ∨ type.size = 4 ∨ type.size = 2 then n
  else if type.size < 8 then n * type.size % 2 ^ 64
  else if type.size % 8 = 0 then n * type.size % 2 ^ 64 / 8
  else if type.size % 4 = 0 then n * type.size % 2 ^ 64 / 4
  else if type.size % 2 = 0 then n * type.size % 2 ^ 64 / 2
  else n * type.size % 2 ^ 64

inductive Op (V : Type) where
  | allocate (n : Nat) (sys : Option Block)
  | deallocate (array : Live)
  | resize (array : Live) (target : Nat) (elems : Nat → V) (sys : Option Block)

/-- The pointer returned, one past the last byte written there, and the elements
still at their old places. -/
structure Outcome (V : Type) where
  state : State
  result : Option Live
  reach : Nat
  elems : Nat → Option V

variable {V : Type} (type : ElemType) {pool taken : Pool} {live live' : List Live}
  {array : Live} {block : Block} {n : Nat} {sys : Option Block} {state : State}

def resize (state : State) (array : Live) (target : Nat) (elems : Nat → V)
    (sys : Option Block) : Outcome V :=
  let others := state.live.erase array
  if target = 0 then ⟨⟨deallocate state.pool array, others⟩, none, 0, fun _ => none⟩
  else if target * type.size % 2 ^ 64 ≤ array.block.allocated then
    let reach := if array.count < target then
      target * type.size + type.arrayZero ((target - array.count) * type.size % 2 ^ 64) else 0
    ⟨⟨state.pool, ⟨array.block, target⟩ :: others⟩, some ⟨array.block, target⟩, reach,
      fun i => if target ≤ i ∧ (i < array.count ∨ i * type.size < reach) then none
        else some (elems i)⟩
  else match getTag state.pool target sys with
    | (none, pool) => ⟨⟨deallocate pool array, others⟩, none, 0, fun _ => none⟩
    | (some block, pool) =>
      ⟨⟨deallocate pool array, ⟨block, target⟩ :: others⟩, some ⟨block, target⟩,
        type.arrayZero target,
        fun i => if i < min array.count target then some (elems i) else none⟩

def step (state : State) : Op V → Outcome V
  | .allocate n sys => match getTag state.pool n sys with
    | (none, pool) => ⟨⟨pool, state.live⟩, none, 0, fun _ => none⟩
    | (some block, pool) =>
      ⟨⟨pool, ⟨block, n⟩ :: state.live⟩, some ⟨block, n⟩, type.arrayZero n, fun _ => none⟩
  | .deallocate array =>
    ⟨⟨deallocate state.pool array, state.live.erase array⟩, none, 0, fun _ => none⟩
  | .resize array target elems sys => resize type state array target elems sys

abbrev Room (block : Block) (n : Nat) : Prop := block.alignBytes + n * type.size ≤ block.allocated

def tags (live : List Live) : List Nat := live.map (·.block.tag)

/-- No block has two owners among the pointers in use and the places of the pool. -/
structure Separate (pool : Pool) (live : List Live) : Prop where
  nodup : (tags live).Nodup
  notLive : ∀ k block, pool k = some block → block.tag ∉ tags live
  inj : ∀ k k' block block', pool k = some block → pool k' = some block' →
    block.tag = block'.tag → k = k'

structure Good (state : State) : Prop where
  separate : Separate state.pool state.live
  room : ∀ array ∈ state.live, Room type array.block array.count

def Kept (elems : Nat → Option V) : Op V → Prop
  | .resize array target old _ => ∀ i < min array.count target, elems i = some (old i)
  | _ => True

structure Outcome.Right (outcome : Outcome V) (op : Op V) : Prop where
  good : Good type outcome.state
  inside : ∀ array, outcome.result = some array →
    array.block.alignBytes + outcome.reach ≤ array.block.allocated
  kept : Kept outcome.elems op

/-- What `block_malloc` promises for the bytes that `__get_tag` asks for. -/
structure Fresh (pool : Pool) (live : List Live) (n : Nat) (block : Block) : Prop where
  notLive : block.tag ∉ tags live
  notPooled : ∀ k block', pool k = some block' → block'.tag ≠ block.tag
  room : block.alignBytes + type.size * blockSize n % 2 ^ 64 ≤ block.allocated
  allocated_lt : block.allocated < 2 ^ 63

/-- The calls the property is about: pointers in use, with their count. -/
def Valid (state : State) : Op V → Prop
  | .allocate n sys => ∀ block, sys = some block → Fresh type state.pool state.live n block
  | .deallocate array => array ∈ state.live
  | .resize array target _ sys => array ∈ state.live ∧
      ∀ block, sys = some block → Fresh type state.pool state.live target block

/-- The pool's block has room for the elements, or the size of a new one does not wrap. -/
def Enough (pool : Pool) (n : Nat) (sys : Option Block) : Prop :=
  match poolAt pool n with
  | some block => Room type block n
  | none => sys = none ∨ type.size * 2 ^ blockIdx n < 2 ^ 64

def Served (state : State) : Op V → Prop
  | .allocate n sys => Enough type state.pool n sys
  | .deallocate _ => True
  | .resize array target _ sys =>
    target = 0 ∨ if target * type.size % 2 ^ 64 ≤ array.block.allocated then
      array.count < target → array.block.alignBytes + (target * type.size +
        type.arrayZero ((target - array.count) * type.size % 2 ^ 64)) ≤ array.block.allocated
    else Enough type state.pool target sys ∧
      (poolAt state.pool target = none → sys = none → array.count = 0)

def Along (holds : State → Op V → Prop) : State → List (Op V) → Prop
  | _, [] => True
  | state, op :: ops => holds state op ∧ Along holds (step type state op).state ops

def Correct : State → List (Op V) → Prop :=
  Along type fun state op => (step type state op).Right type op

lemma le_two_pow_blockIdx (n : Nat) : n ≤ 2 ^ blockIdx n := by
  unfold blockIdx
  split
  · omega
  split
  · exact Nat.lt_log2_self.le
  · omega

lemma two_pow_blockIdx_lt (two : 2 ≤ n) : 2 ^ blockIdx n < 2 * n := by
  have hl := Nat.log2_self_le (show n ≠ 0 by omega)
  unfold blockIdx
  split
  · omega
  split
  · rw [Nat.pow_succ]
    omega
  · omega

variable {type}

/-- A new block has room if its size does not wrap. -/
lemma Fresh.room_iff (fresh : Fresh type pool live n block) :
    Room type block n ↔ type.size * 2 ^ blockIdx n < 2 ^ 64 := by
  have hs := type.size_lt
  have hn := Nat.mul_le_mul_left type.size (le_two_pow_blockIdx n)
  have hh := fresh.room
  have hlt := fresh.allocated_lt
  unfold Room
  constructor
  · intro _
    by_cases h2 : 2 ≤ n
    · have := Nat.mul_le_mul_left type.size (two_pow_blockIdx_lt h2).le
      have : type.size * (2 * n) = 2 * (n * type.size) := by ring
      omega
    · simpa [blockIdx, show n < 2 by omega] using hs
  intro hw
  have he : blockSize n = 2 ^ blockIdx n := by
    unfold blockSize
    split
    · simp [blockIdx, *]
    have : 2 ^ blockIdx n < 2 ^ 64 := (Nat.le_mul_of_pos_left _ type.size_pos).trans_lt hw
    rw [Nat.mod_eq_of_lt ((Nat.pow_lt_pow_iff_right (by omega)).mp this)]
  rw [he, Nat.mod_eq_of_lt hw] at hh
  rw [Nat.mul_comm]
  omega

lemma room_getTag_iff (fresh : ∀ block, sys = some block → Fresh type pool live n block) :
    (∀ block, (getTag pool n sys).1 = some block → Room type block n) ↔ Enough type pool n sys := by
  unfold getTag Enough
  cases poolAt pool n with
  | some block => simp
  | none =>
    cases sys with
    | none => simp
    | some block => simpa using (fresh block rfl).room_iff

lemma Separate.perm (separate : Separate pool live) (perm : (tags live').Perm (tags live)) :
    Separate pool live' :=
  ⟨perm.nodup_iff.mpr separate.nodup, fun k block hk hm =>
    separate.notLive k block hk (perm.mem_iff.mp hm), separate.inj⟩

open List

lemma Separate.getTag (separate : Separate pool live)
    (fresh : ∀ block, sys = some block → Fresh type pool live n block)
    (got : getTag pool n sys = (some block, taken)) (k : Nat) :
    Separate taken (⟨block, k⟩ :: live) := by
  unfold PoolAllocator.getTag poolAt at got
  obtain ⟨hd, hn, hi⟩ := separate
  split at got
  · obtain ⟨rfl, rfl⟩ := Prod.mk.inj got
    obtain ⟨hl, hp, -, -⟩ := fresh block rfl
    constructor
    · exact nodup_cons.mpr ⟨hl, hd⟩
    · intro k' b hk hm
      rcases mem_cons.mp hm with he | hm
      · exact hp k' b hk he
      · exact hn k' b hk hm
    · exact hi
  rename_i found hp
  obtain ⟨he, rfl⟩ := Prod.mk.inj got
  obtain rfl := Option.some.inj he
  have hk := (Option.ite_none_right_eq_some.mp hp).2
  constructor
  · exact nodup_cons.mpr ⟨hn _ _ hk, hd⟩
  · intro k' b hk' hm
    have : k' ≠ blockIdx n := by
      rintro rfl
      simp at hk'
    rw [Function.update_of_ne this] at hk'
    rcases mem_cons.mp hm with he | hm
    · exact this (hi _ _ _ _ hk' hk he)
    · exact hn _ _ hk' hm
  intro a b x y ha hb
  simp only [Function.update_apply] at ha hb
  exact hi a b x y (by grind) (by grind)

lemma Separate.deallocate (separate : Separate pool (array :: live)) :
    Separate (deallocate pool array) live := by
  obtain ⟨hd, hn, hi⟩ := separate
  obtain ⟨ha, hd⟩ : array.block.tag ∉ tags live ∧ (tags live).Nodup := nodup_cons.mp hd
  have hn' : ∀ k b, pool k = some b → b.tag ≠ array.block.tag ∧ b.tag ∉ tags live :=
    fun k b hk => by simpa [tags] using hn k b hk
  unfold PoolAllocator.deallocate
  split
  · refine ⟨hd, fun k b hk => ?_, fun k k' b b' hk hk' he => ?_⟩
    · simp only [Function.update_apply] at hk
      grind
    grind
  · exact ⟨hd, fun k b hk => (hn' k b hk).2, hi⟩

lemma getTag_fst_eq_none_iff :
    (getTag pool n sys).1 = none ↔ poolAt pool n = none ∧ sys = none := by
  unfold getTag
  cases poolAt pool n <;> simp

lemma getTag_snd_of_none (got : getTag pool n sys = (none, taken)) : taken = pool := by
  have hn := (getTag_fst_eq_none_iff.mp (congrArg Prod.fst got)).1
  simp only [getTag, hn] at got
  exact (Prod.mk.inj got).2.symm

lemma Room.mono {m : Nat} (room : Room type block n) (fewer : m ≤ n) : Room type block m := by
  have := Nat.mul_le_mul_right type.size fewer
  omega

lemma perm_tags_erase (mem : array ∈ live) : (tags (array :: live.erase array)).Perm (tags live) :=
  (perm_cons_erase mem).symm.map _

section

variable {op : Op V} {reach : Nat} {elems : Nat → Option V}
  (rooms : ∀ array ∈ live, Room type array.block array.count)
include rooms

lemma right_none_iff (separate : Separate pool live) :
    (⟨⟨pool, live⟩, none, reach, elems⟩ : Outcome V).Right type op ↔ Kept elems op :=
  ⟨fun h => h.kept, fun h => ⟨⟨separate, rooms⟩, nofun, h⟩⟩

lemma right_some_iff (separate : Separate pool (⟨block, n⟩ :: live)) :
    (⟨⟨pool, ⟨block, n⟩ :: live⟩, some ⟨block, n⟩, reach, elems⟩ : Outcome V).Right type op ↔
      (Room type block n ∧ block.alignBytes + reach ≤ block.allocated) ∧ Kept elems op := by
  constructor
  · intro right
    exact ⟨⟨right.good.room ⟨block, n⟩ mem_cons_self, right.inside ⟨block, n⟩ rfl⟩, right.kept⟩
  rintro ⟨⟨room, inside⟩, kept⟩
  refine ⟨⟨separate, forall_mem_cons.mpr ⟨room, rooms⟩⟩, ?_, kept⟩
  rintro _ ⟨⟩
  exact inside

end

/-- No overload writes behind the elements it is called for. -/
lemma arrayZero_le (type : ElemType) (n : Nat) : type.arrayZero n ≤ n * type.size := by
  have wraps : n * type.size % 2 ^ 64 ≤ n * type.size := Nat.mod_le _ _
  have whole : n ≤ n * type.size := Nat.le_mul_of_pos_right n type.size_pos
  unfold ElemType.arrayZero
  split_ifs <;> first | exact whole | omega

lemma room_and_arrayZero_iff :
    Room type block n ∧ block.alignBytes + type.arrayZero n ≤ block.allocated ↔
      Room type block n := by
  have := arrayZero_le type n
  exact ⟨fun both => both.1, fun room => ⟨room, by omega⟩⟩

lemma right_allocate_iff (good : Good type state)
    (fresh : ∀ block, sys = some block → Fresh type state.pool state.live n block) :
    (step type state (.allocate n sys : Op V)).Right type (.allocate n sys) ↔
      Enough type state.pool n sys := by
  rw [← room_getTag_iff fresh, step]
  cases ht : getTag state.pool n sys with
  | mk found _ =>
    cases found with
    | none =>
      obtain rfl := getTag_snd_of_none ht
      simp [right_none_iff good.room good.separate, Kept]
    | some block =>
      simp [right_some_iff good.room (good.separate.getTag fresh ht n), room_and_arrayZero_iff,
        Kept]

/-- A resize is right exactly if it is served. -/
lemma right_resize_iff {target : Nat} {elems : Nat → V} (good : Good type state)
    (mem : array ∈ state.live)
    (fresh : ∀ block, sys = some block → Fresh type state.pool state.live target block) :
    (resize type state array target elems sys).Right type (.resize array target elems sys) ↔
      Served type state (.resize array target elems sys) := by
  have hs := good.separate.perm (perm_tags_erase mem)
  have ho : ∀ other ∈ state.live.erase array, Room type other.block other.count :=
    fun other hm => good.room other (mem_of_mem_erase hm)
  rw [resize, Served]
  by_cases h0 : target = 0
  · simp [h0, right_none_iff ho hs.deallocate, Kept]
  rw [if_neg h0, or_iff_right h0]
  by_cases hi : target * type.size % 2 ^ 64 ≤ array.block.allocated
  · rw [if_pos hi, if_pos hi]
    have hk : ∀ reach, Kept (fun i => if target ≤ i ∧ (i < array.count ∨ i * type.size < reach)
        then none else some (elems i)) (.resize array target elems sys) :=
      fun reach i hi => if_neg (by omega)
    have hn : Separate state.pool (⟨array.block, target⟩ :: state.live.erase array) :=
      hs.perm (.refl _)
    refine (right_some_iff ho hn).trans ?_
    rw [and_iff_left (hk _)]
    split
    · rename_i hlt
      rw [forall_prop_of_true hlt]
      exact ⟨fun both => both.2, fun inside => ⟨by omega, inside⟩⟩
    rename_i hge
    have room := (good.room array mem).mono (Nat.le_of_not_lt hge)
    exact iff_of_true ⟨room, by omega⟩ (absurd · hge)
  rw [if_neg hi, if_neg hi, ← room_getTag_iff fresh, ← and_imp, ← getTag_fst_eq_none_iff]
  cases ht : getTag state.pool target sys with
  | mk found _ =>
    cases found with
    | none =>
      obtain rfl := getTag_snd_of_none ht
      simp only [right_none_iff ho hs.deallocate, Kept, reduceCtorEq, false_implies,
        implies_true, true_and, forall_const]
      constructor
      · intro h
        by_contra hc
        exact nomatch h 0 (by omega)
      omega
    | some block =>
      have hp : (tags (array :: ⟨block, target⟩ :: state.live.erase array)).Perm
          (tags (⟨block, target⟩ :: state.live)) :=
        (List.Perm.swap _ _ _).trans ((perm_tags_erase mem).cons _)
      have hd := ((good.separate.getTag fresh ht target).perm hp).deallocate
      have hk : Kept (fun i => if i < min array.count target then some (elems i) else none)
          (.resize array target elems sys) := fun i hi => if_pos hi
      refine (right_some_iff ho hd).trans ?_
      rw [and_iff_left hk, room_and_arrayZero_iff]
      simp

lemma right_iff {op : Op V} (good : Good type state) (valid : Valid type state op) :
    (step type state op).Right type op ↔ Served type state op := by
  cases op with
  | allocate n sys => exact right_allocate_iff good valid
  | resize array _ _ sys => exact right_resize_iff good valid.1 valid.2
  | deallocate array =>
    have ho : ∀ other ∈ state.live.erase array, Room type other.block other.count :=
      fun other hm => good.room other (mem_of_mem_erase hm)
    exact right_none_iff ho (good.separate.perm (perm_tags_erase valid)).deallocate

lemma along_iff_of_good {ops : List (Op V)} (good : Good type state)
    (valid : Along type (Valid type) state ops) :
    Correct type state ops ↔ Along type (Served type) state ops := by
  induction ops generalizing state with
  | nil => rfl
  | cons _ ops ih =>
    have hr := right_iff good valid.1
    constructor
    · intro h
      exact ⟨hr.mp h.1, (ih h.1.good valid.2).mp h.2⟩
    intro h
    have hn := hr.mpr h.1
    exact ⟨hn, (ih hn.good valid.2).mpr h.2⟩

/-- Exactly when every call of a run is right. -/
theorem pool_right_iff (type : ElemType) (ops : List (Op V))
    (valid : Along type (Valid type) new ops)
    : Correct type new ops ↔ Along type (Served type) new ops :=
  along_iff_of_good ⟨⟨nodup_nil, nofun, nofun⟩, nofun⟩ valid

def cacheLine : ElemType where
  size := 64
  size_pos := by decide
  size_lt := by decide

def fourLines : Block := ⟨4096, 256, 0⟩

def threeLines : List (Op Nat) := [.allocate 3 (some fourLines), .deallocate ⟨fourLines, 3⟩]

lemma valid_threeLines : Along cacheLine (Valid cacheLine) new threeLines := by
  refine ⟨?_, mem_cons_self, trivial⟩
  rintro _ ⟨⟩
  exact ⟨nofun, nofun, by decide, by decide⟩

theorem pool_right_iff_threeLines : Along cacheLine (Valid cacheLine) new threeLines ∧
    Correct cacheLine new threeLines :=
  ⟨valid_threeLines, (pool_right_iff _ _ valid_threeLines).mpr ⟨.inr (by decide), trivial, trivial⟩⟩

/-- A fourth element in a block for four: `resize` writes 64 elements behind it. -/
theorem not_right_fourthLine : ¬ Correct cacheLine new
    [.allocate 3 (some fourLines), .resize ⟨fourLines, 3⟩ 4 id none] :=
  fun h => absurd (h.2.1.inside ⟨fourLines, 4⟩ rfl) (by decide)

end OoOS.Util.PoolAllocator
