import Mathlib.Data.List.Basic
import OoOS.Libk.Arith

/-!
# Descriptor blocks of a journal

Where `create_txn` puts the tags of a transaction.  Positions count from the
start of the journal's buffer; what is in the blocks does not matter.
-/

namespace OoOS.Fs.Jbd2

open List Libk

structure Features where
  csumV2 : Bool
  csumV3 : Bool
  x64Support : Bool

structure Tag where
  block : Nat
  start : Nat
  stop : Nat
  lastBlock : Bool

structure Txn where
  cur : Nat
  pos : Nat
  dblkTar : Nat
  k : Nat
  first : Bool
  headers : List Nat := []
  tags : List Tag := []

variable (f : Features) (bs : Nat)

def descTagSize (sameUuid : Bool) : Nat :=
  (if f.csumV3 then 16 else if f.x64Support then 12 else 8) + if sameUuid then 0 else 16

def csumSize : Nat := if f.csumV2 || f.csumV3 then 4 else 0

def tagsPerBlock : Nat := 1 + (bs - 12 - descTagSize f false - csumSize f) / descTagSize f true

def tagBytes : Nat := if f.csumV3 then 16 else 12

def Txn.header (t : Txn) : Txn :=
  { t with pos := t.cur + 12, first := true, headers := t.headers ++ [t.cur] }

def Txn.put (blocks : Nat) (t : Txn) (i : Nat) : Txn :=
  let size := descTagSize f true
  let tag : Tag :=
    { block := t.cur, start := t.pos
      stop := if t.first then t.pos + size + 16 else t.pos + tagBytes f
      lastBlock := decide (t.k = 1 ∨ ¬ i + 1 < blocks) }
  { t with
    pos := t.pos + size + if t.first then 16 else 0
    dblkTar := t.dblkTar + bs, k := wsub t.k 1, first := false, tags := t.tags ++ [tag] }

/-- A round of the loop over `actual_blocks`; the cursor does not move behind
the end of the buffer. -/
def Txn.add (max blocks : Nat) (t : Txn) (i : Nat) : Txn :=
  let t := t.put f bs blocks i
  if t.k = 0 then
    Txn.header { t with
        cur := if t.dblkTar ≤ max then t.dblkTar else t.cur
        dblkTar := t.dblkTar + bs }
  else t

def Txn.rounds (max blocks : Nat) (t : Txn) : Nat → Txn
  | 0 => t
  | i + 1 => (t.rounds max blocks i).add f bs max blocks i

def Txn.start (cur : Nat) : Txn :=
  Txn.header { cur, pos := cur, dblkTar := cur + bs, k := tagsPerBlock f bs, first := true }

/-- `create_txn` at a cursor of a buffer that ends at `max`, for blocks in
chains of some lengths. -/
def createTxn (cur max : Nat) (chains : List Nat) : Txn :=
  let blocks := (chains.map (Nat.max 1)).sum
  if chains.isEmpty then { cur, pos := cur, dblkTar := cur, k := 0, first := true }
  else (Txn.start f bs cur).rounds f bs max blocks blocks

def Right (t : Txn) : Prop :=
  (∀ tag ∈ t.tags, tag.block + 12 ≤ tag.start ∧ tag.stop + csumSize f ≤ tag.block + bs) ∧
    ∀ block ∈ t.headers, (t.tags.filter (·.block = block)).length ≤ tagsPerBlock f bs ∧
      ∃ front tag, t.tags.filter (·.block = block) = front ++ [tag] ∧ tag.lastBlock = true ∧
        ∀ other ∈ front, other.lastBlock = false

/-- A descriptor block has room for the last of its tags as it is constructed. -/
def LastFits : Prop := f.csumV3 = true ∨ f.x64Support = true ∨ 4 ≤ (bs - 36 - csumSize f) % 8

/-- The number of blocks that fit, where the second descriptor block may lie
behind the end of the buffer. -/
def Fits (cur max blocks : Nat) : Prop :=
  blocks < tagsPerBlock f bs ∨ LastFits f bs ∧ if cur + (tagsPerBlock f bs + 1) * bs ≤ max then
      tagsPerBlock f bs < blocks ∧ blocks ≤ 2 * tagsPerBlock f bs
    else blocks = tagsPerBlock f bs

variable {f bs} {block dblk cur max blocks k : Nat} {headers : List Nat} {tags : List Tag}
  {last : Nat → Bool} {t : Txn}

def tagAt (f : Features) (block i : Nat) (last : Bool) : Tag :=
  let start := block + 12 + (if i = 0 then 0 else 16) + descTagSize f true * i
  { block, start, stop := start + if i = 0 then descTagSize f true + 16 else tagBytes f
    lastBlock := last }

def tagsAt (f : Features) (block : Nat) (last : Nat → Bool) (j : Nat) : List Tag :=
  (range j).map fun i => tagAt f block i (last i)

def atTag (f : Features) (bs block dblk k : Nat) (headers : List Nat) (tags : List Tag)
    (last : Nat → Bool) (j : Nat) : Txn :=
  { cur := block, pos := block + 12 + (if j = 0 then 0 else 16) + descTagSize f true * j
    dblkTar := dblk + bs * j, k := wsub k j, first := decide (j = 0), headers
    tags := tags ++ tagsAt f block last j }

open Txn

variable {j i : Nat}

lemma put_atTag (isLast : last j = decide (wsub k j = 1 ∨ ¬ i + 1 < blocks))
    (isNext : wsub (wsub k j) 1 = wsub k (j + 1)) :
    (atTag f bs block dblk k headers tags last j).put f bs blocks i =
      atTag f bs block dblk k headers tags last (j + 1) := by
  simp only [put, atTag, isNext, tagsAt, range_succ, map_append, map_cons, map_nil, tagAt]
  rcases j with - | j
  · simp [isLast]
    omega
  · simp [isLast, Nat.mul_succ, add_assoc]

lemma rounds_atTag
    (start : t.rounds f bs max blocks i = atTag f bs block dblk k headers tags last 0)
    (isNext : ∀ m < j, wsub k (m + 1) ≠ 0 ∧ wsub (wsub k m) 1 = wsub k (m + 1))
    (isLast : ∀ m < j, last m = decide (wsub k m = 1 ∨ ¬ i + m + 1 < blocks)) :
    t.rounds f bs max blocks (i + j) = atTag f bs block dblk k headers tags last j := by
  induction j with
  | zero => exact start
  | succ j ih =>
    have hj := Nat.lt_succ_self j
    rw [← add_assoc, rounds, ih (fun m hm => isNext m (by omega)) (fun m hm => isLast m (by omega)),
      add, put_atTag (isLast j hj) (isNext j hj).2]
    exact if_neg (isNext j hj).1

lemma tagsAt_marked (positive : 0 < j) (isLast : ∀ i < j, last i = decide (i + 1 = j)) :
    ∃ front tag, tagsAt f block last j = front ++ [tag] ∧ tag.lastBlock = true ∧
      ∀ other ∈ front, other.lastBlock = false := by
  obtain ⟨m, rfl⟩ := Nat.exists_eq_add_of_lt positive
  refine ⟨tagsAt f block last m, tagAt f block m (last m), ?_, ?_, ?_⟩
  · simp [tagsAt, range_succ]
  · simp [tagAt, isLast m (by omega)]
  intro other ho
  obtain ⟨i, hi, rfl⟩ := mem_map.mp ho
  have him := mem_range.mp hi
  simp [tagAt, isLast i (by omega), ne_of_lt him]

@[simp] lemma length_tagsAt {j : Nat} : (tagsAt f block last j).length = j := by simp [tagsAt]

@[simp] lemma filter_tagsAt {j : Nat} :
    (tagsAt f block last j).filter (·.block = block) = tagsAt f block last j :=
  filter_eq_self.mpr (by simp [tagsAt, tagAt])

lemma filter_tagsAt_ne {other : Nat} (ne : block ≠ other) :
    (tagsAt f block last j).filter (·.block = other) = [] :=
  filter_eq_nil_iff.mpr (by simp [tagsAt, tagAt, ne])

lemma tagAt_inside {b : Bool} (big : 1024 ≤ bs) (inside : i < tagsPerBlock f bs) :
    (tagAt f block i b).stop + csumSize f ≤ block + bs ↔
      i + 1 < tagsPerBlock f bs ∨ LastFits f bs := by
  obtain ⟨v2, v3, x64⟩ := f
  cases v2 <;> cases v3 <;> cases x64 <;>
    simp [tagAt, tagsPerBlock, LastFits, descTagSize, csumSize, tagBytes] at inside ⊢ <;>
    split <;> omega

lemma tagsPerBlock_bounds (big : 1024 ≤ bs) (small : bs < 2 ^ 64) :
    2 ≤ tagsPerBlock f bs ∧ tagsPerBlock f bs + 2 < 2 ^ 64 := by
  obtain ⟨v2, v3, x64⟩ := f
  cases v2 <;> cases v3 <;> cases x64 <;>
    simp [tagsPerBlock, descTagSize, csumSize] <;> omega

def firstLast (f : Features) (bs blocks i : Nat) : Bool :=
  decide (i + 1 = tagsPerBlock f bs ∨ ¬ i + 1 < blocks)

def secondLast (f : Features) (bs blocks i : Nat) : Bool :=
  decide (¬ tagsPerBlock f bs + i + 1 < blocks)

def secondBlock (f : Features) (bs cur max : Nat) : Nat :=
  if cur + (tagsPerBlock f bs + 1) * bs ≤ max then cur + (tagsPerBlock f bs + 1) * bs else cur

lemma rounds_sublist {t : Txn} {i j : Nat} (le : i ≤ j) :
    (t.rounds f bs max blocks i).headers <+ (t.rounds f bs max blocks j).headers ∧
      (t.rounds f bs max blocks i).tags <+ (t.rounds f bs max blocks j).tags := by
  induction le with
  | refl => exact ⟨.refl _, .refl _⟩
  | step _ ih =>
    refine ⟨ih.1.trans ?_, ih.2.trans ?_⟩ <;> simp only [rounds, add]
    · split
      · exact sublist_append_left ..
      · exact .refl _
    · split <;> exact sublist_append_left ..

lemma tagsAt_inside (big : 1024 ≤ bs)
    (fit : j < tagsPerBlock f bs ∨ j = tagsPerBlock f bs ∧ LastFits f bs) :
    ∀ tag ∈ tagsAt f block last j,
      tag.block + 12 ≤ tag.start ∧ tag.stop + csumSize f ≤ tag.block + bs := by
  intro tag ht
  obtain ⟨i, hi, rfl⟩ := mem_map.mp ht
  have hij := mem_range.mp hi
  refine ⟨?_, (tagAt_inside big (by omega)).mpr ?_⟩
  · simp only [tagAt]
    omega
  rcases fit with fit | ⟨-, hf⟩
  · exact .inl (by omega)
  · exact .inr hf

lemma secondBlock_eq_iff (big : 1024 ≤ bs) :
    secondBlock f bs cur max = cur ↔ ¬ cur + (tagsPerBlock f bs + 1) * bs ≤ max := by
  have hp : 0 < (tagsPerBlock f bs + 1) * bs := Nat.mul_pos (Nat.succ_pos _) (by omega)
  unfold secondBlock
  split <;> omega

section

variable (big : 1024 ≤ bs) (small : bs < 2 ^ 64)

include big small

lemma rounds_first (inside : j < tagsPerBlock f bs) :
    (start f bs cur).rounds f bs max blocks j =
      atTag f bs cur (cur + bs) (tagsPerBlock f bs) [cur] [] (firstLast f bs blocks) j := by
  have hb := @tagsPerBlock_bounds f bs big small
  rw [← zero_add j]
  have h0 : (start f bs cur).rounds f bs max blocks 0 =
      atTag f bs cur (cur + bs) (tagsPerBlock f bs) [cur] [] (firstLast f bs blocks) 0 := by
    simp [rounds, start, header, atTag, tagsAt, wsub]
    omega
  rw [rounds_atTag h0 ?_ ?_, zero_add]
  · intro m hm
    unfold wsub
    omega
  intro m hm
  refine decide_eq_decide.mpr (or_congr ?_ (by rw [zero_add]))
  unfold wsub
  omega

lemma rounds_second {j : Nat} (few : j ≤ tagsPerBlock f bs + 1) :
    (start f bs cur).rounds f bs max blocks (tagsPerBlock f bs + j) =
      atTag f bs (secondBlock f bs cur max) (cur + (tagsPerBlock f bs + 2) * bs) 0
        [cur, secondBlock f bs cur max]
        (tagsAt f cur (firstLast f bs blocks) (tagsPerBlock f bs)) (secondLast f bs blocks) j := by
  have hb := @tagsPerBlock_bounds f bs big small
  refine rounds_atTag ?_ ?_ ?_
  · obtain ⟨p, hp⟩ : ∃ p, tagsPerBlock f bs = p + 1 := ⟨tagsPerBlock f bs - 1, by omega⟩
    have hk : wsub (wsub (tagsPerBlock f bs) p) 1 = wsub (tagsPerBlock f bs) (p + 1) := by
      unfold wsub
      omega
    have hl : firstLast f bs blocks p =
        decide (wsub (tagsPerBlock f bs) p = 1 ∨ ¬ p + 1 < blocks) := by
      refine decide_eq_decide.mpr (or_congr ?_ Iff.rfl)
      unfold wsub
      omega
    have hz : wsub (tagsPerBlock f bs) (p + 1) = 0 := by
      unfold wsub
      omega
    have hd : cur + bs + bs * (p + 1) = cur + (tagsPerBlock f bs + 1) * bs := by
      rw [hp]
      ring
    have hd' : cur + (tagsPerBlock f bs + 1) * bs + bs = cur + (tagsPerBlock f bs + 2) * bs := by
      ring
    conv_lhs => rw [hp, rounds, rounds_first big small (by omega), add, put_atTag hl hk]
    refine (if_pos hz).trans ?_
    rw [← hp] at hd
    simp only [header, atTag, secondBlock, ← hp, hd, hd']
    simp [tagsAt, wsub]
  · intro m hm
    unfold wsub
    omega
  intro m hm
  refine decide_eq_decide.mpr ⟨Or.inr, fun h => h.resolve_left ?_⟩
  unfold wsub
  omega

lemma right_few (positive : 0 < blocks) (few : blocks < tagsPerBlock f bs) :
    Right f bs ((start f bs cur).rounds f bs max blocks blocks) := by
  rw [rounds_first big small few]
  refine ⟨tagsAt_inside big (.inl few), fun block hb => ?_⟩
  obtain rfl := mem_singleton.mp hb
  simp only [atTag, nil_append, filter_tagsAt, length_tagsAt]
  exact ⟨few.le, tagsAt_marked positive fun i hi => decide_eq_decide.mpr (by omega)⟩

lemma right_full (fits : LastFits f bs)
    (full : blocks = tagsPerBlock f bs) (same : secondBlock f bs cur max = cur) :
    Right f bs ((start f bs cur).rounds f bs max blocks blocks) := by
  have hb := @tagsPerBlock_bounds f bs big small
  have hr := @rounds_second f bs cur max blocks big small 0 (by omega)
  have ht : (atTag f bs cur (cur + (tagsPerBlock f bs + 2) * bs) 0 [cur, cur]
      (tagsAt f cur (firstLast f bs blocks) blocks) (secondLast f bs blocks) 0).tags =
      tagsAt f cur (firstLast f bs blocks) blocks := append_nil _
  rw [add_zero, ← full, same] at hr
  rw [← full] at ht
  rw [hr]
  refine ⟨?_, fun block hb => ?_⟩
  · rw [ht]
    exact tagsAt_inside big (.inr ⟨full, fits⟩)
  obtain rfl : block = cur := by simpa [atTag] using hb
  rw [ht, filter_tagsAt, length_tagsAt]
  exact ⟨full.le, tagsAt_marked (by omega) fun i hi => decide_eq_decide.mpr (by omega)⟩

/-- The tags go on in a second block. -/
lemma right_two (fits : LastFits f bs)
    (more : tagsPerBlock f bs < blocks) (few : blocks ≤ 2 * tagsPerBlock f bs)
    (moves : secondBlock f bs cur max ≠ cur) :
    Right f bs ((start f bs cur).rounds f bs max blocks blocks) := by
  have hb := @tagsPerBlock_bounds f bs big small
  obtain ⟨j, hj⟩ : ∃ j, blocks = tagsPerBlock f bs + (j + 1) :=
    ⟨blocks - tagsPerBlock f bs - 1, by omega⟩
  have hr := @rounds_second f bs cur max blocks big small (j + 1) (by omega)
  rw [← hj] at hr
  rw [hr]
  refine ⟨fun tag ht => ?_, fun block hb => ?_⟩
  · rcases mem_append.mp ht with ht | ht
    · exact tagsAt_inside big (.inr ⟨rfl, fits⟩) tag ht
    · exact tagsAt_inside big (by simp only [fits, and_true]; omega) tag ht
  have hb : block = cur ∨ block = secondBlock f bs cur max := by simpa [atTag] using hb
  simp only [atTag, filter_append]
  rcases hb with rfl | rfl
  · rw [filter_tagsAt, filter_tagsAt_ne moves, append_nil, length_tagsAt]
    exact ⟨le_rfl, tagsAt_marked (by omega) fun i hi => decide_eq_decide.mpr (by omega)⟩
  rw [filter_tagsAt, filter_tagsAt_ne moves.symm, nil_append, length_tagsAt]
  exact ⟨by omega, tagsAt_marked (by omega) fun i hi => decide_eq_decide.mpr (by omega)⟩

section

variable (right : Right f bs ((Txn.start f bs cur).rounds f bs max blocks blocks))

include right

lemma right_first (enough : tagsPerBlock f bs ≤ blocks) :
    LastFits f bs := by
  have hb := @tagsPerBlock_bounds f bs big small
  have hs := (@rounds_sublist f bs max blocks (start f bs cur) _ _ enough).2
  rw [← add_zero (tagsPerBlock f bs), rounds_second big small (by omega)] at hs
  have hm : tagAt f cur (tagsPerBlock f bs - 1) (firstLast f bs blocks (tagsPerBlock f bs - 1)) ∈
      tagsAt f cur (firstLast f bs blocks) (tagsPerBlock f bs) :=
    mem_map.mpr ⟨_, mem_range.mpr (by omega), rfl⟩
  have ht := (right.1 _ (hs.subset (mem_append_left _ hm))).2
  exact ((tagAt_inside big (by omega)).mp ht).resolve_left (by omega)

lemma right_second (few : j ≤ tagsPerBlock f bs + 1) (enough : tagsPerBlock f bs + j ≤ blocks) :
    (if secondBlock f bs cur max = cur then tagsPerBlock f bs else 0) + j ≤ tagsPerBlock f bs := by
  have hs := @rounds_sublist f bs max blocks (start f bs cur) _ _ enough
  rw [rounds_second big small few] at hs
  have hm := (right.2 (secondBlock f bs cur max) (hs.1.subset (by simp [atTag]))).1
  refine le_trans (le_trans (le_of_eq ?_) (hs.2.filter _).length_le) hm
  simp only [atTag, filter_append, filter_tagsAt, length_append]
  split
  next he => simp [he]
  next he => simp [filter_tagsAt_ne (Ne.symm he)]

lemma not_right_tpb (moves : secondBlock f bs cur max ≠ cur) :
    blocks ≠ tagsPerBlock f bs := by
  intro he
  have hr := @rounds_second f bs cur max blocks big small 0 (by omega)
  rw [add_zero, ← he] at hr
  rw [hr] at right
  obtain ⟨-, front, tag, ht, -⟩ := right.2 (secondBlock f bs cur max) (by simp [atTag])
  simp only [atTag, filter_append, filter_tagsAt_ne moves.symm] at ht
  simp [tagsAt] at ht

end

end

/-- Every descriptor block has its tags inside, and a marked last one, exactly
when the transaction has that number of blocks. -/
theorem createTxn_right_iff (f : Features) (bs cur max : Nat) (chains : List Nat)
    (big : 1024 ≤ bs) (small : bs < 2 ^ 64) :
    Right f bs (createTxn f bs cur max chains) ↔
      chains = [] ∨ Fits f bs cur max (chains.map (Nat.max 1)).sum := by
  rcases chains with - | ⟨c, cs⟩
  · simp [createTxn, Right]
  simp only [reduceCtorEq, false_or]
  have h0 : 0 < ((c :: cs).map (Nat.max 1)).sum := by
    simp only [map_cons, sum_cons]
    have hx : 1 ≤ Nat.max 1 c := le_max_left 1 c
    omega
  have hc : createTxn f bs cur max (c :: cs) = (start f bs cur).rounds f bs max
      ((c :: cs).map (Nat.max 1)).sum ((c :: cs).map (Nat.max 1)).sum := rfl
  rw [hc]
  generalize ((c :: cs).map (Nat.max 1)).sum = blocks at h0
  constructor
  · intro h
    refine or_iff_not_imp_left.mpr fun hle => ⟨right_first big small h (by omega), ?_⟩
    split
    next hm =>
      have hs : secondBlock f bs cur max ≠ cur := mt (secondBlock_eq_iff big).mp (by omega)
      have hne := not_right_tpb big small h hs
      refine ⟨by omega, Nat.le_of_not_lt fun hlt' => ?_⟩
      have hj := right_second big small h le_rfl (by omega)
      omega
    next hm =>
      have hs := (@secondBlock_eq_iff f bs cur max big).mpr hm
      refine le_antisymm (Nat.le_of_not_lt fun hlt' => ?_) (by omega)
      have hj := right_second big small h (Nat.le_add_left 1 _) (by omega)
      rw [if_pos hs] at hj
      omega
  rintro (h | ⟨hf, h⟩)
  · exact right_few big small h0 h
  split at h
  next hm => exact right_two big small hf h.1 h.2 (mt (secondBlock_eq_iff big).mp (by omega))
  next hm => exact right_full big small hf h ((secondBlock_eq_iff big).mpr hm)

/-- 90 blocks in two chains need a second descriptor block. -/
theorem createTxn_right_twoChains :
    Right ⟨true, true, true⟩ 1024 (createTxn ⟨true, true, true⟩ 1024 0 1048576 [50, 40]) :=
  (createTxn_right_iff ⟨true, true, true⟩ 1024 0 1048576 [50, 40] (by decide) (by decide)).mpr
    (.inr (.inr ⟨.inl rfl, by decide⟩))

/-- 62 tags fit in a block of 1024 bytes, but the second block of 125 gets 63. -/
theorem not_right_long :
    ¬ Right ⟨false, true, true⟩ 1024 (createTxn ⟨false, true, true⟩ 1024 0 0x40000 [125]) := by
  intro h
  have hl := (h.2 (63 * 1024) (by decide +kernel)).1
  exact absurd hl (by decide +kernel)

end OoOS.Fs.Jbd2
