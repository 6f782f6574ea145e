import OoOS.Mm.PageTable

/-!
# Mapping a range of pages

The loop of `__map_user_pages` writes one leaf entry a round.  Read as a map
from addresses to leaf entries, the whole loop changes the pages of the range.
-/

namespace OoOS.Mm.Paging

open Lib Libk

/-- The distance of an address from a start, in the 48 bits that the four
levels index. -/
def offsetFrom (start addr : Nat) : Nat := (addr + 2 ^ 64 - start) % 2 ^ 48

variable {root start addr : Nat}

section

variable (arguments : start % pageSize = 0)

include arguments

lemma sameSlot_iff (small : start < 2 ^ 64) :
    leafPath addr = leafPath start ∧ pageIdx addr = pageIdx start ↔
      offsetFrom start addr < pageSize := by
  simp only [leafPath, List.cons.injEq, and_true, pageIdx, pdIdx, pdpIdx,
    pml4Idx, offsetFrom, pageSize] at *
  omega

lemma leafPath_next (inTable : pageIdx (wadd start pageSize) ≠ 0) :
    leafPath (wadd start pageSize) = leafPath start := by
  simp only [leafPath, List.cons.injEq, and_true, pageIdx, pdIdx, pdpIdx,
    pml4Idx, pageSize, wadd] at *
  omega

lemma offsetFrom_next_of_le (behind : pageSize ≤ offsetFrom start addr) :
    offsetFrom (wadd start pageSize) addr + pageSize = offsetFrom start addr := by
  simp only [offsetFrom, pageSize, wadd] at *
  omega

lemma offsetFrom_next_of_lt (small : start < 2 ^ 64) (inside : offsetFrom start addr < pageSize) :
    2 ^ 48 ≤ offsetFrom (wadd start pageSize) addr + pageSize := by
  simp only [offsetFrom, pageSize, wadd] at *
  omega

lemma wadd_pageSize_mod : wadd start pageSize % pageSize = 0 := by
  simp only [pageSize, wadd] at *
  omega

end

def userEntry (write execute : Bool) (phys : Nat) : PtEntry :=
  { present := true, write := write, userAccess := true
    physicalAddress := frameNumber phys
    executeDisable := !execute }

/-- The leaf entry of an address after some pages from `curr` on have been
mapped to those from `phys` on. -/
def mappedEntry (write execute : Bool) (pages curr phys : Nat)
    (before : PtEntry) (addr : Nat) : PtEntry :=
  if offsetFrom curr addr < pages * pageSize then
    userEntry write execute
      (phys + offsetFrom curr addr / pageSize * pageSize)
  else before

lemma mappedEntry_succ {curr pages phys : Nat} (write execute : Bool)
    (aligned : curr % pageSize = 0)
    (bounded : curr < 2 ^ 64) (few : (pages + 1) * pageSize ≤ 2 ^ 48) (before : PtEntry) :
    mappedEntry write execute pages (wadd curr pageSize) (phys + pageSize)
        (if leafPath addr = leafPath curr ∧ pageIdx addr = pageIdx curr then
          userEntry write execute phys else before) addr =
      mappedEntry write execute (pages + 1) curr phys before addr := by
  simp only [mappedEntry, sameSlot_iff aligned bounded]
  rw [Nat.succ_mul] at few ⊢
  by_cases hin : offsetFrom curr addr < pageSize
  · have later := offsetFrom_next_of_lt aligned bounded hin
    rw [if_neg (by omega), if_pos hin, if_pos (by omega), Nat.div_eq_of_lt hin]
    simp
  have later := offsetFrom_next_of_le aligned (not_lt.mp hin)
  have pos : 0 < pageSize := by decide
  rw [if_neg hin, ← later]
  by_cases hm : offsetFrom (wadd curr pageSize) addr < pages * pageSize
  · rw [if_pos hm, if_pos (by omega), Nat.add_div_right _ pos, Nat.succ_mul]
    congr 1
    omega
  · rw [if_neg hm, if_neg (by omega)]

/-- The loop maps page after page. -/
lemma mapLoop_maps (write execute : Bool) :
    ∀ (remaining : Nat) (first : Bool) (paging : Paging) (pt curr phys : Nat),
      TreeShaped root paging → (first = true ∨ pageIdx curr ≠ 0 →
        walk paging.child root (leafPath curr) = some pt) →
      curr % pageSize = 0 → curr < 2 ^ 64 → phys + remaining * pageSize ≤ 2 ^ 48 →
      (mapLoop root write execute remaining first paging pt curr phys).1 = true → TreeShaped root
          (mapLoop root write execute remaining first paging pt curr phys).2 ∧ ∀ addr,
          (mapLoop root write execute remaining first paging pt curr phys).2.leafEntry root addr =
            mappedEntry write execute remaining curr phys (paging.leafEntry root addr) addr := by
  intro remaining
  induction remaining with
  | zero =>
    intro first paging pt curr phys hsh _ _ _ _ _
    refine ⟨hsh, ?_⟩
    simp [mapLoop, mappedEntry]
  | succ remaining ih =>
    intro first paging pt curr phys hsh atPt aligned bounded fits hs
    rw [Nat.succ_mul] at fits
    -- The table for this round: the one at hand, or the next one.
    have hf : ∃ (grown : Paging) (table : Nat), (if first = false ∧ pageIdx curr = 0 then
          paging.getTable curr false root else (pt, paging)) = (table, grown) ∧
        Extends root paging grown ∧
        (table ≠ 0 → walk grown.child root (leafPath curr) = some table) := by
      by_cases hr : first = false ∧ pageIdx curr = 0
      · rw [if_pos hr]
        obtain ⟨he, hre⟩ := getTable_reaches hsh curr false
        exact ⟨_, _, rfl, he, hre⟩
      rw [if_neg hr]
      refine ⟨paging, pt, rfl, Extends.refl hsh, fun _ => atPt ?_⟩
      cases first with
      | true => exact .inl rfl
      | false => exact .inr fun zero => hr ⟨rfl, zero⟩
    obtain ⟨grown, table, hfe, he, hre⟩ := hf
    simp only [mapLoop, hfe] at hs ⊢
    by_cases null : table = 0
    · rw [if_pos null] at hs
      exact absurd hs (by simp)
    rw [if_neg null] at hs ⊢
    obtain ⟨hw, walks, entries⟩ := setEntry_leaf he.shaped (hre null) (userEntry write execute phys)
    have small : wadd phys pageSize = phys + pageSize := by
      apply wadd_of_lt
      omega
    rw [small] at hs ⊢
    obtain ⟨shaped', mapped⟩ := ih false _ table (wadd curr pageSize) (phys + pageSize) hw (by
        intro hst
        have stays : pageIdx (wadd curr pageSize) ≠ 0 := by simpa using hst
        rw [walks _ (by simp [leafPath]), leafPath_next aligned stays]
        exact hre null)
      (wadd_pageSize_mod aligned) (wadd_lt _ _) (by omega) hs
    refine ⟨shaped', ?_⟩
    intro addr
    have haa := mapped addr
    rw [entries, he.leaf] at haa
    rw [← mappedEntry_succ write execute aligned bounded (by rw [Nat.succ_mul]; omega)]
    exact haa

/-- Page tables that are built by `__get_table` from zeroed ones, with leaf
entries written in between. -/
inductive Built (root : Nat) : Paging → Prop
  | zeroed (pool : List Nat) (nonzero : root ≠ 0) (fresh : root ∉ pool)
      (pages : FreshPages pool) :
      Built root { tables := fun _ _ => {}, pool := pool }
  | getTable {paging : Paging} (built : Built root paging) (ofPage : Nat)
      (writeThru : Bool) :
      Built root (paging.getTable ofPage writeThru root).2
  | setLeaf {paging : Paging} (built : Built root paging) (addr : Nat)
      (entry : PtEntry) (mapped : paging.findTable addr root ≠ 0) :
      Built root
        (paging.setEntry (paging.findTable addr root) (pageIdx addr) entry)

lemma treeShaped_zeroed {pool : List Nat} (nonzero : root ≠ 0)
    (fresh : root ∉ pool) (pages : FreshPages pool) :
    TreeShaped root { tables := fun _ _ => {}, pool := pool } := by
  have hor : ∀ (path : List Nat) (table : Nat),
      walk (Paging.child { tables := fun _ _ => {}, pool := pool }) root
        path = some table → path = [] ∧ table = root := by
    intro path table hr
    cases path with
    | nil => exact ⟨rfl, (Option.some.inj hr).symm⟩
    | cons _ _ =>
      rw [walk] at hr
      split at hr
      · exact absurd hr (by simp)
      · simp [child] at hr
  refine ⟨?_, ?_, ?_, pages⟩
  · intro first second node _ _ haf hase
    rw [(hor first node haf).1, (hor second node hase).1]
  · intro path node _ hr
    rw [(hor path node hr).2]
    exact nonzero
  intro path node _ hr
  rw [(hor path node hr).2]
  exact fresh

lemma Built.treeShaped {paging : Paging} (built : Built root paging) : TreeShaped root paging := by
  induction built with
  | zeroed _ hn fresh pages => exact treeShaped_zeroed hn fresh pages
  | getTable _ ofPage writeThru hs => exact (getTable_reaches hs ofPage writeThru).1.shaped
  | @setLeaf paging _ addr entry mapped hs =>
    rw [findTable_eq_walk] at mapped ⊢
    cases hr : walk paging.child root (leafPath addr) with
    | none =>
      rw [hr] at mapped
      exact absurd rfl mapped
    | some _ => exact (setEntry_leaf hs hr entry).1

lemma translateEntry_userEntry (write execute : Bool) {phys : Nat}
    (startAligned : start % pageSize = 0)
    (startBounded : start < 2 ^ 64) (physAligned : phys % pageSize = 0) (physPositive : 0 < phys)
    (fits : phys + offsetFrom start addr < 2 ^ 48) :
    translateEntry (userEntry write execute
          (phys + offsetFrom start addr / pageSize * pageSize)) addr =
      phys + offsetFrom start addr := by
  have ho : offsetFrom start addr % pageSize = addr % pageSize := by
    simp only [offsetFrom, pageSize] at *
    omega
  have hn : frameNumber (phys + offsetFrom start addr / pageSize * pageSize) ≠ 0 := by
    simp only [frameNumber, pageSize] at *
    omega
  have round : frameNumber (phys + offsetFrom start addr / pageSize * pageSize) * pageSize =
        phys + offsetFrom start addr / pageSize * pageSize := by
    apply frameNumber_mul
    · simp only [pageSize] at *
      omega
    simp only [pageSize] at *
    omega
  have split := Nat.div_add_mod' (offsetFrom start addr) pageSize
  simp only [translateEntry, userEntry]
  rw [if_pos ⟨trivial, hn⟩, round]
  omega

/-- The mapped pages are translated to the physical pages, and all others as
before. -/
theorem mapUserPages_translate {paging : Paging} (built : Built root paging)
    (start phys pages : Nat) (write execute : Bool) (startAligned : start % pageSize = 0)
    (startBounded : start < 2 ^ 64) (physAligned : phys % pageSize = 0) (physPositive : 0 < phys)
    (fits : phys + pages * pageSize ≤ 2 ^ 48)
    (succeeds : (paging.mapUserPages start phys pages root write execute).1 ≠ 0) (addr : Nat) :
    (paging.mapUserPages start phys pages root write execute).2.frameTranslate root addr =
      if offsetFrom start addr < pages * pageSize then phys + offsetFrom start addr
      else paging.frameTranslate root addr := by
  have shaped := built.treeShaped
  simp only [mapUserPages] at succeeds ⊢
  by_cases ha : start ≠ 0 ∧ phys ≠ 0 ∧ pages ≠ 0 ∧ root ≠ 0
  · rw [if_pos ha] at succeeds ⊢
    obtain ⟨he, hr⟩ := getTable_reaches shaped start false
    by_cases null : (paging.getTable start false root).1 = 0
    · rw [if_pos null] at succeeds
      exact absurd rfl succeeds
    rw [if_neg null] at succeeds ⊢
    have hl : (mapLoop root write execute pages true (paging.getTable start false root).2
        (paging.getTable start false root).1 start phys).1 = true := by
      by_contra failed
      rw [if_neg failed] at succeeds
      exact absurd rfl succeeds
    obtain ⟨shaped', entries⟩ := mapLoop_maps write execute pages true _ _
      start phys he.shaped (fun _ => hr null) startAligned startBounded fits hl
    rw [frameTranslate_eq shaped', entries, he.leaf, frameTranslate_eq shaped, mappedEntry]
    by_cases inside : offsetFrom start addr < pages * pageSize
    · rw [if_pos inside, if_pos inside]
      exact translateEntry_userEntry write execute startAligned
        startBounded physAligned physPositive (by omega)
    · rw [if_neg inside, if_neg inside]
  rw [if_neg ha] at succeeds
  exact absurd rfl succeeds

def emptyPaging : Paging :=
  { tables := fun _ _ => {}
    pool := [0x10000, 0x11000, 0x12000, 0x13000, 0x14000, 0x15000,
      0x16000] }

lemma built_emptyPaging : Built 0x9000 emptyPaging :=
  Built.zeroed _ (by decide) (by decide) ⟨by decide, by decide, by decide⟩

theorem mapUserPages_translate_boundary :
    (emptyPaging.mapUserPages 0x7FFFFFF000 0x200000 2 0x9000 true false).1 = 0x7FFFFFF000 ∧
      (emptyPaging.mapUserPages 0x7FFFFFF000 0x200000 2 0x9000 true
        false).2.frameTranslate 0x9000 0x8000000123 = 0x201123 := by
  have hs : (emptyPaging.mapUserPages 0x7FFFFFF000 0x200000 2 0x9000
      true false).1 = 0x7FFFFFF000 := by decide +kernel
  refine ⟨hs, ?_⟩
  rw [mapUserPages_translate built_emptyPaging 0x7FFFFFF000 0x200000 2 true
    false (by decide) (by decide) (by decide) (by decide) (by decide) (by rw [hs]; decide)]
  decide

/-- A page that is mapped to 2^48 is not translated, and an address that differs
from a mapped one above bit 47 is translated with it. -/
theorem mapUserPages_translate_truncated :
    Built 0x9000 emptyPaging ∧ 0x1000 % pageSize = 0 ∧ 0xFFFFFFFFF000 % pageSize = 0 ∧
      0xFFFFFFFFF000 < 2 ^ 48 ∧ (emptyPaging.mapUserPages 0x1000 0xFFFFFFFFF000 2 0x9000 true
        false).1 = 0x1000 ∧ (emptyPaging.mapUserPages 0x1000 0xFFFFFFFFF000 2 0x9000 true
        false).2.frameTranslate 0x9000 0x2000 = 0 ∧
      emptyPaging.frameTranslate 0x9000 0x1000000001000 = 0 ∧
      (emptyPaging.mapUserPages 0x1000 0xFFFFFFFFF000 2 0x9000 true
        false).2.frameTranslate 0x9000 0x1000000001000 = 0xFFFFFFFFF000 :=
  ⟨built_emptyPaging, by decide, by decide, by decide, by decide +kernel,
    by decide +kernel, by decide +kernel, by decide +kernel⟩

end OoOS.Mm.Paging
