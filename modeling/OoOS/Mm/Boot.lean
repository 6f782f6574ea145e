import Mathlib.Data.Finset.Prod
import OoOS.Mm.FirstFit
import OoOS.Mm.Stage1Run

/-!
# Start-up of stage 1 from the boot memory map

`init_instance` sizes the status table after the amount of available memory, and
marks the regions of every entry that is not available and everything below the
heap.
-/

namespace OoOS.Mm

open Lib Libk KernelMemoryMgr

inductive MemType where
  | AVAILABLE | RESERVED | ACPI_RECLAIMABLE | NVS | BADRAM | MMIO
  deriving DecidableEq, Repr

structure MmapEntry where
  addr : Nat
  len : Nat
  type : MemType
  addr_lt : addr < 2 ^ 64
  addr_aligned : addr % pageSize = 0
  len_lt : len < 2 ^ 32

def MmapEntry.Contains (entry : MmapEntry) (addr : Nat) : Prop :=
  entry.addr ≤ addr ∧ addr < entry.addr + entry.len * pageSize

instance MmapEntry.decidableContains (entry : MmapEntry) (addr : Nat) :
    Decidable (entry.Contains addr) :=
  inferInstanceAs (Decidable (_ ∧ _))

def availableBytes : List MmapEntry → Nat
  | [] => 0
  | entry :: rest =>
    (if entry.type = .AVAILABLE then entry.len * pageSize else 0) + availableBytes rest

/-- `mmap_t` as the boot loader fills it in.  Physical addresses have 52 bits,
so there is no more memory than that. -/
structure MemoryMap where
  totalMemory : Nat
  entries : List MmapEntry
  total_eq : totalMemory = availableBytes entries
  total_le : totalMemory ≤ 2 ^ 52

/-- Where the linked kernel ends (`__end`): a page-aligned address that the
page tables can map. -/
structure KernelImage where
  imageEnd : Nat
  end_aligned : imageEnd % pageSize = 0
  end_lt : imageEnd < 2 ^ 48

variable (map : MemoryMap) (image : KernelImage)

def MemoryMap.numStatusBytes : Nat := divRoundUp map.totalMemory gigabyte

/-- `heap` of `init_instance`: a page behind the kernel, its `kframe_tag` and the
status table. -/
def heapBegin : Nat :=
  let sbAddr := wadd image.imageEnd 256
  let heapAddr := wadd sbAddr (map.numStatusBytes * 512)
  if heapAddr = pageAligned heapAddr then wadd heapAddr pageSize
  else nextPageAligned heapAddr

/-- `taken_pages` of `init_instance`, the number of regions marked for an
entry. -/
def MmapEntry.takenPages (entry : MmapEntry) : Nat := divRoundUp entry.len pageTableLength

def markEntries : KernelMemoryMgr → List MmapEntry → KernelMemoryMgr
  | mgr, [] => mgr
  | mgr, entry :: rest =>
    if entry.type ≠ .AVAILABLE then
      markEntries (mgr.markUsed entry.addr entry.takenPages) rest
    else markEntries mgr rest

def initInstance : KernelMemoryMgr :=
  let mgr : KernelMemoryMgr :=
    { statusBytes := fun _ _ => ⟨0⟩
      numStatusBytes := map.numStatusBytes
      kernelHeapBegin := heapBegin map image
      watermark := heapBegin map image }
  (markEntries mgr map.entries).markUsed 0
    (divRoundUp (heapBegin map image) regionSize)

def touchedRegions : (count addr : Nat) → List Nat
  | 0, _ => []
  | count + 1, addr => gbOf addr :: touchedRegions count (wadd addr regionSize)

def touchedEntries : List MmapEntry → List Nat
  | [] => []
  | entry :: rest =>
    if entry.type ≠ .AVAILABLE then
      touchedRegions entry.takenPages entry.addr ++ touchedEntries rest
    else touchedEntries rest

def initTouched : List Nat :=
  touchedEntries map.entries ++ touchedRegions (divRoundUp (heapBegin map image) regionSize) 0

lemma MemoryMap.numStatusBytes_le : map.numStatusBytes ≤ 2 ^ 22 := by
  have hb := divRoundUp_bounds map.totalMemory (show 0 < gigabyte by decide)
  have total := map.total_le
  simp only [MemoryMap.numStatusBytes]
  simp only [gigabyte] at hb ⊢
  omega

lemma heapBegin_bounds : 0 < heapBegin map image ∧ heapBegin map image < 2 ^ 49 := by
  have few := map.numStatusBytes_le
  have heb := image.end_lt
  have hnw : wadd (wadd image.imageEnd 256) (map.numStatusBytes * 512) =
      image.imageEnd + 256 + map.numStatusBytes * 512 := by
    simp only [wadd]
    omega
  have hb : image.imageEnd + 256 + map.numStatusBytes * 512 < 2 ^ 48 + 2 ^ 32 := by omega
  simp only [heapBegin, hnw]
  generalize image.imageEnd + 256 + map.numStatusBytes * 512 = addr
    at hb ⊢
  by_cases ha : addr = pageAligned addr
  · rw [if_pos ha]
    simp only [wadd, pageSize]
    omega
  rw [if_neg ha]
  have ho : addr % pageSize ≠ 0 := by
    intro zero
    exact ha (by simp [pageAligned, zero])
  rw [nextPageAligned, if_pos ho]
  simp only [wadd, pageAligned, pageSize] at ho ⊢
  omega

def heapRegions : Nat := divRoundUp (heapBegin map image) regionSize

lemma heapRegions_bounds :
    0 < heapRegions map image ∧ heapBegin map image ≤ heapRegions map image * regionSize ∧
      heapRegions map image * regionSize < heapBegin map image + regionSize := by
  have pos := (heapBegin_bounds map image).1
  have hr := divRoundUp_bounds (heapBegin map image) (show 0 < regionSize by decide)
  exact ⟨divRoundUp_pos pos (by decide), hr⟩

def entryBits (entries : List MmapEntry) : Set StatusBit :=
  {bit | ∃ entry ∈ entries, entry.type ≠ .AVAILABLE ∧
    bit ∈ runBits entry.addr entry.takenPages}

lemma usedBits_markEntries (entries : List MmapEntry) :
    ∀ mgr : KernelMemoryMgr, (markEntries mgr entries).usedBits =
        mgr.usedBits ∪ entryBits entries := by
  induction entries with
  | nil =>
    simp [markEntries, entryBits]
  | cons entry _ ih =>
    intro mgr
    by_cases ha : entry.type = .AVAILABLE
    · rw [markEntries, if_neg (not_not.mpr ha), ih]
      congr 1
      ext bit
      simp [entryBits, ha]
    rw [markEntries, if_pos ha, ih, markUsed, usedBits_updateRegions_setUsed, Set.union_assoc]
    congr 1
    ext bit
    simp [entryBits, ha]

lemma markEntries_frame (entries : List MmapEntry) :
    ∀ mgr : KernelMemoryMgr, SameTable mgr (markEntries mgr entries) ∧
        (markEntries mgr entries).watermark = mgr.watermark := by
  induction entries with
  | nil =>
    intro mgr
    exact ⟨⟨rfl, rfl⟩, rfl⟩
  | cons entry _ ih =>
    intro mgr
    by_cases ha : entry.type = .AVAILABLE
    · rw [markEntries, if_neg (not_not.mpr ha)]
      exact ih mgr
    rw [markEntries, if_pos ha]
    obtain ⟨table, watermark⟩ := updateRegions_frame (·.setUsed .ALL)
        entry.takenPages mgr entry.addr
    obtain ⟨hrt, restWatermark⟩ := ih (mgr.markUsed entry.addr entry.takenPages)
    exact ⟨⟨hrt.1.trans table.1, hrt.2.trans table.2⟩, restWatermark.trans watermark⟩

lemma usedBits_initInstance : (initInstance map image).usedBits =
    entryBits map.entries ∪ runBits 0 (heapRegions map image) := by
  rw [initInstance, markUsed, usedBits_updateRegions_setUsed, usedBits_markEntries, heapRegions]
  congr 1
  ext bit
  simp [usedBits, StatusByte.used]

lemma initInstance_fields : (initInstance map image).numStatusBytes = map.numStatusBytes ∧
    (initInstance map image).kernelHeapBegin = heapBegin map image ∧
    (initInstance map image).watermark = heapBegin map image := by
  obtain ⟨het, hem⟩ := markEntries_frame map.entries
    { statusBytes := fun _ _ => ⟨0⟩
      numStatusBytes := map.numStatusBytes
      kernelHeapBegin := heapBegin map image
      watermark := heapBegin map image }
  obtain ⟨table, mark⟩ := updateRegions_frame
    (·.setUsed .ALL) (divRoundUp (heapBegin map image) regionSize) (markEntries
      { statusBytes := fun _ _ => ⟨0⟩
        numStatusBytes := map.numStatusBytes
        kernelHeapBegin := heapBegin map image
        watermark := heapBegin map image } map.entries) 0
  exact ⟨table.1.trans het.1, table.2.trans het.2, mark.trans hem⟩

variable {addr : Nat}

lemma status_eq_all {mgr : KernelMemoryMgr}
    (inUse : regionBits addr ⊆ mgr.usedBits) : mgr.status addr = ⟨BlockIdx.ALL.mask⟩ := by
  have bits : ∀ slot < 8,
      (mgr.status addr).theByte.getLsbD slot = BlockIdx.ALL.mask.getLsbD slot := by
    intro slot small
    have mem : (⟨gbOf addr, sbOf addr, slot⟩ : StatusBit) ∈ regionBits addr := ⟨small, rfl, rfl⟩
    rw [BlockIdx.mask_all_getLsbD small]
    exact (inUse mem).2
  have same : (mgr.status addr).theByte = BlockIdx.ALL.mask := by
    apply BitVec.eq_of_getLsbD_eq
    intro slot small
    exact bits slot small
  cases hs : mgr.status addr with
  | mk _ =>
    rw [hs] at same
    rw [← same]

/-- What `init_instance` leaves is a start-up state of stage 1. -/
def initStartUp : StartUp where
  mgr := initInstance map image
  watermark_lt := by
    have bounds := heapBegin_bounds map image
    rw [(initInstance_fields map image).2.2]
    omega
  firstRegion_used := by
    apply status_eq_all
    rw [usedBits_initInstance]
    intro bit member
    refine Or.inr ⟨0, (heapRegions_bounds map image).1, ?_⟩
    simpa using member

def MemoryMap.trackedEnd : Nat := map.numStatusBytes * gigabyte

/-- A tracked address, or the one 64 bytes below 0 that a failed
`allocate_kernel_block` computes. -/
def CallerMark (state : Stage1) : Stage1Op → Prop
  | .setWatermark addr => addr < state.mgr.numStatusBytes * gigabyte ∨ addr = wsub 0 64
  | _ => True

/-- Start-up stays in the table, and no claim returns memory that is not available
or in no entry. -/
def ReservedNeverHandedOut : Prop :=
  (∀ index ∈ initTouched map image, index < map.numStatusBytes) ∧
    ∀ (ops : List Stage1Op) (final : Stage1),
      Guarded Stage1.step CallerMark (initStartUp map image).stage1 ops →
      run Stage1.step (initStartUp map image).stage1 ops = some final →
      ∀ claim ∈ final.live, (∀ addr, claim.Contains addr → ∀ entry ∈ map.entries,
          entry.type ≠ .AVAILABLE → ¬ entry.Contains addr) ∧
        ∃ addr, claim.Contains addr ∧ ∃ entry ∈ map.entries, entry.Contains addr

/-- The marked regions and the heap's start are tracked; addresses count modulo `2
^ 62`. -/
def EntriesTracked : Prop :=
  heapBegin map image ≤ map.trackedEnd ∧
    ∀ entry ∈ map.entries, entry.type ≠ .AVAILABLE → entry.len ≠ 0 →
      entry.addr % 2 ^ 62 + (entry.len - 1) / pageTableLength * regionSize < map.trackedEnd

/-- The region of the address is below the heap, or it is one of those counted
from the start of an entry that is not available. -/
def Marked (addr : Nat) : Prop :=
  addr < heapRegions map image * regionSize ∨ ∃ entry ∈ map.entries, entry.type ≠ .AVAILABLE ∧
      ∃ offset < entry.takenPages, addr / regionSize =
          (entry.addr + offset * regionSize) / regionSize % 2 ^ 41

/-- No entry that is not available spills into a tracked region that is not
marked. -/
def EntriesMarked : Prop :=
  ∀ entry ∈ map.entries, entry.type ≠ .AVAILABLE →
    ∀ addr < map.trackedEnd, entry.Contains addr → Marked map image addr

/-- Every block of a tracked region that is not marked has a byte in the
map. -/
def BlocksBacked : Prop :=
  ∀ base < map.trackedEnd, base % regionSize = 0 →
    ¬ Marked map image base → ∀ idx : BlockIdx, idx ≠ .ALL → ∃ addr, (base + idx.offset ≤ addr ∧
          addr < base + idx.offset + idx.size.bytes) ∧
        ∃ entry ∈ map.entries, entry.Contains addr

lemma mem_touchedRegions (index count : Nat) : ∀ addr, index ∈ touchedRegions count addr ↔
    ∃ offset < count, index = gbOf (addr + offset * regionSize) := by
  induction count with
  | zero =>
    simp [touchedRegions]
  | succ count ih =>
    intro addr
    have hs : ∀ offset, gbOf (wadd addr regionSize + offset * regionSize) =
          gbOf (addr + (offset + 1) * regionSize) := by
      simp only [gbOf, wadd, gigabyte, regionSize]
      omega
    simp only [touchedRegions, List.mem_cons, ih, hs]
    constructor
    · rintro (head | ⟨offset, bound, same⟩)
      · exact ⟨0, by omega, by simpa using head⟩
      · exact ⟨offset + 1, by omega, same⟩
    rintro ⟨offset, bound, same⟩
    cases offset with
    | zero => exact .inl (by simpa using same)
    | succ offset => exact .inr ⟨offset, by omega, same⟩

lemma mem_touchedEntries (index : Nat) (entries : List MmapEntry) :
    index ∈ touchedEntries entries ↔ ∃ entry ∈ entries, entry.type ≠ .AVAILABLE ∧
        index ∈ touchedRegions entry.takenPages entry.addr := by
  induction entries with
  | nil => simp [touchedEntries]
  | cons entry _ ih =>
    by_cases ha : entry.type = .AVAILABLE
    · simp [touchedEntries, ha, ih]
    · simp [touchedEntries, ha, ih]

lemma gbOf_add_of_lt {delta : Nat} (room : addr % 2 ^ 62 + delta < 2 ^ 62) :
    gbOf (addr + delta) = (addr % 2 ^ 62 + delta) / gigabyte := by
  have hr : (addr + delta) % 2 ^ 62 = addr % 2 ^ 62 + delta := by omega
  have hq : (addr + delta) % 2 ^ 62 / gigabyte = gbOf (addr + delta) :=
    Nat.mod_mul_right_div_self (addr + delta) gigabyte (2 ^ 32)
  rw [← hq, hr]

private lemma tracked_room {num base delta : Nat} (few : num ≤ 2 ^ 22)
    (below : base + delta < num * gigabyte) : base + (delta + regionSize) < 2 ^ 62 := by
  simp only [gigabyte, regionSize] at below ⊢
  omega

lemma regions_tracked_iff {num count : Nat} (few : num ≤ 2 ^ 22) (someRegion : 0 < count) :
    (∀ offset < count, gbOf (addr + offset * regionSize) < num) ↔
      addr % 2 ^ 62 + (count - 1) * regionSize < num * gigabyte := by
  constructor
  · intro ht
    have upTo : ∀ offset < count, addr % 2 ^ 62 + offset * regionSize < num * gigabyte := by
      intro offset
      induction offset with
      | zero =>
        intro bound
        have first := ht 0 bound
        rw [gbOf_add_of_lt (by omega)] at first
        simp only [gigabyte] at first ⊢
        omega
      | succ offset ih =>
        intro bound
        have hp := ih (by omega)
        have here := ht (offset + 1) bound
        rw [Nat.succ_mul] at here ⊢
        have room := tracked_room few hp
        rw [gbOf_add_of_lt room] at here
        simp only [gigabyte, regionSize] at here ⊢
        omega
    exact upTo (count - 1) (by omega)
  intro last offset bound
  have below : offset * regionSize ≤ (count - 1) * regionSize :=
    Nat.mul_le_mul_right regionSize (by omega)
  have room : addr % 2 ^ 62 + offset * regionSize < 2 ^ 62 := by
    simp only [gigabyte] at last
    omega
  rw [gbOf_add_of_lt room]
  simp only [gigabyte] at last ⊢
  omega

lemma takenPages_pos_iff (entry : MmapEntry) : 0 < entry.takenPages ↔ entry.len ≠ 0 := by
  constructor
  · intro pos zero
    simp [MmapEntry.takenPages, zero, divRoundUp] at pos
  intro _
  exact divRoundUp_pos (by omega) (by decide)

lemma takenPages_pred (entry : MmapEntry) :
    entry.takenPages - 1 = (entry.len - 1) / pageTableLength := by
  have hb := divRoundUp_bounds entry.len (show 0 < pageTableLength by decide)
  simp only [MmapEntry.takenPages]
  simp only [pageTableLength] at hb ⊢
  omega

/-- Whether the start stays within the status bytes. -/
lemma initTouched_lt_iff :
    (∀ index ∈ initTouched map image, index < map.numStatusBytes) ↔ EntriesTracked map image := by
  have few := map.numStatusBytes_le
  obtain ⟨hsr, hhl, heapUpper⟩ := heapRegions_bounds map image
  have hhi : (∀ offset < heapRegions map image,
        gbOf (0 + offset * regionSize) < map.numStatusBytes) ↔
        heapBegin map image ≤ map.trackedEnd := by
    rw [regions_tracked_iff few hsr]
    simp only [MemoryMap.trackedEnd, gigabyte]
    simp only [regionSize] at hhl heapUpper ⊢
    omega
  have hei : ∀ entry : MmapEntry, entry.len ≠ 0 → ((∀ offset < entry.takenPages,
        gbOf (entry.addr + offset * regionSize) < map.numStatusBytes) ↔ entry.addr % 2 ^ 62 +
            (entry.len - 1) / pageTableLength * regionSize < map.trackedEnd) := by
    intro entry hn
    rw [regions_tracked_iff few ((takenPages_pos_iff entry).mpr hn),
      takenPages_pred, MemoryMap.trackedEnd]
  constructor
  · intro ht
    constructor
    · apply hhi.mp
      intro offset bound
      apply ht
      rw [initTouched, List.mem_append]
      exact .inr ((mem_touchedRegions _ _ _).mpr ⟨offset, bound, rfl⟩)
    intro entry mem hu hn
    apply (hei entry hn).mp
    intro offset bound
    apply ht
    rw [initTouched, List.mem_append, mem_touchedEntries]
    exact .inl ⟨entry, mem, hu, (mem_touchedRegions _ _ _).mpr ⟨offset, bound, rfl⟩⟩
  rintro ⟨hht, het⟩ index ht
  rw [initTouched, List.mem_append, mem_touchedEntries] at ht
  rcases ht with ⟨entry, mem, hu, hie⟩ | hih
  · obtain ⟨offset, bound, same⟩ := (mem_touchedRegions _ _ _).mp hie
    have hn : entry.len ≠ 0 := (takenPages_pos_iff entry).mp (by omega)
    rw [same]
    exact (hei entry hn).mpr (het entry mem hu hn) offset bound
  obtain ⟨offset, bound, same⟩ := (mem_touchedRegions _ _ _).mp hih
  rw [same]
  exact hhi.mpr hht offset bound

lemma statusIndex_eq_iff {other : Nat} (small : addr < 2 ^ 62) :
    (gbOf addr = gbOf other ∧ sbOf addr = sbOf other) ↔
      addr / regionSize = other / regionSize % 2 ^ 41 := by
  simp only [gbOf, sbOf, gigabyte, regionSize]
  omega

lemma bitOf_mem_usedBits_iff (small : addr < 2 ^ 62) :
    bitOf addr ∈ (initInstance map image).usedBits ↔ Marked map image addr := by
  have hhs : heapRegions map image * regionSize < 2 ^ 62 := by
    have hb := heapBegin_bounds map image
    have hr := (heapRegions_bounds map image).2.2
    simp only [regionSize] at hr ⊢
    omega
  have inRun : ∀ start count, bitOf addr ∈ runBits start count ↔ ∃ offset < count,
          addr / regionSize = (start + offset * regionSize) / regionSize % 2 ^ 41 := by
    simp [runBits, regionBits, bitOf, Set.mem_ofPred_eq, slotOf_lt, true_and,
      statusIndex_eq_iff small]
  rw [usedBits_initInstance, Marked, Set.mem_union, or_comm]
  apply or_congr
  · rw [inRun]
    simp only [regionSize] at hhs ⊢
    constructor
    · rintro ⟨offset, _, _⟩
      omega
    intro _
    exact ⟨addr / 2097152, by omega, by omega⟩
  · simp [entryBits, Set.mem_ofPred_eq, inRun]

lemma Marked_of_sameRegion {other : Nat} (same : addr / regionSize = other / regionSize) :
    Marked map image addr ↔ Marked map image other := by
  simp only [Marked, same]
  apply or_congr_left
  simp only [regionSize] at same ⊢
  omega

end OoOS.Mm
