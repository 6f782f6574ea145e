import OoOS.Libk.Arith

/-!
# The DMA structures of the AHCI module

`amd64_ahci::initialize` takes one block for all ports, and
`ahci_port::init_port` places the structures of its port in it.
-/

namespace OoOS.Modules.Ahci

def cmdHeaderSize : Nat := 32

def fisSize : Nat := 256

def cmdTableSize : Nat := 128

def prdtEntrySize : Nat := 16

def clOffsBase : Nat := 32 * cmdHeaderSize

def fisOffsBase : Nat := 32 * clOffsBase

def tableOffsBase : Nat := fisOffsBase + 32 * fisSize

structure Config where
  ahciRegionSize : Nat
  prdtEntriesCount : Nat

/-- `prdt_cap`, in `size_t`: a small region wraps round. -/
def prdtCap (regionSize : Nat) : Nat :=
  (regionSize + 2 ^ 64 - 32 * (fisSize + cmdHeaderSize)) % 2 ^ 64 / (32 * prdtEntrySize)

namespace Config

variable (config : Config)

def dmaSize : Nat := max (min config.ahciRegionSize 2097152) 65536

def prdtCount : Nat := max (min (prdtCap config.ahciRegionSize) config.prdtEntriesCount) 4

def prdtSize : Nat := config.prdtCount * prdtEntrySize

def commandTableSize : Nat := cmdTableSize + config.prdtSize

end Config

inductive Area
  | header (slot : Fin 32)
  | receivedFis
  | table (slot : Fin 32)
  deriving DecidableEq

def Area.start (config : Config) (port : Fin 32) : Area → Nat
  | header slot => port * clOffsBase + slot * cmdHeaderSize
  | receivedFis => fisOffsBase + port * fisSize
  | table slot => tableOffsBase + port * config.prdtSize + slot * config.commandTableSize

def Area.size (config : Config) : Area → Nat
  | header _ => cmdHeaderSize
  | receivedFis => fisSize
  | table _ => config.commandTableSize

def Area.stop (config : Config) (port : Fin 32) (area : Area) : Nat :=
  area.start config port + area.size config

structure Ports where
  implemented : Fin 32 → Bool
  attached : Fin 32 → Bool
  starts : Fin 32 → Bool

def Ports.initialised (ports : Ports) (port : Fin 32) : Prop :=
  ports.implemented port ∧ ports.attached port ∧ ports.starts port

/-- The structures of the initialised ports lie in the block, each for itself. -/
def Separate (config : Config) (ports : Ports) : Prop :=
  ∀ port, ports.initialised port → ∀ area : Area, area.stop config port ≤ config.dmaSize ∧
    ∀ other, ports.initialised other → ∀ more : Area, (port, area) ≠ (other, more) →
      area.stop config port ≤ more.start config other ∨
        more.stop config other ≤ area.start config port

variable (config : Config)

lemma Config.commandTableSize_pos : 0 < config.commandTableSize := by
  unfold commandTableSize cmdTableSize
  omega

/-- The ports are `prdtSize` apart and not the size of 32 tables. -/
lemma Area.table_overlaps {port other : Fin 32} (before : port < other) :
    ∃ slot : Fin 32, (table slot).start config port ≤ (table 0).start config other ∧
      (table 0).start config other < (table slot).stop config port := by
  let distance := (other.val - port.val) * config.prdtSize
  have near : distance < 32 * config.commandTableSize := by
    have ha : other.val - port.val ≤ 31 := by omega
    calc distance ≤ 31 * config.prdtSize := Nat.mul_le_mul_right _ ha
      _ < 32 * config.commandTableSize := by
        unfold Config.commandTableSize cmdTableSize
        omega
  have split : other * config.prdtSize = port * config.prdtSize + distance := by
    rw [← Nat.add_mul]
    congr 1
    omega
  refine ⟨⟨distance / config.commandTableSize, Nat.div_lt_of_lt_mul (by rwa [Nat.mul_comm])⟩, ?_⟩
  have below := Nat.div_mul_le_self distance config.commandTableSize
  have above := Nat.lt_div_mul_add (a := distance) config.commandTableSize_pos
  simp only [start, stop, size, Fin.val_zero, split]
  omega

lemma Area.start_add_size_le {port : Fin 32} (slot other : Fin 32) (before : slot < other) :
    (table slot).stop config port ≤ (table other).start config port := by
  have step : (slot.val + 1) * config.commandTableSize ≤ other * config.commandTableSize :=
    Nat.mul_le_mul_right _ before
  rw [Nat.add_mul] at step
  simp only [start, stop, size]
  omega

lemma Area.separate_self (port : Fin 32) {area more : Area} (ne : area ≠ more) :
    area.stop config port ≤ more.start config port ∨
      more.stop config port ≤ area.start config port := by
  cases area <;> cases more
  case table.table slot other =>
    rcases Nat.lt_trichotomy slot other with hb | same | hbe
    · exact .inl (start_add_size_le config slot other hb)
    · exact absurd (congrArg table (Fin.ext same)) ne
    · exact .inr (start_add_size_le config other slot hbe)
  all_goals simp only [ne_eq, header.injEq, Fin.ext_iff, not_true_eq_false] at ne
  all_goals
    simp only [start, stop, size, clOffsBase, fisOffsBase, tableOffsBase, cmdHeaderSize, fisSize]
    omega

lemma Area.stop_le_last_table (port : Fin 32) (area : Area) :
    area.stop config port ≤ max 65536 ((table 31).stop config port) := by
  cases area with
  | table slot =>
    have last : slot * config.commandTableSize ≤ 31 * config.commandTableSize :=
      Nat.mul_le_mul_right _ (by omega)
    simp only [start, stop, size]
    omega
  | _ =>
    simp only [start, stop, size, clOffsBase, fisOffsBase, cmdHeaderSize, fisSize]
    omega

/-- The structures are apart exactly when one port at most is initialised and
its 32 tables end inside the block. -/
theorem areas_separate_iff (ports : Ports) : Separate config ports ↔
    (∀ port other, ports.initialised port → ports.initialised other → port = other) ∧
    ∀ port, ports.initialised port →
      tableOffsBase + port * config.prdtSize + 32 * config.commandTableSize ≤ config.dmaSize := by
  have last (port : Fin 32) : (Area.table 31).stop config port =
      tableOffsBase + port * config.prdtSize + 32 * config.commandTableSize := by
    simp only [Area.start, Area.stop, Area.size]
    omega
  constructor
  · intro hs
    refine ⟨fun port other here ht => ?_, fun port here => ?_⟩
    · by_contra ne
      wlog before : port < other generalizing port other
      · exact this other port ht here (Ne.symm ne) (by omega)
      obtain ⟨slot, _, high⟩ := Area.table_overlaps config before
      have apart := (hs port here (.table slot)).2 other ht (.table 0) (by simp [ne])
      have := config.commandTableSize_pos
      simp only [Area.stop, Area.size] at apart high
      omega
    rw [← last]
    exact (hs port here (.table 31)).1
  rintro ⟨hsi, hin⟩ port here ha
  refine ⟨?_, fun other ht _ ne => ?_⟩
  · have bound := Area.stop_le_last_table config port ha
    have := hin port here
    rw [last] at bound
    have : 65536 ≤ config.dmaSize := Nat.le_max_right ..
    omega
  cases hsi port other here ht
  exact Area.separate_self config port (by simpa using ne)

/-- With the default configuration and disks at ports 0 and 1 tables overlap. -/
theorem not_separate_default : ¬ Separate ⟨524288, 8⟩ ⟨(· < 2), fun _ => true, fun _ => true⟩ := by
  intro hs
  have apart := (hs 0 (by simp [Ports.initialised]) (.table 0)).2 1
    (by simp [Ports.initialised]) (.table 0) (by simp)
  revert apart
  decide

open Libk

def bytesPerPrdtEntry (bytes : Nat) : Nat := max (min bytes (2 ^ 22 - 1)) 4096

def sectorsPerPrdtEntry (bytes : Nat) : Nat := bytesPerPrdtEntry bytes / 512

def Config.maxOperationBlocks (config : Config) (bytes : Nat) : Nat :=
  config.prdtCount * sectorsPerPrdtEntry bytes

/-- `prdt_length` as `read` and `write` store it, in 16 bits. -/
def Config.prdtLength (config : Config) (bytes sectorCount : Nat) : Nat :=
  min (divRoundUp sectorCount (sectorsPerPrdtEntry bytes)) config.prdtCount % 2 ^ 16

structure PrdtEntry where
  dataBase : Nat
  byteCount : Nat
  interruptOnCompletion : Bool

/-- An entry; `byte_count` has 22 bits. -/
def prdtEntry (bpeMax sectorCount buffer length : Nat) (enableIoc : Bool) (i : Nat) : PrdtEntry :=
  let finalCount := sectorCount % (bpeMax / 512) * 512
  ⟨(buffer + i * bpeMax) % 2 ^ 64,
    ((if i = length - 1 then finalCount else bpeMax) + 2 ^ 64 - 1) % 2 ^ 22, enableIoc⟩

/-- The scatter list that `__build_h2d_io_fis` makes. -/
def buildH2dIoFis (bytes sectorCount buffer length : Nat) (enableIoc : Bool) : List PrdtEntry :=
  (List.range length).map (prdtEntry (bytesPerPrdtEntry bytes) sectorCount buffer length enableIoc)

/-- The entries describe consecutive ranges of `size` bytes together. -/
def Covers : List PrdtEntry → (addr size : Nat) → Prop
  | [], _, size => size = 0
  | e :: rest, addr, size => e.dataBase = addr % 2 ^ 64 ∧ e.byteCount < size ∧
    Covers rest (addr + (e.byteCount + 1)) (size - (e.byteCount + 1))

section

variable {bpe c buffer length n : Nat} {ioc : Bool} (page : 4096 ≤ bpe) (small : bpe < 2 ^ 22)

include page small

lemma covers_range' (i size : Nat) (isLength : i + n + 1 = length) :
    Covers ((List.range' i (n + 1)).map (prdtEntry bpe c buffer length ioc))
      (buffer + i * bpe) size ↔
      size = n * bpe + ((c % (bpe / 512) * 512 + 2 ^ 64 - 1) % 2 ^ 22 + 1) := by
  induction n generalizing i size with
  | zero =>
    have last : i = length - 1 := by omega
    simp only [Nat.zero_add, List.range'_one, List.map_cons, List.map_nil, Covers, prdtEntry,
      if_pos last, true_and]
    omega
  | succ n ih =>
    have full : (bpe + 2 ^ 64 - 1) % 2 ^ 22 + 1 = bpe := by omega
    have inner : i ≠ length - 1 := by omega
    have rest := ih (i + 1) (size - bpe) (by omega)
    rw [Nat.succ_mul, ← Nat.add_assoc] at rest
    rw [List.range'_succ, List.map_cons, Covers]
    simp only [prdtEntry, if_neg inner, full, rest, Nat.succ_mul, true_and]
    omega

/-- Entries that 16 bits do not count are missing from the total. -/
lemma total_iff (isCount : divRoundUp c (bpe / 512) % 2 ^ 16 = n + 1) :
    512 * c = n * bpe + ((c % (bpe / 512) * 512 + 2 ^ 64 - 1) % 2 ^ 22 + 1) ↔
      c % (bpe / 512) ≠ 0 ∧ divRoundUp c (bpe / 512) < 2 ^ 16 ∧
        (c < bpe / 512 ∨ bpe % 512 = 0) := by
  obtain ⟨s, hs⟩ : ∃ s, s = bpe / 512 := ⟨_, rfl⟩
  obtain ⟨r, hr⟩ : ∃ r, r = bpe % 512 := ⟨_, rfl⟩
  have hcs := Nat.div_add_mod c s
  have hm := Nat.mod_lt c (by omega : 0 < s)
  have few : n * r ≤ 65536 * 512 := Nat.mul_le_mul (by omega) (by omega)
  have total : n * bpe = 512 * (s * n) + n * r := by
    rw [← Nat.div_add_mod bpe, ← hs, ← hr]
    ring
  have hlt : c < s ↔ c / s = 0 := by
    rw [Nat.div_eq_zero_iff]
    omega
  unfold divRoundUp at isCount ⊢
  rw [← hs] at isCount
  rw [← hs, ← hr, hlt, total]
  generalize c / s = q at *
  have missing (hq : n + 65536 ≤ q) := Nat.mul_le_mul_left s hq
  rw [Nat.mul_add] at missing
  split at isCount
  · rename_i hz
    have full (hq : q = n + 1) : s * q = s * n + s := by rw [hq, Nat.mul_succ]
    omega
  rename_i hz
  rw [if_neg hz]
  rcases Nat.eq_or_lt_of_le (by omega : n ≤ q) with rfl | hq
  · have last : (c % s * 512 + 2 ^ 64 - 1) % 2 ^ 22 + 1 = c % s * 512 := by omega
    rw [last, ← Nat.mul_eq_zero]
    omega
  · have := missing (by omega)
    omega

end

lemma Config.prdtLength_eq {config : Config} {bytes c : Nat}
    (inMax : c ≤ config.maxOperationBlocks bytes) (pos : 0 < sectorsPerPrdtEntry bytes) :
    config.prdtLength bytes c = divRoundUp c (sectorsPerPrdtEntry bytes) % 2 ^ 16 := by
  have hk : divRoundUp c (sectorsPerPrdtEntry bytes) < config.prdtCount + 1 := by
    apply Nat.lt_of_mul_lt_mul_right (a := sectorsPerPrdtEntry bytes)
    rw [Nat.succ_mul]
    exact (divRoundUp_bounds c pos).2.trans_le (Nat.add_le_add_right inMax _)
  rw [prdtLength, min_eq_left (Nat.le_of_lt_succ hk)]

/-- The last entry must not be full, and the limit must be a number of sectors
where there is more than one entry. -/
theorem buildH2dIoFis_covers_iff (config : Config) {bytes c : Nat} (buffer : Nat) (ioc : Bool)
    (pos : 0 < c) (inMax : c ≤ config.maxOperationBlocks bytes) :
    (Covers (buildH2dIoFis bytes c buffer (config.prdtLength bytes c) ioc) buffer (512 * c) ∧
        (buildH2dIoFis bytes c buffer (config.prdtLength bytes c) ioc).length ≤ config.prdtCount) ↔
      c % sectorsPerPrdtEntry bytes ≠ 0 ∧ divRoundUp c (sectorsPerPrdtEntry bytes) < 2 ^ 16 ∧
        (c < sectorsPerPrdtEntry bytes ∨ bytesPerPrdtEntry bytes % 512 = 0) := by
  have hb : 4096 ≤ bytesPerPrdtEntry bytes := Nat.le_max_right ..
  have ht : bytesPerPrdtEntry bytes < 2 ^ 22 := by unfold bytesPerPrdtEntry; omega
  have hs : 0 < sectorsPerPrdtEntry bytes := by unfold sectorsPerPrdtEntry; omega
  refine (and_iff_left ?_).trans ?_
  · rw [buildH2dIoFis, List.length_map, List.length_range]
    exact (Nat.mod_le ..).trans (min_le_right ..)
  rw [buildH2dIoFis, List.range_eq_range', Config.prdtLength_eq inMax hs]
  cases hn : divRoundUp c (sectorsPerPrdtEntry bytes) % 2 ^ 16 with
  | zero =>
    have hp := divRoundUp_pos pos hs
    simp only [List.range'_zero, List.map_nil, Covers]
    omega
  | succ n =>
    have hcov := @covers_range' _ c buffer _ n ioc hb ht 0 (512 * c) rfl
    rw [Nat.zero_add, Nat.zero_mul] at hcov
    exact hcov.trans (total_iff hb ht hn)

/-- 20 sectors are two full entries and a half one. -/
theorem buildH2dIoFis_covers_iff_twenty :
    Covers
    (buildH2dIoFis 4096 20 65536 (Config.prdtLength ⟨524288, 8⟩ 4096 20) false) 65536 10240 :=
  ((buildH2dIoFis_covers_iff ⟨524288, 8⟩ 65536 false (by decide) (by decide)).2 (by decide)).1

/-- A full entry describes 4 MB. -/
theorem not_covers_eight :
    ¬ Covers (buildH2dIoFis 4096 8 0 (Config.prdtLength ⟨524288, 8⟩ 4096 8) false) 0 4096 :=
  fun hc => absurd hc.2.1 (by decide)

end OoOS.Modules.Ahci
