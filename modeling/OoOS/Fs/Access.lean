import Mathlib.Data.Nat.Bitwise
import OoOS.Uam.Accounts

/-!
# Permission checks when a file is opened

The request goes through three encodings: the open mode, `permission_check` and
the bits of `file_mode`.  In `permission_check` the values for reading and
writing are the other way round than in the mode.
-/

namespace OoOS.Fs.Access

open OoOS.Uam (Text UserInfo UserAccountsManager TaskIdentity)

structure FileMode where
  execOthers : Bool
  writeOthers : Bool
  readOthers : Bool
  execGroup : Bool
  writeGroup : Bool
  readGroup : Bool
  execOwner : Bool
  writeOwner : Bool
  readOwner : Bool
  sticky : Bool
  setGid : Bool
  setUid : Bool
  tFifo : Bool
  tChardev : Bool
  tDirectory : Bool
  tRegular : Bool
  deriving DecidableEq

def FileMode.ofBits (bits : Nat) : FileMode where
  execOthers := bits &&& 0o000001 ≠ 0
  writeOthers := bits &&& 0o000002 ≠ 0
  readOthers := bits &&& 0o000004 ≠ 0
  execGroup := bits &&& 0o000010 ≠ 0
  writeGroup := bits &&& 0o000020 ≠ 0
  readGroup := bits &&& 0o000040 ≠ 0
  execOwner := bits &&& 0o000100 ≠ 0
  writeOwner := bits &&& 0o000200 ≠ 0
  readOwner := bits &&& 0o000400 ≠ 0
  sticky := bits &&& 0o001000 ≠ 0
  setGid := bits &&& 0o002000 ≠ 0
  setUid := bits &&& 0o004000 ≠ 0
  tFifo := bits &&& 0o010000 ≠ 0
  tChardev := bits &&& 0o020000 ≠ 0
  tDirectory := bits &&& 0o040000 ≠ 0
  tRegular := bits &&& 0o100000 ≠ 0

def FileMode.toBits (mode : FileMode) : Nat :=
  [mode.execOthers, mode.writeOthers, mode.readOthers, mode.execGroup,
    mode.writeGroup, mode.readGroup, mode.execOwner, mode.writeOwner,
    mode.readOwner, mode.sticky, mode.setGid, mode.setUid, mode.tFifo,
    mode.tChardev, mode.tDirectory, mode.tRegular].foldr Nat.bit 0

inductive PermissionSet where
  | others
  | group
  | owner
  deriving DecidableEq

def PermissionSet.shift : PermissionSet → Nat
  | .others => 0
  | .group => 3
  | .owner => 6

def FileMode.permissionBits (mode : FileMode) (which : PermissionSet) : Nat :=
  (mode.toBits >>> which.shift) &&& 7

def chkNone : Nat := 0

def chkExecute : Nat := 0b001

def chkRead : Nat := 0b010

def chkWrite : Nat := 0b100

def fileExecuteOverride : Nat := 0x10000

def fileWriteOverride : Nat := 0x20000

def fileReadOverride : Nat := 0x40000

def dirSearchOverride : Nat := 0x80000

def fsPermissionsMask : Nat :=
  fileReadOverride ||| fileWriteOverride ||| fileExecuteOverride |||
    dirSearchOverride

def fsPermissionsShift : Nat := 16

def getFsPermissions (permissions : Nat) : Nat :=
  ((permissions &&& fsPermissionsMask) >>> fsPermissionsShift) % 2 ^ 8

inductive VnodeKind where
  | file
  | pipe
  | device
  | directory
  deriving DecidableEq

structure OpenMode where
  input : Bool
  output : Bool
  deriving DecidableEq

structure Vnode where
  kind : VnodeKind
  mode : FileMode
  ownerUid : Nat
  ownerGid : Nat
  opens : Bool
  currentMode : OpenMode
  deriving DecidableEq

def getUserPermissionOverrides (user : UserInfo) (isDir : Bool) : Nat :=
  let overrides := getFsPermissions user.systemPermissions
  (if isDir then (overrides &&& 0xFE) ||| ((overrides &&& 8) >>> 3)
    else overrides) &&& 7

def Vnode.which (node : Vnode) (user : UserInfo) : PermissionSet :=
  if node.ownerUid = user.uid then .owner
  else if node.ownerGid = user.gid then .group
  else .others

def Vnode.checkPermissions (node : Vnode) (user : UserInfo) (what : Nat) : Bool :=
  if what = chkNone then true
  else
    (node.mode.permissionBits (node.which user) |||
      getUserPermissionOverrides user (node.kind = .directory)) &&& what = what

inductive FsError where
  | outOfRange
  | isDirectory
  | notFound
  | createFailed
  | permissionError (userName : Text) (permissions : String)
  deriving DecidableEq

def permStrings : List String :=
  ["", "(execute)", "(read)", "(read, execute)", "(write)",
    "(write, execute)", "(read, write)", "(read, write, execute)"]

/-- `__throw_permission_error`: the two parts of the message that vary. -/
def permissionErrorFor (user : UserInfo) (what : Nat) : FsError :=
  .permissionError (OoOS.Uam.cut OoOS.Uam.usernameMaxLen user.userLoginName)
    (permStrings.getD what "")

def OpenMode.check (mode : OpenMode) : Nat :=
  (if mode.input then chkRead else chkNone) |||
    (if mode.output then chkWrite else chkNone)

variable (task : Option TaskIdentity) (accounts : Option UserAccountsManager)

def checkAccess (node : Vnode) (mode : OpenMode) : Except FsError Unit :=
  match task, accounts with
  | some task, some accounts =>
    match accounts.getByUid task.euid with
    | none => .error .outOfRange
    | some user =>
      if node.checkPermissions user mode.check then .ok ()
      else .error (permissionErrorFor user mode.check)
  | _, _ => .ok ()

def onOpen (node : Vnode) : Option Vnode :=
  if node.kind ≠ .directory ∧ node.opens = true then some node else none

/-- `filesystem::find_node`, from the entry that was found; `out_of_range` is
caught. -/
def findNode (found : Option Vnode) (mode : OpenMode) : Except FsError (Option Vnode) :=
  match found with
  | none => .ok none
  | some node =>
    match checkAccess task accounts node mode with
    | .error .outOfRange => .ok none
    | .error other => .error other
    | .ok () =>
      if node.kind ≠ .directory then .ok (onOpen node)
      else .ok (some node)

def openChecked (node : Vnode) (mode : OpenMode) : Except FsError (Option Vnode) :=
  match checkAccess task accounts node mode with
  | .error other => .error other
  | .ok () =>
    .ok (some (if node.kind = .pipe then node
      else { node with currentMode := mode }))

/-- `filesystem::open_file`, from the entry that was found; `created` is what
`mkfilenode` makes. -/
def openFile (found created : Option Vnode) (create : Bool)
    (mode : OpenMode) : Except FsError (Option Vnode) :=
  match found, created with
  | some node, _ =>
    if node.kind = .directory then .error .isDirectory
    else
      match onOpen node with
      | none => .ok none
      | some result => openChecked task accounts result mode
  | none, some node =>
    if create then
      match onOpen node with
      | none => .ok none
      | some result => openChecked task accounts result mode
    else .error .notFound
  | none, none => .error (if create then .createFailed else .notFound)

def extOpenFile (found created : Option Vnode) (create : Bool)
    (mode : OpenMode) : Except FsError (Option Vnode) :=
  match found, created with
  | some node, _ =>
    if node.kind = .directory then .error .isDirectory
    else
      match onOpen node with
      | none => .ok none
      | some result => openChecked task accounts result mode
  | none, some node =>
    if create then openChecked task accounts node mode
    else .error .notFound
  | none, none => .error (if create then .createFailed else .notFound)

open Nat

lemma and_eq_right_iff (bits mask : Nat) :
    bits &&& mask = mask ↔ ∀ i, mask.testBit i = true → bits.testBit i = true := by
  constructor
  · intro hc i isSet
    rw [← hc, testBit_and, Bool.and_eq_true] at isSet
    exact isSet.1
  intro hc
  apply eq_of_testBit_eq
  intro i
  rw [testBit_and]
  cases isSet : mask.testBit i with
  | false => exact Bool.and_false _
  | true => rw [hc i isSet, Bool.and_true]

/-- A check for reading has bit 1 and one for writing bit 2. -/
lemma testBit_check (mode : OpenMode) (i : Nat) :
    mode.check.testBit i = true ↔ (mode.input = true ∧ i = 1) ∨ (mode.output = true ∧ i = 2) := by
  have none_ : chkNone.testBit i = false := zero_testBit i
  have read : chkRead.testBit i = true ↔ i = 1 := by
    rw [show chkRead = 2 ^ 1 from rfl, testBit_two_pow, decide_eq_true_iff]
    exact eq_comm
  have write : chkWrite.testBit i = true ↔ i = 2 := by
    rw [show chkWrite = 2 ^ 2 from rfl, testBit_two_pow, decide_eq_true_iff]
    exact eq_comm
  unfold OpenMode.check
  cases mode.input <;> cases mode.output <;>
    simp [Bool.false_eq_true, none_, read, write, false_and, true_and]

def FileMode.readBit (mode : FileMode) : PermissionSet → Bool
  | .others => mode.readOthers
  | .group => mode.readGroup
  | .owner => mode.readOwner

def FileMode.writeBit (mode : FileMode) : PermissionSet → Bool
  | .others => mode.writeOthers
  | .group => mode.writeGroup
  | .owner => mode.writeOwner

lemma testBit_permissionBits (mode : FileMode) (which : PermissionSet) :
    (mode.permissionBits which).testBit 1 = mode.writeBit which ∧
      (mode.permissionBits which).testBit 2 = mode.readBit which := by
  have one : testBit 7 1 = true := by decide
  have two : testBit 7 2 = true := by decide
  unfold FileMode.permissionBits FileMode.toBits
  cases which <;>
    simp [PermissionSet.shift, testBit_bit_succ, FileMode.writeBit, FileMode.readBit, one, two]

lemma and_two_pow_ne_zero (bits i : Nat) : decide (bits &&& 2 ^ i ≠ 0) = bits.testBit i := by
  rw [and_two_pow]
  cases bits.testBit i <;> simp

lemma may_two_pow (user : UserInfo) (i : Nat) :
    user.may (2 ^ i) = user.systemPermissions.testBit i :=
  and_two_pow_ne_zero user.systemPermissions i

lemma testBit_getFsPermissions (permissions : Nat) {i : Nat} (low : i < 4) :
    (getFsPermissions permissions).testBit i = permissions.testBit (16 + i) := by
  have him : fsPermissionsMask.testBit (16 + i) = true :=
    (show ∀ j < 4, fsPermissionsMask.testBit (16 + j) = true by decide) i low
  unfold getFsPermissions
  rw [testBit_mod_two_pow, testBit_shiftRight, testBit_and,
    fsPermissionsShift, him, Bool.and_true, decide_eq_true (show i < 8 by omega), Bool.true_and]

lemma testBit_overrides (user : UserInfo) (isDir : Bool) {i : Nat} (position : i = 1 ∨ i = 2) :
    (getUserPermissionOverrides user isDir).testBit i =
      user.systemPermissions.testBit (16 + i) := by
  have low : i < 4 := by omega
  have kept : (getFsPermissions user.systemPermissions).testBit i =
      user.systemPermissions.testBit (16 + i) := testBit_getFsPermissions _ low
  have seven : testBit 7 i = true := by rcases position with rfl | rfl <;> decide
  have mask : testBit 0xFE i = true := by rcases position with rfl | rfl <;> decide
  have hs (bits : Nat) : ((bits &&& 8) >>> 3).testBit i = false := by
    rw [testBit_shiftRight, testBit_and]
    rcases position with rfl | rfl
    · rw [show testBit 8 (3 + 1) = false by decide, Bool.and_false]
    · rw [show testBit 8 (3 + 2) = false by decide, Bool.and_false]
  unfold getUserPermissionOverrides
  rw [testBit_and, seven, Bool.and_true]
  split
  · rw [testBit_or, testBit_and, mask, hs, Bool.and_true, Bool.or_false, kept]
  · exact kept

def MayRead (user : UserInfo) (node : Vnode) : Prop :=
  node.mode.readBit (node.which user) = true ∨ user.may fileReadOverride = true

def MayWrite (user : UserInfo) (node : Vnode) : Prop :=
  node.mode.writeBit (node.which user) = true ∨ user.may fileWriteOverride = true

def Granted (user : UserInfo) (node : Vnode) (mode : OpenMode) : Prop :=
  (mode.input = true → MayRead user node) ∧ (mode.output = true → MayWrite user node)

/-- The check asks for the right to write of a reader and for the right to read
of a writer. -/
lemma checkPermissions_iff (user : UserInfo) (node : Vnode) (mode : OpenMode) :
    node.checkPermissions user mode.check = true ↔ (mode.input = true → MayWrite user node) ∧
        (mode.output = true → MayRead user node) := by
  have bits := testBit_permissionBits node.mode (node.which user)
  have hw : (node.mode.permissionBits (node.which user) |||
      getUserPermissionOverrides user (node.kind = .directory)).testBit 1 =
        true ↔ MayWrite user node := by
    rw [testBit_or, bits.1, testBit_overrides user _ (.inl rfl), ← may_two_pow, Bool.or_eq_true]
    rfl
  have hr : (node.mode.permissionBits (node.which user) |||
      getUserPermissionOverrides user (node.kind = .directory)).testBit 2 =
        true ↔ MayRead user node := by
    rw [testBit_or, bits.2, testBit_overrides user _ (.inr rfl), ← may_two_pow, Bool.or_eq_true]
    rfl
  have hc : node.checkPermissions user mode.check = true ↔
      (node.mode.permissionBits (node.which user) |||
        getUserPermissionOverrides user (node.kind = .directory)) &&& mode.check = mode.check := by
    unfold Vnode.checkPermissions
    by_cases hn : mode.check = chkNone
    · rw [if_pos hn, hn]
      exact iff_of_true rfl (and_zero _)
    · rw [if_neg hn, decide_eq_true_iff]
  rw [hc, and_eq_right_iff]
  constructor
  · intro hco
    constructor
    · intro hin
      exact hw.mp (hco 1 ((testBit_check mode 1).mpr (.inl ⟨hin, rfl⟩)))
    intro ho
    exact hr.mp (hco 2 ((testBit_check mode 2).mpr (.inr ⟨ho, rfl⟩)))
  rintro ⟨hfi, hfo⟩ i isSet
  rcases (testBit_check mode i).mp isSet with
    ⟨hin, rfl⟩ | ⟨ho, rfl⟩
  · exact hw.mpr (hfi hin)
  · exact hr.mpr (hfo ho)

def LetsThrough (result : Except FsError (Option Vnode)) : Prop :=
  ∀ userName permissions, result ≠ .error (.permissionError userName permissions)

variable {task : TaskIdentity} {accounts : UserAccountsManager}
  {user : UserInfo} (node : Vnode) (mode : OpenMode)

lemma checkAccess_eq (found : accounts.getByUid task.euid = some user) :
    checkAccess (some task) (some accounts) node mode =
      if node.checkPermissions user mode.check then .ok ()
      else .error (permissionErrorFor user mode.check) := by
  simp [checkAccess, found]

lemma letsThrough_ok (result : Option Vnode) : LetsThrough (.ok result) := by
  intro _ _ failed
  cases failed

lemma not_letsThrough (what : Nat) : ¬ LetsThrough (.error (permissionErrorFor user what)) :=
  fun ht => ht _ _ rfl

section

variable (isUser : accounts.getByUid task.euid = some user)

include isUser

lemma letsThrough_findNode : LetsThrough (findNode (some task) (some accounts) (some node) mode) ↔
    node.checkPermissions user mode.check = true := by
  unfold findNode
  dsimp only
  rw [checkAccess_eq node mode isUser]
  by_cases hp : node.checkPermissions user mode.check = true
  · rw [if_pos hp]
    refine iff_of_true ?_ hp
    dsimp only
    split <;> exact letsThrough_ok _
  rw [if_neg hp]
  exact iff_of_false (not_letsThrough mode.check) hp

lemma letsThrough_openChecked : LetsThrough (openChecked (some task) (some accounts) node mode) ↔
    node.checkPermissions user mode.check = true := by
  unfold openChecked
  rw [checkAccess_eq node mode isUser]
  by_cases hp : node.checkPermissions user mode.check = true
  · rw [if_pos hp]
    exact iff_of_true (letsThrough_ok _) hp
  rw [if_neg hp]
  exact iff_of_false (not_letsThrough mode.check) hp

end

inductive Opens (node : Vnode) : Option Vnode → Option Vnode → Bool → Prop
  | existing (created : Option Vnode) (create : Bool) : Opens node (some node) created create
  | new : Opens node none (some node) true

lemma onOpen_eq (isFile : node.kind ≠ .directory) (opens : node.opens = true) :
    onOpen node = some node := by
  unfold onOpen
  rw [if_pos ⟨isFile, opens⟩]

variable {create : Bool}

lemma openFile_eq {found created : Option Vnode}
    (opened : Opens node found created create) (isFile : node.kind ≠ .directory)
    (opens : node.opens = true) :
    openFile (some task) (some accounts) found created create mode =
      openChecked (some task) (some accounts) node mode := by
  cases opened with
  | existing created create => simp [openFile, if_neg isFile, onOpen_eq node isFile opens]
  | new => simp [openFile, onOpen_eq node isFile opens]

lemma extOpenFile_eq {found created : Option Vnode}
    (opened : Opens node found created create) (isFile : node.kind ≠ .directory)
    (opens : node.opens = true) :
    extOpenFile (some task) (some accounts) found created create mode =
      openChecked (some task) (some accounts) node mode := by
  cases opened with
  | existing created create => simp [extOpenFile, if_neg isFile, onOpen_eq node isFile opens]
  | new => simp [extOpenFile]

/-- All the functions that open a node let a request through exactly when its
rights are granted. -/
structure Follows (task : TaskIdentity) (accounts : UserAccountsManager)
    (user : UserInfo) (node : Vnode) (mode : OpenMode) : Prop where
  found : LetsThrough
      (findNode (some task) (some accounts) (some node) mode) ↔
    Granted user node mode
  opened : ∀ found created create, Opens node found created create →
    node.kind ≠ .directory → node.opens = true →
    (LetsThrough
        (openFile (some task) (some accounts) found created create mode) ↔
      Granted user node mode)
  extOpened : ∀ found created create, Opens node found created create →
    node.kind ≠ .directory → node.opens = true →
    (LetsThrough
        (extOpenFile (some task) (some accounts) found created create mode) ↔
      Granted user node mode)

/-- The swapped check gives the right answer just if both rights are asked for,
or none, or the user has both or none. -/
lemma swapped_iff (user : UserInfo) (node : Vnode) (mode : OpenMode) :
    (node.checkPermissions user mode.check = true ↔ Granted user node mode) ↔
      (mode.input = mode.output ∨ (MayRead user node ↔ MayWrite user node)) := by
  rw [checkPermissions_iff]
  unfold Granted
  cases mode.input <;> cases mode.output <;>
    simp only [Bool.false_eq_true, Bool.true_eq_false, false_implies,
      true_implies, and_true, true_and, true_or, false_or]
  · exact iff_comm
  · exact iff_of_true and_comm trivial

/-- Files are opened by their mode bits just where reading and writing need not
be told apart. -/
theorem follows_iff {task : TaskIdentity} {accounts : UserAccountsManager} {user : UserInfo}
    (isUser : accounts.getByUid task.euid = some user) (node : Vnode) (mode : OpenMode) :
    Follows task accounts user node mode ↔ (mode.input = mode.output ∨
        (MayRead user node ↔ MayWrite user node)) := by
  rw [← swapped_iff]
  constructor
  · intro hfo
    exact (letsThrough_findNode node mode isUser).symm.trans hfo.found
  intro ha
  constructor
  · exact (letsThrough_findNode node mode isUser).trans ha
  · intro found created create opened hf opens
    rw [openFile_eq node mode opened hf opens]
    exact (letsThrough_openChecked node mode isUser).trans ha
  intro found created create opened hf opens
  rw [extOpenFile_eq node mode opened hf opens]
  exact (letsThrough_openChecked node mode isUser).trans ha

def someUser : UserInfo where
  uid := 1000
  gid := 1000
  userLoginName := []
  cryptoSettingStr := []
  passwordHashStr := []
  groups := []
  systemPermissions := 0

def someAccounts : UserAccountsManager where
  table := [someUser]
  uidIndexMap := UserAccountsManager.insertUid (fun _ => none) 1000 1
  vpwd := ⟨[], []⟩
  globalInfo := { numUsers := 1, numGroups := 1, nextUid := 1001, nextGid := 1001 }

def someTask : TaskIdentity where
  uid := 1000
  gid := 1000
  impersonate := false
  impUid := 0
  impGid := 0
  rdx := 0

def readOnlyFile : Vnode where
  kind := .file
  mode := FileMode.ofBits 0o100444
  ownerUid := 0
  ownerGid := 0
  opens := true
  currentMode := ⟨true, true⟩

/-- A file that may only be read, opened for both. -/
theorem follows_iff_both :
    MayRead someUser readOnlyFile ∧ ¬ MayWrite someUser readOnlyFile ∧
      Follows someTask someAccounts someUser readOnlyFile ⟨true, true⟩ :=
  ⟨.inl (by decide), not_or.mpr ⟨by decide, by decide⟩,
    (follows_iff (by decide) readOnlyFile ⟨true, true⟩).mpr (.inl rfl)⟩

/-- A file that may only be read cannot be opened for reading, and it can be
opened for writing. -/
theorem not_follows_readOnly : someAccounts.getByUid someTask.euid = some someUser ∧
      MayRead someUser readOnlyFile ∧ ¬ MayWrite someUser readOnlyFile ∧
      findNode (some someTask) (some someAccounts) (some readOnlyFile)
          ⟨true, false⟩ = .error (.permissionError [] "(read)") ∧
      openFile (some someTask) (some someAccounts) (some readOnlyFile) none
          false ⟨false, true⟩ =
        .ok (some { readOnlyFile with currentMode := ⟨false, true⟩ }) ∧
      ¬ Follows someTask someAccounts someUser readOnlyFile ⟨true, false⟩ ∧
      ¬ Follows someTask someAccounts someUser readOnlyFile ⟨false, true⟩ := by
  have hmr : MayRead someUser readOnlyFile := Or.inl (by decide)
  have hmnw : ¬ MayWrite someUser readOnlyFile := by
    rintro (bit | hov)
    · exact absurd bit (by decide)
    · exact absurd hov (by decide)
  refine ⟨by decide, hmr, hmnw, by decide, by decide, ?_, ?_⟩
  · intro hf
    have ht := hf.found.mpr ⟨fun _ => hmr, fun ho => absurd ho (by decide)⟩
    exact ht [] "(read)" (by decide)
  intro hf
  have hg := hf.found.mp (by
    intro _ _ failed
    exact absurd failed (by simp [show findNode (some someTask)
      (some someAccounts) (some readOnlyFile) ⟨false, true⟩ = .ok (some readOnlyFile) by decide]))
  exact hmnw (hg.2 rfl)

end OoOS.Fs.Access
