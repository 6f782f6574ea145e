import Mathlib.Data.List.Basic
import Mathlib.Tactic.Ring

/-!
# User accounts and the system calls about identity

The table of accounts is the list of its records in the order in which they were
added; how it finds a name is a parameter.  The password hash of the crypto library is
one, too.
-/

namespace OoOS.Uam

abbrev Text := List UInt8

def cut (length : Nat) (field : Text) : Text := (field.take length).takeWhile (· ≠ 0)

/-- `std::strncpy` of a text that is not longer. -/
def strncpy (length : Nat) (text : Text) : Text :=
  cut length text ++ List.replicate (length - (cut length text).length) 0

/-- `std::strncmp` gives 0; the characters behind the first `n` are compared as well. -/
def sameText (n : Nat) (left right : Text) : Bool := cut (n + 1) left = cut (n + 1) right

/-- The string made of a pointer and `std::strnlen` of it.  Without a zero in `max + 1`
bytes the length is a difference to the null pointer, and no string can be had. -/
def boundedString (max : Nat) (bytes : Text) : Option Text :=
  if (bytes.take (max + 1)).contains 0 then some (bytes.takeWhile (· ≠ 0)) else none

abbrev CryptoString := Text → Text → Text

def rootUid : Nat := 0

def rootGid : Nat := 0

def usernameMaxLen : Nat := 32

def cryptoSettingLen : Nat := 29

def cryptoHashLen : Nat := 31

def userGroupsArrayLen : Nat := 23

def escalateProcess : Nat := 0x1000

def impersonateAnyUid : Nat := 0x2000

def impersonateAnyGid : Nat := 0x4000

def serviceAccountNxlogin : Nat := 0x8000

def undefinedId : Nat := 2 ^ 32 - 1

def ePerm : Int := 1

def eAcces : Int := 13

def eFault : Int := 14

def eExist : Int := 17

def eInval : Int := 22

def eNoSpc : Int := 28

def eNameTooLong : Int := 91

structure StringTable where
  data : Text
  behind : Text

namespace StringTable

/-- `write` at the end of the buffer, without a terminator; `stored` is whether it
could be synced. -/
def write (table : StringTable) (str : Text) (stored : Bool) : Option Nat × StringTable :=
  (if str ≠ [] ∧ stored then some table.data.length else none,
    { table with data := table.data ++ str })

def read (table : StringTable) (pos : Nat) : Option Text :=
  if pos ≤ table.data.length then boundedString 1024 ((table.data ++ table.behind).drop pos)
  else none

end StringTable

structure VpwdPlaces where
  gecos : Nat := 0
  home : Nat := 0
  shell : Nat := 0
  deriving DecidableEq

structure UserInfo where
  uid : Nat
  gid : Nat
  vpwd : VpwdPlaces := {}
  userLoginName : Text
  cryptoSettingStr : Text
  passwordHashStr : Text
  groups : List Nat
  systemPermissions : Nat
  deriving DecidableEq

namespace UserInfo

def may (user : UserInfo) (flag : Nat) : Bool := user.systemPermissions &&& flag ≠ 0

/-- The hash is compared with one byte more, the first of the groups. -/
def checkPw (crypt : CryptoString) (user : UserInfo) (pw : Text) : Bool :=
  sameText cryptoHashLen (crypt pw user.cryptoSettingStr)
    (user.passwordHashStr ++ [UInt8.ofNat (user.groups.headD 0)])

/-- The bytes from `user_login_name` on.  A name that fills its field goes on with the
setting. -/
def loginKey (user : UserInfo) : Text :=
  user.userLoginName ++ user.cryptoSettingStr ++ user.passwordHashStr

end UserInfo

/-- `find_value_index`: the place (from 1 on) to which the bytes of a name lead
among the records. -/
abbrev Lookup := List UserInfo → Text → Option Nat

/-- The first record of the name. -/
def byName : Lookup := fun table key =>
  (table.findIdx? fun user => sameText usernameMaxLen user.loginKey key).map (· + 1)

structure GlobalAccountsInfo where
  numUsers : Nat := 0
  numGroups : Nat := 0
  nextUid : Nat := 0
  nextGid : Nat := 0
  nextServiceUid : Nat := 0
  nextServiceGid : Nat := 0
  defaultPermissions : Nat := 0

structure UserAccountsManager where
  table : List UserInfo
  uidIndexMap : Nat → Option Nat
  vpwd : StringTable
  globalInfo : GlobalAccountsInfo

structure Request where
  name : Text
  pw : Text
  setting : Text
  caps : Option Nat := none
  shell : Option Text := none
  gecos : Option Text := none
  home : Option Text := none
  stored : Fin 3 → Bool := fun _ => true

/-- A call of `create_user` or `create_service_account`. -/
inductive CreateCall where
  | createUser (request : Request)
  | createServiceAccount (request : Request)

def CreateCall.request : CreateCall → Request
  | .createUser request => request
  | .createServiceAccount request => request

/-- A service account without a shell gets `/sbin/nologin`. -/
def CreateCall.shell : CreateCall → Option Text
  | .createUser request => request.shell
  | .createServiceAccount request => some (request.shell.getD
      [47, 115, 98, 105, 110, 47, 110, 111, 108, 111, 103, 105, 110])

namespace UserAccountsManager

def getByUid (manager : UserAccountsManager) (uid : Nat) : Option UserInfo :=
  (manager.uidIndexMap uid).bind fun index => manager.table[index - 1]?

def getByName (manager : UserAccountsManager) (name : Text) : Option UserInfo :=
  (byName manager.table name).bind fun index => manager.table[index - 1]?

/-- `std::map::insert`: a number that is there keeps its place. -/
def insertUid (map : Nat → Option Nat) (uid index : Nat) : Nat → Option Nat :=
  Function.update map uid (some ((map uid).getD index))

/-- A record as the aggregate initialisers leave it: the array of groups is
zero.  `set_pw` stores a new setting and the hash under it. -/
def newAccount (crypt : CryptoString) (uid gid : Nat) (name setting pw : Text)
    (permissions : Nat) : UserInfo where
  uid := uid
  gid := gid
  userLoginName := strncpy usernameMaxLen name
  cryptoSettingStr := strncpy cryptoSettingLen setting
  passwordHashStr := strncpy cryptoHashLen (crypt pw setting)
  groups := List.replicate userGroupsArrayLen 0
  systemPermissions := permissions

/-- `init_instance` without stored accounts: `num_users` and `num_groups` are
increased without having been set, and the default permissions are not set. -/
def initInstance (crypt : CryptoString) (setting : Text) (unset : GlobalAccountsInfo)
    (vpwd : StringTable) : UserAccountsManager where
  table := [newAccount crypt rootUid rootGid [114, 111, 111, 116] setting [116, 111, 111, 114]
    (2 ^ 32 - 1)]
  uidIndexMap := insertUid (fun _ => none) rootUid 1
  vpwd := vpwd
  globalInfo :=
    { unset with
      numUsers := unset.numUsers + 1
      numGroups := unset.numGroups + 1
      nextUid := 1000
      nextGid := 1000
      nextServiceUid := 1
      nextServiceGid := 1 }

/-- The constructor that loads a stored table. -/
def reload (manager : UserAccountsManager) : UserAccountsManager :=
  { manager with
    uidIndexMap := manager.table.zipIdx.foldl
      (fun map record => insertUid map record.1.uid (record.2 + 1)) fun _ => none }

/-- A string argument, or what stands for a null pointer. -/
def given (argument : Option Text) (default : Text) : Option Text :=
  match argument with
  | none => some default
  | some text => boundedString 1024 (text ++ [0])

/-- `__create_vpwd_records` writes all three strings before it looks whether they could be
written.  The home of an account is its name in `/home/` and its shell `/bin/sh` if they
are not given; no result means that a string could not be made. -/
def createVpwdRecords (user : UserInfo) (home gecos shell : Option Text) (stored : Fin 3 → Bool)
    (vpwd : StringTable) : Option (Option VpwdPlaces) × StringTable :=
  match boundedString usernameMaxLen user.loginKey with
  | none => (none, vpwd)
  | some uname =>
    match given gecos uname with
    | none => (none, vpwd)
    | some gecos =>
      let (gecosPtr, vpwd) := vpwd.write gecos (stored 0)
      match given home ([47, 104, 111, 109, 101, 47] ++ uname) with
      | none => (none, vpwd)
      | some home =>
        let (homePtr, vpwd) := vpwd.write home (stored 1)
        match given shell [47, 98, 105, 110, 47, 115, 104] with
        | none => (none, vpwd)
        | some shell =>
          let (shellPtr, vpwd) := vpwd.write shell (stored 2)
          (some (do return ⟨← gecosPtr, ← homePtr, ← shellPtr⟩), vpwd)

variable (crypt : CryptoString) (lookup : Lookup) (manager : UserAccountsManager)

/-- The record that a call makes. -/
def account : CreateCall → UserInfo
  | .createUser request =>
    newAccount crypt manager.globalInfo.nextUid manager.globalInfo.nextGid request.name
      request.setting request.pw (request.caps.getD manager.globalInfo.defaultPermissions)
  | .createServiceAccount request =>
    newAccount crypt manager.globalInfo.nextServiceUid manager.globalInfo.nextServiceGid
      request.name request.setting request.pw
      (request.caps.getD manager.globalInfo.defaultPermissions ||| serviceAccountNxlogin)

/-- The counters after a call that succeeds. -/
def counted : CreateCall → GlobalAccountsInfo
  | .createUser _ =>
    { manager.globalInfo with
      nextUid := (manager.globalInfo.nextUid + 1) % 2 ^ 32
      nextGid := (manager.globalInfo.nextGid + 1) % 2 ^ 32
      numUsers := manager.globalInfo.numUsers + 1
      numGroups := manager.globalInfo.numGroups + 1 }
  | .createServiceAccount _ =>
    { manager.globalInfo with
      nextServiceUid := (manager.globalInfo.nextServiceUid + 1) % 2 ^ 32
      nextServiceGid := (manager.globalInfo.nextServiceGid + 1) % 2 ^ 32
      numUsers := manager.globalInfo.numUsers + 1
      numGroups := manager.globalInfo.numGroups + 1 }

/-- `add` of the table gives the record that it finds under the name instead of a new
one. -/
def add (table : List UserInfo) (account : UserInfo) : List UserInfo × Nat :=
  match lookup table account.loginKey with
  | some index => (table, index)
  | none => (table ++ [account], table.length + 1)

/-- The record under the name of the call, once `add` was called. -/
def record (call : CreateCall) : UserInfo :=
  (add lookup manager.table (manager.account crypt call)).1.getD
    ((add lookup manager.table (manager.account crypt call)).2 - 1) (manager.account crypt call)

/-- What the strings of the call's record come to. -/
def writeStrings (call : CreateCall) : Option (Option VpwdPlaces) × StringTable :=
  createVpwdRecords (manager.record crypt lookup call) call.request.home call.request.gecos
    call.shell call.request.stored manager.vpwd

/-- The record is added before the strings are written; its number is used up only
if they could be.  No result means that the call throws. -/
def create (call : CreateCall) : Option Int × UserAccountsManager :=
  if usernameMaxLen < call.request.name.length then (some (-eNameTooLong), manager)
  else if (lookup manager.table (call.request.name ++ [0])).isSome then (some (-eExist), manager)
  else
    let (table, index) := add lookup manager.table (manager.account crypt call)
    let user := manager.record crypt lookup call
    let (written, vpwd) := manager.writeStrings crypt lookup call
    match written with
    | none => (none, { manager with table, vpwd })
    | some none => (some (-eNoSpc), { manager with table, vpwd })
    | some (some places) =>
      (some 0,
        { table := table.set (index - 1) { user with vpwd := places }
          uidIndexMap := insertUid manager.uidIndexMap user.uid index
          vpwd := vpwd
          globalInfo := manager.counted call })

def createUser (request : Request) : Option Int × UserAccountsManager :=
  manager.create crypt lookup (.createUser request)

def createServiceAccount (request : Request) : Option Int × UserAccountsManager :=
  manager.create crypt lookup (.createServiceAccount request)

inductive Built : UserAccountsManager → Prop
  | initInstance (setting : Text) (unset : GlobalAccountsInfo) (vpwd : StringTable) :
      Built (initInstance crypt setting unset vpwd)
  | createUser {manager : UserAccountsManager} (lookup : Lookup) (request : Request) :
      Built manager → Built (manager.createUser crypt lookup request).2
  | createServiceAccount {manager : UserAccountsManager} (lookup : Lookup) (request : Request) :
      Built manager → Built (manager.createServiceAccount crypt lookup request).2
  | reload {manager : UserAccountsManager} : Built manager → Built manager.reload

end UserAccountsManager

/-- The fields of `task_ctx` that are about identity, and the register in which
the calls return a group number. -/
structure TaskIdentity where
  uid : Nat
  gid : Nat
  impersonate : Bool
  impUid : Nat
  impGid : Nat
  rdx : Nat

namespace TaskIdentity

def euid (task : TaskIdentity) : Nat :=
  if task.impersonate then task.impUid else task.uid

def egid (task : TaskIdentity) : Nat :=
  if task.impersonate then task.impGid else task.gid

def setEuid (task : TaskIdentity) (id : Nat) : TaskIdentity :=
  if task.impersonate then { task with impUid := id }
  else { task with uid := id }

def setEgid (task : TaskIdentity) (id : Nat) : TaskIdentity :=
  if task.impersonate then { task with impGid := id }
  else { task with gid := id }

end TaskIdentity

/-- A string argument of a call: a null pointer, one that cannot be translated,
or a string. -/
inductive UserString where
  | null
  | unmapped
  | text (value : Text)
  deriving DecidableEq

inductive IdentityCall where
  | login (name pass : UserString)
  | impersonate (name pass : UserString)
  | setuid (id : Nat)
  | setgid (id : Nat)
  | urevert
  | escalate (pass : UserString)
  deriving DecidableEq

variable (crypt : CryptoString) (manager : UserAccountsManager) (task : TaskIdentity)

def takeIdentity (target : UserInfo) : Int × TaskIdentity :=
  (target.uid,
    { task with
      impersonate := true
      impUid := target.uid
      impGid := target.gid
      rdx := target.gid })

def doImpersonate (current target : UserInfo) (pass : UserString) : Int × TaskIdentity :=
  if current.may impersonateAnyUid then takeIdentity task target
  else if target.may serviceAccountNxlogin then (-ePerm, task)
  else
    match pass with
    | .null => (-ePerm, task)
    | .unmapped => (-eFault, task)
    | .text pw =>
      if target.checkPw crypt pw then takeIdentity task target
      else (-eAcces, task)

def syscallLogin (name pass : UserString) : Int × TaskIdentity :=
  match name, pass with
  | .text name, .text pw =>
    match manager.getByName name with
    | none => (-eInval, task)
    | some user =>
      if user.may serviceAccountNxlogin then (-ePerm, task)
      else if user.checkPw crypt pw then
        (user.uid, { task with uid := user.uid, gid := user.gid, rdx := user.gid })
      else (-eAcces, task)
  | _, _ => (-eFault, task)

/-- `syscall_impersonate`; without a name it is about root. -/
def syscallImpersonate (name pass : UserString) : Int × TaskIdentity :=
  match manager.getByUid task.euid with
  | none => (-eInval, task)
  | some current =>
    match name with
    | .null =>
      match manager.getByUid rootUid with
      | none => (-eInval, task)
      | some target => doImpersonate crypt task current target pass
    | .unmapped => (-eFault, task)
    | .text name =>
      match manager.getByName name with
      | none => (-eInval, task)
      | some target => doImpersonate crypt task current target pass

def syscallSetuid (id : Nat) : Int × TaskIdentity :=
  match manager.getByUid task.uid, manager.getByUid id with
  | some current, some _ =>
    if current.may impersonateAnyUid then (0, task.setEuid id)
    else (-ePerm, task)
  | _, _ => (-eInval, task)

def syscallSetgid (id : Nat) : Int × TaskIdentity :=
  match manager.getByUid task.uid with
  | none => (-eInval, task)
  | some current =>
    if current.may impersonateAnyGid || current.groups.contains id then
      (0, task.setEgid id)
    else (-ePerm, task)

def syscallUrevert : Int × TaskIdentity :=
  (task.uid,
    { task with
      impersonate := false
      impUid := undefinedId
      impGid := undefinedId
      rdx := task.gid })

def syscallEscalate (pass : UserString) : Int × TaskIdentity :=
  match pass with
  | .text pw =>
    match manager.getByUid task.uid with
    | none => (-eInval, task)
    | some current =>
      if current.may escalateProcess then
        if current.checkPw crypt pw then
          (0, { task with
            impersonate := true
            impUid := rootUid
            impGid := rootGid })
        else (-eAcces, task)
      else (-ePerm, task)
  | _ => (-eFault, task)

def TaskIdentity.call (crypt : CryptoString) (manager : UserAccountsManager)
    (task : TaskIdentity) : IdentityCall → Int × TaskIdentity
  | .login name pass => syscallLogin crypt manager task name pass
  | .impersonate name pass => syscallImpersonate crypt manager task name pass
  | .setuid id => syscallSetuid manager task id
  | .setgid id => syscallSetgid manager task id
  | .urevert => syscallUrevert task
  | .escalate pass => syscallEscalate crypt manager task pass

end OoOS.Uam
