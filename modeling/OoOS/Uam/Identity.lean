import OoOS.Uam.Accounts

/-!
# Which identities a task can take

The array of groups of an account is never filled, and a free slot of it is
zero: the scan of `setgid` takes every account for a member of the group with
number 0.
-/

namespace OoOS.Uam

open List TaskIdentity

namespace UserAccountsManager

/-- No account of the table is a member of a group. -/
def Groupless (manager : UserAccountsManager) : Prop :=
  ∀ account ∈ manager.table, account.groups = replicate userGroupsArrayLen 0

variable {manager : UserAccountsManager} {crypt : CryptoString} {lookup : Lookup}

lemma mem_of_getByUid {uid : Nat} {user : UserInfo} (found : manager.getByUid uid = some user) :
    user ∈ manager.table := by
  obtain ⟨index, -, stored⟩ := Option.bind_eq_some_iff.mp found
  exact mem_of_getElem? stored

lemma groups_account (manager : UserAccountsManager) (call : CreateCall) :
    (manager.account crypt call).groups = replicate userGroupsArrayLen 0 := by
  cases call <;> rfl

section

variable (groupless : manager.Groupless) (call : CreateCall)

include groupless

lemma Groupless.add :
    ∀ account ∈ (UserAccountsManager.add lookup manager.table (manager.account crypt call)).1,
      account.groups = replicate userGroupsArrayLen 0 := by
  unfold UserAccountsManager.add
  split
  · exact groupless
  intro account listed
  rcases mem_append.mp listed with old | new
  · exact groupless account old
  rw [mem_singleton.mp new]
  exact groups_account manager call

lemma Groupless.record :
    (manager.record crypt lookup call).groups = replicate userGroupsArrayLen 0 := by
  unfold UserAccountsManager.record
  rw [getD_eq_getElem?_getD]
  cases stored : (UserAccountsManager.add lookup manager.table
      (manager.account crypt call)).1[(UserAccountsManager.add lookup manager.table
        (manager.account crypt call)).2 - 1]? with
  | none => exact groups_account manager call
  | some account => exact groupless.add call account (mem_of_getElem? stored)

lemma Groupless.create : (manager.create crypt lookup call).2.Groupless := by
  unfold UserAccountsManager.create
  split
  · exact groupless
  split
  · exact groupless
  dsimp only
  split
  · exact groupless.add call
  · exact groupless.add call
  intro account listed
  rcases mem_or_eq_of_mem_set listed with other | new
  · exact groupless.add call account other
  rw [new]
  exact groupless.record call

end

lemma Built.groupless (built : Built crypt manager) : manager.Groupless := by
  induction built with
  | initInstance setting unset vpwd =>
    intro account isRoot
    rw [mem_singleton.mp isRoot]
    rfl
  | createUser lookup request _ ih => exact ih.create _
  | createServiceAccount lookup request _ ih =>
    exact ih.create _
  | reload _ ih => exact ih

lemma Groupless.contains_iff (groupless : manager.Groupless)
    {uid : Nat} {user : UserInfo} (found : manager.getByUid uid = some user) (id : Nat) :
    user.groups.contains id = true ↔ id = 0 := by
  rw [groupless user (mem_of_getByUid found), contains_iff_mem, mem_replicate]
  exact and_iff_right (by decide)

def named (manager : UserAccountsManager) : UserString → Option UserInfo
  | .null => manager.getByUid rootUid
  | .unmapped => none
  | .text name => manager.getByName name

end UserAccountsManager

/-- The effective identity is that of a user, with its primary group. -/
def ActsAs (user : UserInfo) (task : TaskIdentity) : Prop :=
  task.euid = user.uid ∧ task.egid = user.gid

/-- All the identities a task holds are those of a user. -/
structure Holds (user : UserInfo) (task : TaskIdentity) : Prop where
  uid : task.uid = user.uid
  gid : task.gid = user.gid
  impUid : task.impersonate = true → task.impUid = user.uid
  impGid : task.impersonate = true → task.impGid = user.gid

/-- A user without the three permissions to change identity. -/
structure Ordinary (user : UserInfo) : Prop where
  noUid : user.may impersonateAnyUid = false
  noGid : user.may impersonateAnyGid = false
  noEscalation : user.may escalateProcess = false

/-- A call does not contain the password of another account. -/
def NoForeignPassword (crypt : CryptoString) (manager : UserAccountsManager)
    (user : UserInfo) : IdentityCall → Prop
  | .login (.text name) (.text pw) =>
    ∀ target, manager.getByName name = some target → target ≠ user → target.checkPw crypt pw = false
  | .impersonate name (.text pw) =>
    ∀ target, manager.named name = some target → target ≠ user → target.checkPw crypt pw = false
  | .escalate (.text pw) =>
    ∀ target, manager.getByUid user.uid = some target → target ≠ user →
      target.checkPw crypt pw = false
  | _ => True

/-- A call cannot take the task of a user to another identity; the record its
number leads to decides. -/
def Harmless (manager : UserAccountsManager) (user : UserInfo) : IdentityCall → Prop
  | .setgid id =>
    ∀ found, manager.getByUid user.uid = some found →
      found.may impersonateAnyGid = true ∨ id = 0 → id = user.gid
  | .setuid id =>
    ∀ found, manager.getByUid user.uid = some found → found.may impersonateAnyUid = true →
      (manager.getByUid id).isSome → id = user.uid
  | .impersonate name _ =>
    ∀ found target, manager.getByUid user.uid = some found → found.may impersonateAnyUid = true →
      manager.named name = some target →
      target.uid = user.uid ∧ target.gid = user.gid
  | _ => True

variable {manager : UserAccountsManager} {user : UserInfo}

/-- With its own record only the group 0 is dangerous. -/
lemma harmless_iff_of_own (ordinary : Ordinary user) (own : manager.getByUid user.uid = some user)
    (call : IdentityCall) : Harmless manager user call ↔ (call = .setgid 0 → user.gid = 0) := by
  have isOwn {found : UserInfo} (hf : manager.getByUid user.uid = some found) :
      found = user := Option.some.inj (hf.symm.trans own)
  cases call with
  | setgid id =>
    constructor
    · intro hh hz
      cases hz
      exact (hh user own (.inr rfl)).symm
    intro hp found hf ha
    rw [isOwn hf] at ha
    rcases ha with hag | hz
    · exact absurd (ordinary.noGid.symm.trans hag) (by decide)
    · rw [hz, hp (by rw [hz])]
  | setuid id =>
    simp only [reduceCtorEq, false_implies, iff_true]
    intro found hf hau
    rw [isOwn hf, ordinary.noUid] at hau
    cases hau
  | impersonate name pass =>
    simp only [reduceCtorEq, false_implies, iff_true]
    intro found _ hf hau
    rw [isOwn hf, ordinary.noUid] at hau
    cases hau
  | login name pass => simp [Harmless]
  | urevert => simp [Harmless]
  | escalate pass => simp [Harmless]

variable {crypt : CryptoString} {task : TaskIdentity}

lemma holds_of_real (sameUid : task.uid = user.uid)
    (sameGid : task.gid = user.gid) (real : task.impersonate = false) : Holds user task := by
  constructor
  · exact sameUid
  · exact sameGid
  · intro him
    rw [real] at him
    cases him
  intro him
  rw [real] at him
  cases him

lemma Holds.actsAs (holds : Holds user task) : ActsAs user task := by
  unfold ActsAs euid egid
  by_cases him : task.impersonate = true
  · rw [if_pos him, if_pos him]
    exact ⟨holds.impUid him, holds.impGid him⟩
  rw [if_neg him, if_neg him]
  exact ⟨holds.uid, holds.gid⟩

lemma euid_setEuid (id : Nat) : (task.setEuid id).euid = id := by
  cases him : task.impersonate <;>
    simp [setEuid, euid, him]

lemma egid_setEgid (id : Nat) : (task.setEgid id).egid = id := by
  cases him : task.impersonate <;>
    simp [setEgid, egid, him]

/-- A call is settled for a task: it keeps the identities if it is harmless, and
changes the effective one if it is not. -/
def Settled (user : UserInfo) (harmless : Prop) (after : TaskIdentity) : Prop :=
  (harmless → Holds user after) ∧ (¬ harmless → ¬ ActsAs user after)

lemma settled_of_holds {harmless : Prop} {after : TaskIdentity}
    (isHarmless : harmless) (holds : Holds user after) : Settled user harmless after :=
  ⟨fun _ => holds, fun harms => absurd isHarmless harms⟩

variable {name pass : UserString}

section

variable (holds : Holds user task)

include holds

lemma Holds.setEuid : Holds user (task.setEuid user.uid) := by
  unfold TaskIdentity.setEuid
  split
  · exact ⟨holds.uid, holds.gid, fun _ => rfl, holds.impGid⟩
  · exact ⟨rfl, holds.gid, holds.impUid, holds.impGid⟩

lemma Holds.setEgid : Holds user (task.setEgid user.gid) := by
  unfold TaskIdentity.setEgid
  split
  · exact ⟨holds.uid, holds.gid, holds.impUid, fun _ => rfl⟩
  · exact ⟨holds.uid, rfl, holds.impUid, holds.impGid⟩

lemma Holds.takeIdentity_iff (target : UserInfo) :
    (ActsAs user (takeIdentity task target).2 ↔ target.uid = user.uid ∧ target.gid = user.gid) ∧
    (target.uid = user.uid ∧ target.gid = user.gid → Holds user (takeIdentity task target).2) := by
  constructor
  · rfl
  rintro ⟨hsu, hsg⟩
  exact ⟨holds.uid, holds.gid, fun _ => hsu, fun _ => hsg⟩

lemma Holds.login (noPassword : NoForeignPassword crypt manager user (.login name pass)) :
    Holds user (syscallLogin crypt manager task name pass).2 := by
  unfold syscallLogin
  split
  · rename_i nameText pw
    cases found : manager.getByName nameText with
    | none => exact holds
    | some target =>
      dsimp only
      split
      · exact holds
      split
      · rename_i correct
        have hu : target = user := by
          by_contra hf
          have wrong := noPassword target found hf
          exact absurd (wrong.symm.trans correct) (by decide)
        rw [hu]
        exact ⟨rfl, rfl, holds.impUid, holds.impGid⟩
      · exact holds
  · exact holds

lemma Holds.urevert : Holds user (syscallUrevert task).2 :=
  holds_of_real holds.uid holds.gid rfl

lemma Holds.escalate (ordinary : Ordinary user)
    (noPassword : NoForeignPassword crypt manager user (.escalate pass)) :
    Holds user (syscallEscalate crypt manager task pass).2 := by
  unfold syscallEscalate
  split
  · rename_i pw
    rw [holds.uid]
    cases found : manager.getByUid user.uid with
    | none => exact holds
    | some current =>
      dsimp only
      split
      · rename_i mayEscalate
        have hf : current ≠ user := by
          rintro rfl
          exact absurd (ordinary.noEscalation.symm.trans mayEscalate) (by decide)
        rw [if_neg]
        · exact holds
        rw [noPassword current found hf]
        decide
      · exact holds
  · exact holds

end

lemma Holds.setuid (holds : Holds user task) (id : Nat) :
    Settled user (Harmless manager user (.setuid id)) (syscallSetuid manager task id).2 := by
  unfold syscallSetuid
  rw [holds.uid]
  cases found : manager.getByUid user.uid with
  | none =>
    refine settled_of_holds ?_ holds
    intro current hc
    rw [found] at hc
    cases hc
  | some current =>
    cases ht : manager.getByUid id with
    | none =>
      refine settled_of_holds ?_ holds
      intro _ _ _ exists_
      rw [ht] at exists_
      cases exists_
    | some _ =>
      dsimp only
      split
      · rename_i hau
        constructor
        · intro hh
          rw [hh current found hau (by rw [ht]; rfl)]
          exact holds.setEuid
        intro harms acts
        apply harms
        intro _ _ _ _
        rw [← acts.1]
        exact (euid_setEuid id).symm
      rename_i notAny
      refine settled_of_holds ?_ holds
      intro _ ho hau
      rw [found] at ho
      cases ho
      exact absurd hau notAny

lemma Holds.setgid (holds : Holds user task) (groupless : manager.Groupless) (id : Nat) :
    Settled user (Harmless manager user (.setgid id)) (syscallSetgid manager task id).2 := by
  unfold syscallSetgid
  rw [holds.uid]
  cases found : manager.getByUid user.uid with
  | none =>
    refine settled_of_holds ?_ holds
    intro current hc
    rw [found] at hc
    cases hc
  | some current =>
    have hd : (current.may impersonateAnyGid || current.groups.contains id) = true ↔
          current.may impersonateAnyGid = true ∨ id = 0 := by
      rw [Bool.or_eq_true, groupless.contains_iff found]
    dsimp only
    split
    · rename_i passes
      constructor
      · intro hh
        rw [hh current found (hd.mp passes)]
        exact holds.setEgid
      intro harms acts
      apply harms
      intro _ _ _
      rw [← acts.2]
      exact (egid_setEgid id).symm
    rename_i fails
    refine settled_of_holds ?_ holds
    intro _ ho ha
    rw [found] at ho
    cases ho
    exact absurd (hd.mpr ha) fails

lemma syscallImpersonate_found (pass : UserString) {current target : UserInfo}
    (found : manager.getByUid task.euid = some current)
    (isNamed : manager.named name = some target) :
    syscallImpersonate crypt manager task name pass =
      doImpersonate crypt task current target pass := by
  unfold syscallImpersonate
  cases name with
  | null =>
    have hr : manager.getByUid rootUid = some target := isNamed
    simp [found, hr]
  | unmapped => cases isNamed
  | text name =>
    have ht : manager.getByName name = some target := isNamed
    simp [found, ht]

lemma syscallImpersonate_missing (pass : UserString)
    (missing : manager.getByUid task.euid = none ∨ manager.named name = none) :
    (syscallImpersonate crypt manager task name pass).2 = task := by
  unfold syscallImpersonate
  cases found : manager.getByUid task.euid with
  | none => rfl
  | some _ =>
    have hnn : manager.named name = none := by
      rcases missing with hnc | hnn
      · rw [found] at hnc
        cases hnc
      · exact hnn
    cases name with
    | null =>
      have hnr : manager.getByUid rootUid = none := hnn
      simp [hnr]
    | unmapped => rfl
    | text name =>
      have hnt : manager.getByName name = none := hnn
      simp [hnt]

lemma Holds.doImpersonate (holds : Holds user task) {current target : UserInfo}
    (notAny : ¬ current.may impersonateAnyUid = true)
    (noPassword : ∀ pw, pass = .text pw → target ≠ user → target.checkPw crypt pw = false) :
    Holds user (doImpersonate crypt task current target pass).2 := by
  unfold Uam.doImpersonate
  rw [if_neg notAny]
  split
  · exact holds
  cases pass with
  | null => exact holds
  | unmapped => exact holds
  | text pw =>
    dsimp only
    split
    · rename_i correct
      have hu : target = user := by
        by_contra hf
        have wrong := noPassword pw rfl hf
        exact absurd (wrong.symm.trans correct) (by decide)
      rw [hu]
      exact (holds.takeIdentity_iff user).2 ⟨rfl, rfl⟩
    · exact holds

/-- The permissions of the record under the number decide. -/
lemma Holds.impersonate (holds : Holds user task)
    (noPassword : NoForeignPassword crypt manager user (.impersonate name pass)) :
    Settled user (Harmless manager user (.impersonate name pass))
      (syscallImpersonate crypt manager task name pass).2 := by
  have hsu := holds.actsAs.1
  cases found : manager.getByUid user.uid with
  | none =>
    rw [syscallImpersonate_missing pass (.inl (by rw [hsu, found]))]
    refine settled_of_holds ?_ holds
    intro current _ hc
    rw [found] at hc
    cases hc
  | some current =>
    cases hn : manager.named name with
    | none =>
      rw [syscallImpersonate_missing pass (.inr hn)]
      refine settled_of_holds ?_ holds
      intro _ target _ _ ht
      rw [hn] at ht
      cases ht
    | some target =>
      rw [syscallImpersonate_found pass (by rw [hsu, found]) hn]
      by_cases hau : current.may impersonateAnyUid = true
      · unfold Uam.doImpersonate
        rw [if_pos hau]
        constructor
        · intro hh
          exact (holds.takeIdentity_iff target).2 (hh current target found hau hn)
        intro harms acts
        apply harms
        intro _ other _ _ ho
        rw [hn] at ho
        cases ho
        exact (holds.takeIdentity_iff target).1.mp acts
      refine settled_of_holds ?_ (holds.doImpersonate hau ?_)
      · intro other _ ho hma
        rw [found] at ho
        cases ho
        exact absurd hma hau
      rintro pw rfl hf
      exact noPassword target hn hf

lemma Holds.call (holds : Holds user task) (groupless : manager.Groupless)
    (ordinary : Ordinary user)
    {call : IdentityCall} (noPassword : NoForeignPassword crypt manager user call) :
    Settled user (Harmless manager user call) (task.call crypt manager call).2 := by
  cases call with
  | login name pass => exact settled_of_holds trivial (holds.login noPassword)
  | impersonate name pass => exact holds.impersonate noPassword
  | setuid id => exact holds.setuid id
  | setgid id => exact holds.setgid groupless id
  | urevert => exact settled_of_holds trivial holds.urevert
  | escalate pass => exact settled_of_holds trivial (holds.escalate ordinary noPassword)

def TaskIdentity.run (crypt : CryptoString) (manager : UserAccountsManager)
    (task : TaskIdentity) (calls : List IdentityCall) : TaskIdentity :=
  calls.foldl (fun current call => (current.call crypt manager call).2) task

def StaysAs (crypt : CryptoString) (manager : UserAccountsManager) (user : UserInfo)
    (task : TaskIdentity) (calls : List IdentityCall) : Prop :=
  ∀ made, made <+: calls → ActsAs user (task.run crypt manager made)

lemma staysAs_cons (call : IdentityCall) (calls : List IdentityCall) :
    StaysAs crypt manager user task (call :: calls) ↔ ActsAs user task ∧
        StaysAs crypt manager user (task.call crypt manager call).2 calls := by
  constructor
  · intro stays
    constructor
    · exact stays [] nil_prefix
    intro made hm
    exact stays (call :: made) ((prefix_cons_inj call).mpr hm)
  rintro ⟨acts, stays⟩ made hm
  cases made with
  | nil => exact acts
  | cons _ rest =>
    obtain ⟨rfl, hr⟩ := cons_prefix_cons.mp hm
    exact stays rest hr

lemma Holds.staysAs_iff (groupless : manager.Groupless) (ordinary : Ordinary user)
    {calls : List IdentityCall}
    (noPassword : ∀ call ∈ calls, NoForeignPassword crypt manager user call)
    (holds : Holds user task) :
    StaysAs crypt manager user task calls ↔ ∀ call ∈ calls, Harmless manager user call := by
  induction calls generalizing task with
  | nil =>
    constructor
    · intro _ call hc
      cases hc
    intro _ _ hm
    rw [prefix_nil.mp hm]
    exact holds.actsAs
  | cons call _ ih =>
    have hs := holds.call groupless ordinary (noPassword call mem_cons_self)
    have hrnp := (forall_mem_cons.mp noPassword).2
    rw [staysAs_cons, forall_mem_cons]
    constructor
    · rintro ⟨_, stays⟩
      have hh : Harmless manager user call := by
        by_contra harms
        exact hs.2 harms (stays [] nil_prefix)
      exact ⟨hh, (ih hrnp (hs.1 hh)).mp stays⟩
    rintro ⟨hh, hrh⟩
    exact ⟨holds.actsAs, (ih hrnp (hs.1 hh)).mpr hrh⟩

def startedAs (user : UserInfo) (impUid impGid rdx : Nat) : TaskIdentity where
  uid := user.uid
  gid := user.gid
  impersonate := false
  impUid := impUid
  impGid := impGid
  rdx := rdx

lemma holds_startedAs (user : UserInfo) (impUid impGid rdx : Nat) :
    Holds user (startedAs user impUid impGid rdx) :=
  holds_of_real rfl rfl rfl

/-- An ordinary user keeps its identity exactly in the runs that never ask for the
group 0 nor use the permissions of another record. -/
theorem staysAs_iff_harmless {crypt : CryptoString} {manager : UserAccountsManager}
    (built : UserAccountsManager.Built crypt manager) {user : UserInfo}
    (ordinary : Ordinary user) {calls : List IdentityCall}
    (noPassword : ∀ call ∈ calls, NoForeignPassword crypt manager user call)
    (impUid impGid rdx : Nat) :
    StaysAs crypt manager user (startedAs user impUid impGid rdx) calls ↔
      ∀ call ∈ calls, Harmless manager user call :=
  (holds_startedAs user impUid impGid rdx).staysAs_iff built.groupless ordinary noPassword

def plainCrypt : CryptoString := fun pw _ => pw

def oneUser : UserAccountsManager :=
  ((UserAccountsManager.initInstance plainCrypt [] {} ⟨[], []⟩).createUser plainCrypt byName
    { name := [117], pw := [112], setting := [] }).2

def userU : UserInfo :=
  { UserAccountsManager.newAccount plainCrypt 1000 1000 [117] [] [112] 0 with
    vpwd := ⟨0, 1, 8⟩ }

lemma built_oneUser : UserAccountsManager.Built plainCrypt oneUser :=
  .createUser _ _ (.initInstance [] {} ⟨[], []⟩)

lemma mem_oneUser : userU ∈ oneUser.table := by decide

lemma ordinary_userU : Ordinary userU := by constructor <;> decide

/-- A group other than 0 is asked for, and a wrong password is given. -/
theorem staysAs_iff_harmless_guess :
    StaysAs plainCrypt oneUser userU (startedAs userU 0 0 0)
      [.setgid 1001, .impersonate .null (.text [112])] := by
  refine (staysAs_iff_harmless built_oneUser ordinary_userU ?_ 0 0 0).mpr ?_
  · intro call listed
    rcases mem_cons.mp listed with rfl | isLast
    · trivial
    rw [mem_singleton.mp isLast]
    intro _ same _
    cases same
    decide
  · intro call listed
    rcases mem_cons.mp listed with rfl | isLast
    · rintro found same (may | isZero)
      · cases same
        exact absurd may (by decide)
      · exact absurd isZero (by decide)
    rw [mem_singleton.mp isLast]
    intro found target same may
    cases same
    exact absurd may (by decide)

/-- The user asks for the group 0 and gets it, without any password. -/
theorem not_staysAs_groupZero :
    UserAccountsManager.Built plainCrypt oneUser ∧ userU ∈ oneUser.table ∧ Ordinary userU ∧
      (∀ call ∈ [IdentityCall.setgid 0], NoForeignPassword plainCrypt oneUser userU call) ∧
      ¬ StaysAs plainCrypt oneUser userU (startedAs userU 0 0 0) [.setgid 0] ∧
      ((startedAs userU 0 0 0).run plainCrypt oneUser [.setgid 0]).egid = rootGid := by
  refine ⟨built_oneUser, mem_oneUser, ordinary_userU, ?_, ?_, by decide⟩
  · intro call hc
    rw [mem_singleton.mp hc]
    trivial
  intro stays
  exact absurd (stays [.setgid 0] (prefix_refl _)).2 (by decide)

/-- A registered user without special rights gets to another identity only by
asking for the group 0. -/
theorem staysAs_iff_noGroupZero {crypt : CryptoString} {manager : UserAccountsManager}
    (built : UserAccountsManager.Built crypt manager) {user : UserInfo} (ordinary : Ordinary user)
    (own : manager.getByUid user.uid = some user) (plain : user.gid ≠ 0)
    {calls : List IdentityCall}
    (noPassword : ∀ call ∈ calls, NoForeignPassword crypt manager user call)
    (impUid impGid rdx : Nat) :
    StaysAs crypt manager user (startedAs user impUid impGid rdx) calls ↔ .setgid 0 ∉ calls := by
  rw [(holds_startedAs user impUid impGid rdx).staysAs_iff built.groupless ordinary noPassword]
  constructor
  · intro hh hc
    exact plain ((harmless_iff_of_own ordinary own _).mp (hh _ hc) rfl)
  intro hn call hc
  exact (harmless_iff_of_own ordinary own call).mpr fun hz => absurd (hz ▸ hc) hn

theorem staysAs_iff_noGroupZero_other :
    StaysAs plainCrypt oneUser userU (startedAs userU 0 0 0) [.setgid 1001] :=
  (staysAs_iff_noGroupZero built_oneUser ordinary_userU (by decide) (by decide)
    (by simp [NoForeignPassword]) 0 0 0).mpr (by decide)

end OoOS.Uam
