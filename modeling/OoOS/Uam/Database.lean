import OoOS.Uam.Accounts

/-!
# Consistency of the account database

Accounts are created in the table, in the map from user numbers to places in
the table and in the counters, one after the other.
-/

namespace OoOS.Uam.UserAccountsManager

open List

structure Consistent (manager : UserAccountsManager) : Prop where
  nodup : (manager.table.map UserInfo.uid).Nodup
  uidIndexMap : ∀ uid index, manager.uidIndexMap uid = some index ↔
    0 < index ∧ (manager.table.map UserInfo.uid)[index - 1]? = some uid
  numUsers : manager.globalInfo.numUsers = manager.table.length

/-- The table, the map and the counters are as they were; strings may have been
written. -/
structure Kept (manager after : UserAccountsManager) : Prop where
  table : after.table = manager.table
  uidIndexMap : after.uidIndexMap = manager.uidIndexMap
  globalInfo : after.globalInfo = manager.globalInfo

variable (crypt : CryptoString) (lookup : Lookup)

structure Right (manager : UserAccountsManager) (call : CreateCall) : Prop where
  consistent : (manager.create crypt lookup call).2.Consistent
  unchanged : ∀ code < 0, (manager.create crypt lookup call).1 = some code →
    manager.Kept (manager.create crypt lookup call).2

/-- The strings of the call's record can be written. -/
def Writes (manager : UserAccountsManager) (call : CreateCall) : Prop :=
  ∃ places, (manager.writeStrings crypt lookup call).1 = some (some places)

/-- The call is refused at once, or the name and the number of its record are new
and its strings can be written. -/
def Fits (manager : UserAccountsManager) (call : CreateCall) : Prop :=
  usernameMaxLen < call.request.name.length ∨
    (lookup manager.table (call.request.name ++ [0])).isSome ∨
    if (lookup manager.table (manager.account crypt call).loginKey).isSome then
      ¬ Writes crypt lookup manager call
    else Writes crypt lookup manager call ∧
      (manager.account crypt call).uid ∉ manager.table.map UserInfo.uid

def Along (holds : UserAccountsManager → CreateCall → Prop) :
    UserAccountsManager → List CreateCall → Prop
  | _, [] => True
  | manager, call :: calls =>
    holds manager call ∧ Along holds (manager.create crypt lookup call).2 calls

variable {crypt lookup} {manager after : UserAccountsManager} {call : CreateCall} {user : UserInfo}

lemma Kept.refl : manager.Kept manager := ⟨rfl, rfl, rfl⟩

lemma Kept.consistent (kept : manager.Kept after) (consistent : manager.Consistent) :
    after.Consistent := by
  constructor
  · rw [kept.table]
    exact consistent.nodup
  · rw [kept.table, kept.uidIndexMap]
    exact consistent.uidIndexMap
  · rw [kept.table, kept.globalInfo]
    exact consistent.numUsers

lemma right_of_kept (consistent : manager.Consistent)
    (kept : manager.Kept (manager.create crypt lookup call).2) :
    manager.Right crypt lookup call :=
  ⟨kept.consistent consistent, fun _ _ _ => kept⟩

/-- One more record keeps the database consistent exactly if its number is new: the map
keeps the first record of a number. -/
lemma Consistent.append_iff (consistent : manager.Consistent)
    (appended : after.table = manager.table ++ [user])
    (counted : after.globalInfo.numUsers = manager.globalInfo.numUsers + 1)
    (inserted : after.uidIndexMap =
      insertUid manager.uidIndexMap user.uid (manager.table.length + 1)) :
    after.Consistent ↔ user.uid ∉ manager.table.map UserInfo.uid := by
  constructor
  · intro afterConsistent known
    have distinct := afterConsistent.nodup
    rw [appended, map_append, nodup_append] at distinct
    exact distinct.2.2 _ known _ (by simp) rfl
  intro unknown
  have unmapped : manager.uidIndexMap user.uid = none := by
    cases mapped : manager.uidIndexMap user.uid with
    | none => rfl
    | some index =>
      exact absurd (mem_of_getElem? ((consistent.uidIndexMap _ _).mp mapped).2) unknown
  constructor
  · rw [appended, map_append]
    refine nodup_append.mpr ⟨consistent.nodup, by simp, fun old listed new isNew same => ?_⟩
    rw [same, mem_singleton.mp isNew] at listed
    exact unknown listed
  · intro uid index
    have before := consistent.uidIndexMap uid index
    rw [inserted, appended, map_append, insertUid, Function.update_apply, unmapped, getElem?_append]
    grind
  · rw [counted, appended, consistent.numUsers, length_append]
    rfl

section

variable (short : ¬ usernameMaxLen < call.request.name.length)
  (free : ¬ (lookup manager.table (call.request.name ++ [0])).isSome)

include short free

/-- The strings cannot be written: what is left of the call is the record in the table. -/
lemma create_table_of_not_writes (fails : ¬ Writes crypt lookup manager call) :
    (manager.create crypt lookup call).2.table =
        (add lookup manager.table (manager.account crypt call)).1 ∧
      (manager.create crypt lookup call).2.uidIndexMap = manager.uidIndexMap ∧
      (manager.create crypt lookup call).2.globalInfo = manager.globalInfo := by
  unfold create
  rw [if_neg short, if_neg free]
  rcases written : (manager.writeStrings crypt lookup call).1 with _ | _ | places
  · simp [written]
  · simp [written]
  · exact absurd ⟨places, written⟩ fails

lemma create_of_writes {places : VpwdPlaces}
    (written : (manager.writeStrings crypt lookup call).1 = some (some places)) :
    manager.create crypt lookup call = (some 0,
      { table := (add lookup manager.table (manager.account crypt call)).1.set
          ((add lookup manager.table (manager.account crypt call)).2 - 1)
          { manager.record crypt lookup call with vpwd := places }
        uidIndexMap := insertUid manager.uidIndexMap (manager.record crypt lookup call).uid
          (add lookup manager.table (manager.account crypt call)).2
        vpwd := (manager.writeStrings crypt lookup call).2
        globalInfo := manager.counted call }) := by
  unfold create
  rw [if_neg short, if_neg free]
  simp [written]

end

lemma numUsers_counted (manager : UserAccountsManager) (call : CreateCall) :
    (manager.counted call).numUsers = manager.globalInfo.numUsers + 1 := by
  cases call <;> rfl

section

variable (consistent : manager.Consistent)
  (short : ¬ usernameMaxLen < call.request.name.length)
  (free : ¬ (lookup manager.table (call.request.name ++ [0])).isSome)

include consistent short free

/-- `add` finds a record: the call must not go on to count it again. -/
lemma right_iff_of_found {index : Nat}
    (found : lookup manager.table (manager.account crypt call).loginKey = some index) :
    manager.Right crypt lookup call ↔ ¬ Writes crypt lookup manager call := by
  have same : (add lookup manager.table (manager.account crypt call)).1 = manager.table := by
    rw [add, found]
  constructor
  · rintro right ⟨places, written⟩
    have numUsers := right.consistent.numUsers
    rw [create_of_writes short free written] at numUsers
    simp only [numUsers_counted, length_set, same, consistent.numUsers] at numUsers
    omega
  intro fails
  obtain ⟨table, map, info⟩ := create_table_of_not_writes short free fails
  exact right_of_kept consistent ⟨table.trans same, map, info⟩

/-- `add` makes a record: it must not stay behind, and its number must be new. -/
lemma right_iff_of_added
    (added : lookup manager.table (manager.account crypt call).loginKey = none) :
    manager.Right crypt lookup call ↔ Writes crypt lookup manager call ∧
      (manager.account crypt call).uid ∉ manager.table.map UserInfo.uid := by
  have grown : add lookup manager.table (manager.account crypt call) =
      (manager.table ++ [manager.account crypt call], manager.table.length + 1) := by
    rw [add, added]
  have own : manager.record crypt lookup call = manager.account crypt call := by
    simp [record, grown]
  by_cases writes : Writes crypt lookup manager call
  · obtain ⟨places, written⟩ := writes
    have created := create_of_writes short free written
    have appended : (manager.create crypt lookup call).2.table =
        manager.table ++ [{ manager.account crypt call with vpwd := places }] := by
      simp [created, grown, own]
    have right_iff : manager.Right crypt lookup call ↔
        (manager.create crypt lookup call).2.Consistent := by
      refine ⟨Right.consistent, fun after => ⟨after, fun code negative result => ?_⟩⟩
      rw [created] at result
      have := Option.some.inj result
      omega
    rw [right_iff, consistent.append_iff appended (by rw [created]; exact numUsers_counted _ _)
      (by rw [created, grown, own])]
    exact (and_iff_right ⟨places, written⟩).symm
  refine iff_of_false (fun right => ?_) fun fits => writes fits.1
  obtain ⟨table, -, info⟩ := create_table_of_not_writes short free writes
  have numUsers := right.consistent.numUsers
  rw [table, info, grown, length_append, consistent.numUsers] at numUsers
  simp at numUsers

end

lemma create_right_iff (consistent : manager.Consistent) :
    manager.Right crypt lookup call ↔ Fits crypt lookup manager call := by
  unfold Fits
  by_cases long : usernameMaxLen < call.request.name.length
  · refine iff_of_true (right_of_kept consistent ?_) (.inl long)
    rw [create, if_pos long]
    exact .refl
  by_cases taken : (lookup manager.table (call.request.name ++ [0])).isSome
  · refine iff_of_true (right_of_kept consistent ?_) (.inr (.inl taken))
    rw [create, if_neg long, if_pos taken]
    exact .refl
  rw [or_iff_right long, or_iff_right taken]
  cases found : lookup manager.table (manager.account crypt call).loginKey with
  | some index =>
    rw [right_iff_of_found consistent long taken found, Option.isSome_some, if_pos rfl]
  | none =>
    rw [right_iff_of_added consistent long taken found, Option.isSome_none, if_neg (by decide)]

lemma along_iff (consistent : manager.Consistent) (calls : List CreateCall) :
    Along crypt lookup (Right crypt lookup) manager calls ↔
      Along crypt lookup (Fits crypt lookup) manager calls := by
  induction calls generalizing manager with
  | nil => rfl
  | cons call calls ih =>
    have right_iff : manager.Right crypt lookup call ↔ Fits crypt lookup manager call :=
      create_right_iff consistent
    constructor
    · rintro ⟨right, later⟩
      exact ⟨right_iff.mp right, (ih right.consistent).mp later⟩
    rintro ⟨fits, later⟩
    have right := right_iff.mpr fits
    exact ⟨right, (ih right.consistent).mpr later⟩

/-- The new database counts its root account on top of what `num_users` held. -/
lemma consistent_initInstance_iff (crypt : CryptoString) (setting : Text)
    (unset : GlobalAccountsInfo) (vpwd : StringTable) :
    (initInstance crypt setting unset vpwd).Consistent ↔ unset.numUsers = 0 := by
  constructor
  · intro consistent
    simpa [initInstance] using consistent.numUsers
  intro zero
  refine ⟨by simp [initInstance], fun uid index => ?_, by simp [initInstance, zero]⟩
  simp only [initInstance, insertUid, Function.update_apply, newAccount, rootUid]
  grind

/-- Exactly when the database is consistent along a run. -/
theorem database_consistent_iff (crypt : CryptoString) (lookup : Lookup) (setting : Text)
    (unset : GlobalAccountsInfo) (vpwd : StringTable) (calls : List CreateCall) :
    (initInstance crypt setting unset vpwd).Consistent ∧
        Along crypt lookup (Right crypt lookup) (initInstance crypt setting unset vpwd) calls ↔
      unset.numUsers = 0 ∧ Along crypt lookup (Fits crypt lookup)
        (initInstance crypt setting unset vpwd) calls := by
  rw [← consistent_initInstance_iff crypt setting unset vpwd]
  exact and_congr_right fun consistent => along_iff consistent calls

/-- The gecos of a first user is empty: `-ENOSPC`, and the record stays in the table. -/
theorem not_consistent_noSpace :
    ¬ Along (fun _ _ => []) byName (Right (fun _ _ => []) byName)
      (initInstance (fun _ _ => []) [] {} ⟨[], []⟩)
      [.createUser { name := [97], pw := [], setting := [], gecos := some [] }] := by
  intro right
  have table := congrArg List.length (right.1.unchanged (-eNoSpc) (by decide) (by decide)).table
  exact absurd table (by decide)

end OoOS.Uam.UserAccountsManager
