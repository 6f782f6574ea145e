import OoOS.Fs.SysfsTable
import OoOS.Uam.Database

/-!
# The hash table of the accounts

`user_accounts_table` is a `sysfs_hash_table` of the records under their login names.
Its links depend on the order in which the records were added, and on nothing of them
but the names.
-/

namespace OoOS.Uam

open List Fs.SysfsTable

/-- What `username_equals` sees of a name. -/
def nameKey (name : Text) : Text := cut (usernameMaxLen + 1) name

/-- `username_extract` -/
def UserInfo.nameKey (user : UserInfo) : Text := Uam.nameKey user.loginKey

/-- `username_hash`, in 32 bits. -/
def usernameHash (key : Text) : Nat :=
  (cut usernameMaxLen key).foldl (fun h byte => (h + byte.toNat + h * 2 ^ 5) % 2 ^ 32) 5381

/-- The table after the records were added to a new one. -/
def hashed (fresh : HashTable UserInfo) (fuel : Nat) (table : List UserInfo) :
    Option (HashTable UserInfo) :=
  table.foldlM (fun hashTable user =>
    step usernameHash UserInfo.nameKey hashTable fuel (.add user)) fresh

/-- `find_value_index` in the table of the records; a search that does not end
finds nothing. -/
def byHash (fresh : HashTable UserInfo) (fuel : Nat) : Lookup := fun table key => do
  let hashTable ← hashed fresh fuel table
  let index ← hashTable.findValueIndex usernameHash UserInfo.nameKey fuel (nameKey key)
  if index = 0 then none else some index

/-- Each record finds its chain when it is added. -/
def Chained (fresh : HashTable UserInfo) (table : List UserInfo) : Prop :=
  Fitting usernameHash UserInfo.nameKey fresh [] (table.map .add)

lemma byName_eq (table : List UserInfo) (key : Text) :
    byName table key = (table.findIdx? (·.nameKey = nameKey key)).map (· + 1) :=
  rfl

variable {fresh : HashTable UserInfo} (buckets : 0 < fresh.numBuckets)
  (noEntries : fresh.numEntries = 0)
  (empty : ∀ bucket < fresh.numBuckets, fresh.links (.bucket bucket) = 0)

include buckets noEntries empty in
/-- In a table of chained records a name leads to its first record. -/
lemma byHash_eq_byName {table : List UserInfo} (distinct : (table.map UserInfo.nameKey).Nodup)
    (chained : Chained fresh table) (key : Text) :
    ∃ bound, ∀ fuel, bound < fuel → byHash fresh fuel table key = byName table key := by
  obtain ⟨after, stores, sameBuckets, addBound, added⟩ :=
    (stores_nil noEntries empty).addAll buckets distinct chained
  obtain ⟨findBound, found⟩ := stores.findValueIndex_eq (sameBuckets ▸ buckets) (nameKey key)
  refine ⟨max addBound findBound, fun fuel enough => ?_⟩
  have addedAll : hashed fresh fuel table = some after := added fuel (by omega)
  have search := (found fuel).resolve_right (by omega)
  rw [nil_append] at search
  rw [byHash, addedAll, byName_eq]
  cases first : table.findIdx? (·.nameKey = nameKey key) with
  | none =>
    rw [first] at search
    simp [search]
  | some index =>
    rw [first] at search
    simp [search]

namespace UserAccountsManager

variable {crypt : CryptoString} {lookup other : Lookup} {manager : UserAccountsManager}
  {call : CreateCall}

/-- A call looks for the name that it is given and for the name of its record. -/
lemma create_congr
    (sameName : lookup manager.table (call.request.name ++ [0]) =
      other manager.table (call.request.name ++ [0]))
    (sameRecord : lookup manager.table (manager.account crypt call).loginKey =
      other manager.table (manager.account crypt call).loginKey) :
    manager.create crypt lookup call = manager.create crypt other call := by
  have sameAdd : add lookup manager.table (manager.account crypt call) =
      add other manager.table (manager.account crypt call) := by
    rw [add, add, sameRecord]
  simp only [create, writeStrings, record, sameName, sameAdd]

lemma nodup_add {table : List UserInfo} (distinct : (table.map UserInfo.nameKey).Nodup)
    (account : UserInfo) : ((add byName table account).1.map UserInfo.nameKey).Nodup := by
  unfold add
  cases found : byName table account.loginKey with
  | some index => exact distinct
  | none =>
    have unknown := findIdx?_eq_none_iff.mp (Option.map_eq_none_iff.mp found)
    rw [map_append, nodup_append]
    refine ⟨distinct, by simp, fun old listed key isNew same => ?_⟩
    obtain ⟨user, stored, rfl⟩ := mem_map.mp listed
    rw [map_singleton, mem_singleton] at isNew
    exact absurd (same.trans isNew) (of_decide_eq_false (unknown user stored))

/-- The places of the strings are not part of the name. -/
lemma map_nameKey_set (table : List UserInfo) (index : Nat) (account : UserInfo)
    (places : VpwdPlaces) :
    (table.set index { table.getD index account with vpwd := places }).map UserInfo.nameKey =
      table.map UserInfo.nameKey := by
  rw [map_set]
  change (table.map UserInfo.nameKey).set index (table.getD index account).nameKey = _
  by_cases inside : index < table.length
  · have listed : index < (table.map UserInfo.nameKey).length := by simpa using inside
    have stored : (table.getD index account).nameKey = (table.map UserInfo.nameKey)[index] := by
      simp [inside]
    rw [stored, set_getElem_self]
  · rw [set_eq_of_length_le (by simpa using inside)]

/-- No call gives a name to two records. -/
lemma nodup_create (distinct : (manager.table.map UserInfo.nameKey).Nodup) (call : CreateCall) :
    ((manager.create crypt byName call).2.table.map UserInfo.nameKey).Nodup := by
  by_cases long : usernameMaxLen < call.request.name.length
  · rwa [create, if_pos long]
  by_cases taken : (byName manager.table (call.request.name ++ [0])).isSome
  · rwa [create, if_neg long, if_pos taken]
  by_cases writes : Writes crypt byName manager call
  · obtain ⟨places, written⟩ := writes
    rw [create_of_writes long taken written]
    change ((((add byName manager.table _).1.set _ _)).map UserInfo.nameKey).Nodup
    rw [record, map_nameKey_set]
    exact nodup_add distinct _
  · rw [(create_table_of_not_writes long taken writes).1]
    exact nodup_add distinct _

variable {calls : List CreateCall}

include buckets noEntries empty

/-- As long as the records of a run are chained, every call of it does with the hash
table what it does with the list. -/
lemma along_byHash (distinct : (manager.table.map UserInfo.nameKey).Nodup)
    (chained : Along crypt byName (fun manager _ => Chained fresh manager.table) manager calls) :
    ∃ bound, ∀ fuel, bound < fuel → Along crypt byName (fun manager call =>
      manager.create crypt (byHash fresh fuel) call = manager.create crypt byName call)
      manager calls := by
  induction calls generalizing manager with
  | nil => exact ⟨0, fun _ _ => trivial⟩
  | cons call calls ih =>
    have same := byHash_eq_byName buckets noEntries empty distinct chained.1
    obtain ⟨nameBound, sameName⟩ := same (call.request.name ++ [0])
    obtain ⟨recordBound, sameRecord⟩ := same (manager.account crypt call).loginKey
    obtain ⟨laterBound, later⟩ := ih (nodup_create distinct call) chained.2
    refine ⟨max (max nameBound recordBound) laterBound, fun fuel enough => ⟨?_, ?_⟩⟩
    · exact create_congr (sameName fuel (by omega)) (sameRecord fuel (by omega))
    · exact later fuel (by omega)

lemma initInstance_along_byHash (setting : Text) (unset : GlobalAccountsInfo) (vpwd : StringTable)
    (chained : Along crypt byName (fun manager _ => Chained fresh manager.table)
      (initInstance crypt setting unset vpwd) calls) :
    ∃ bound, ∀ fuel, bound < fuel → Along crypt byName (fun manager call =>
      manager.create crypt (byHash fresh fuel) call = manager.create crypt byName call)
      (initInstance crypt setting unset vpwd) calls := by
  have onlyRoot : ((initInstance crypt setting unset vpwd).table.map UserInfo.nameKey).Nodup :=
    nodup_singleton _
  exact along_byHash buckets noEntries empty onlyRoot chained

end UserAccountsManager

end OoOS.Uam
