import OoOS.Uam.Accounts

/-!
# The strings of the accounts

The gecos, home and shell strings of all accounts are appended to one string
table.  `get_vpwd_entry` reads them back and packs them into one record.
-/

namespace OoOS.Uam

structure VpwdStrings where
  gecos : Text
  home : Text
  shell : Text
  gecos_string : gecos ≠ [] ∧ 0 ∉ gecos ∧ gecos.length ≤ 1023
  home_string : home ≠ [] ∧ 0 ∉ home ∧ home.length ≤ 1023
  shell_string : shell ≠ [] ∧ 0 ∉ shell ∧ shell.length ≤ 1023

structure VpwdEntry where
  gecosSize : Nat
  homeSize : Nat
  shellSize : Nat
  gecosHomeShell : Text

/-- `__load_vpwd_data`: the last terminator goes to the first byte of the shell;
`fresh` is never set. -/
def loadVpwdData (table : StringTable) (places : VpwdPlaces) (fresh : UInt8) :
    Option VpwdEntry := do
  let gecos ← table.read places.gecos
  let home ← table.read places.home
  let sh ← table.read places.shell
  return ⟨gecos.length, home.length, sh.length,
    gecos ++ 0 :: (home ++ 0 :: (sh ++ [fresh]).set 0 0)⟩

/-- The entry is three strings with their terminators, of the recorded sizes. -/
def VpwdEntry.Shows (entry : VpwdEntry) (strings : VpwdStrings) : Prop :=
  entry.gecosSize = strings.gecos.length ∧ entry.homeSize = strings.home.length ∧
    entry.shellSize = strings.shell.length ∧ entry.gecosHomeShell =
      strings.gecos ++ 0 :: (strings.home ++ 0 :: (strings.shell ++ [0]))

structure VpwdState where
  manager : UserAccountsManager
  created : List (Nat × VpwdStrings)

structure Creation where
  service : Bool
  request : Request
  strings : VpwdStrings

/-- The call with the strings as its arguments. -/
def Creation.call (creation : Creation) : CreateCall :=
  let request := { creation.request with
    gecos := some creation.strings.gecos
    home := some creation.strings.home
    shell := some creation.strings.shell }
  if creation.service then .createServiceAccount request else .createUser request

namespace VpwdState

/-- A successful call. -/
def create (crypt : CryptoString) (state : VpwdState) (creation : Creation) : Option VpwdState :=
  let (result, manager) := state.manager.create crypt byName creation.call
  if result = some 0 then some
    { manager := manager
      created := ((state.manager.account crypt creation.call).uid, creation.strings) ::
        state.created }
  else none

def getVpwdEntry (state : VpwdState) (uid : Nat) (fresh : UInt8) : Option VpwdEntry := do
  loadVpwdData state.manager.vpwd (← state.manager.getByUid uid).vpwd fresh

def ComesBack (state : VpwdState) : Prop :=
  ∀ account ∈ state.created, ∀ fresh, ∃ entry,
    state.getVpwdEntry account.1 fresh = some entry ∧ entry.Shows account.2

end VpwdState

open List Option

/-- The first byte of the shell is always zero. -/
lemma not_shows_loadVpwdData {table : StringTable} {places : VpwdPlaces} {fresh : UInt8}
    {entry : VpwdEntry} (loaded : loadVpwdData table places fresh = some entry)
    (strings : VpwdStrings) : ¬ entry.Shows strings := by
  rintro ⟨hgs, hhs, _, hp⟩
  simp only [loadVpwdData, bind_eq_bind, bind_eq_some_iff, Option.pure_def,
    some.injEq] at loaded
  obtain ⟨_, _, _, _, sh, _, rfl⟩ := loaded
  obtain ⟨_, hbg⟩ := append_inj hp hgs
  obtain ⟨_, hbh⟩ := append_inj (cons.inj hbg).2 hhs
  have hs := (cons.inj hbh).2
  obtain ⟨hne, hnz, _⟩ := strings.shell_string
  obtain ⟨_, _, hsh⟩ := exists_cons_of_ne_nil hne
  have heads := congrArg head? hs
  rw [hsh] at hnz heads
  cases sh <;> simp at heads <;> simp [← heads] at hnz

namespace VpwdState

lemma not_comesBack {state : VpwdState} {account : Nat × VpwdStrings}
    (isCreated : account ∈ state.created) : ¬ state.ComesBack := by
  intro back
  obtain ⟨_, found, shows⟩ := back account isCreated 0
  obtain ⟨_, _, hl⟩ := bind_eq_some_iff.mp found
  exact not_shows_loadVpwdData hl account.2 shows

variable {crypt : CryptoString}

lemma length_created_create {state next : VpwdState} {call : Creation}
    (done : state.create crypt call = some next) :
    next.created.length = state.created.length + 1 := by
  simp only [create, ite_none_right_eq_some, some.injEq] at done
  rw [← done.2, length_cons]

lemma length_created {calls : List Creation} {state final : VpwdState}
    (done : calls.foldlM (create crypt) state = some final) :
    final.created.length = state.created.length + calls.length := by
  induction calls generalizing state with
  | nil => rw [← some.inj done, length_nil, Nat.add_zero]
  | cons call calls ih =>
    obtain ⟨_, hn, later⟩ := bind_eq_some_iff.mp done
    rw [ih later, length_created_create hn, length_cons]
    omega

/-- Over every sequence of successful calls the strings come back only if there
was no call at all. -/
theorem comesBack_iff_nil (crypt : CryptoString) {state final : VpwdState} {calls : List Creation}
    (first : state.created = []) (done : calls.foldlM (create crypt) state = some final) :
    final.ComesBack ↔ calls = [] := by
  have length := length_created done
  rw [first, length_nil, Nat.zero_add] at length
  cases isCreated : final.created with
  | nil =>
    rw [isCreated] at length
    refine ⟨fun _ => length_eq_zero_iff.mp length.symm, fun _ account member => ?_⟩
    rw [isCreated] at member
    cases member
  | cons account _ =>
    refine ⟨fun hb => absurd hb (not_comesBack (isCreated ▸ mem_cons_self)), ?_⟩
    rintro rfl
    rw [isCreated] at length
    cases length

def newSystem : VpwdState := ⟨.initInstance (fun _ _ => []) [] {} ⟨[], []⟩, []⟩

/-- The users "a" and "b". -/
def twoUsers : List Creation :=
  [⟨false, { name := [97], pw := [], setting := [] },
      ⟨[103], [47], [115], by decide, by decide, by decide⟩⟩,
    ⟨false, { name := [98], pw := [], setting := [] },
      ⟨[104], [47], [115], by decide, by decide, by decide⟩⟩]

theorem comesBack_iff_nil_twoUsers : ∃ final,
    twoUsers.foldlM (create fun _ _ => []) newSystem = some final ∧ ¬ final.ComesBack := by
  have created : (twoUsers.foldlM (create fun _ _ => []) newSystem).isSome = true := by decide
  obtain ⟨final, done⟩ := isSome_iff_exists.mp created
  exact ⟨final, done, mt (comesBack_iff_nil _ rfl done).mp (cons_ne_nil _ _)⟩

/-- User "a" with the gecos string "g", the home "/" and the shell "s". -/
theorem not_comesBack_oneUser : ∃ final, newSystem.create (fun _ _ => [])
      ⟨false, { name := [97], pw := [], setting := [] },
        ⟨[103], [47], [115], by decide, by decide, by decide⟩⟩ = some final ∧
    ¬ final.ComesBack :=
  ⟨_, rfl, not_comesBack mem_cons_self⟩

end VpwdState

end OoOS.Uam
