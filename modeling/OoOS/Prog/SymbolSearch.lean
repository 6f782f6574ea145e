import Mathlib.Tactic.Common

/-!
# The search for a symbol

`full_search` asks the program, the local and the global shared objects in turn.
-/

namespace OoOS.Prog

inductive SymbolBind
  | SB_LOCAL
  | SB_GLOBAL
  | SB_WEAK
  deriving DecidableEq

/-- What `resolve_by_name` returns: a name that is not defined gives a local symbol at null. -/
structure SymPair where
  bind : SymbolBind
  addr : Nat
  defined : addr = 0 ↔ bind = .SB_LOCAL

def globalSearch : List SymPair → (result : Nat) → (haveWeak : Bool) → Nat × Bool
  | [], result, haveWeak => (result, haveWeak)
  | pair :: rest, result, haveWeak =>
    if pair.addr = 0 then globalSearch rest result haveWeak
    else if pair.bind = .SB_GLOBAL then (pair.addr, true)
    else if pair.bind = .SB_WEAK then globalSearch rest pair.addr true
    else globalSearch rest result haveWeak

/-- The loop over the local objects, and what follows it. -/
def localSearch (globals : List SymPair) : List SymPair → (result : Nat) → Nat × Bool
  | [], result =>
    let gresult := globalSearch globals 0 false
    if gresult.2 = false ∧ result ≠ 0 then (result, true) else gresult
  | pair :: rest, result =>
    if pair.addr = 0 then localSearch globals rest result
    else if pair.bind = .SB_WEAK then localSearch globals rest pair.addr
    else (pair.addr, true)

/-- A static program has no symbols to search. -/
def fullSearch (program : Option SymPair) (locals globals : List SymPair) : Nat × Bool :=
  match program with
  | none => localSearch globals locals 0
  | some pair =>
    if pair.bind = .SB_WEAK then localSearch globals locals pair.addr
    else if pair.addr ≠ 0 then (pair.addr, true)
    else localSearch globals locals 0

/-- The first global definition, or else a weak one, or else the one that is known already. -/
def Finds (known : Nat) (objects : List SymPair) (found : Nat × Bool) : Prop :=
  match objects.find? (·.bind = .SB_GLOBAL) with
  | some pair => found = (pair.addr, true)
  | none =>
    if known = 0 ∧ ∀ pair ∈ objects, pair.bind ≠ .SB_WEAK then found = (0, false)
    else found.2 = true ∧ (found.1 = known ∧ known ≠ 0 ∨
        ∃ pair ∈ objects, pair.bind = .SB_WEAK ∧ found.1 = pair.addr)

variable {known : Nat} {pair : SymPair} {objects : List SymPair} {found : Nat × Bool}

lemma finds_local (undefined : pair.addr = 0) :
    Finds known (pair :: objects) found ↔ Finds known objects found := by
  simp [Finds, pair.defined.mp undefined]

lemma finds_global (isGlobal : pair.bind = .SB_GLOBAL) :
    Finds known (pair :: objects) (pair.addr, true) := by
  simp [Finds, isGlobal]

lemma Finds.weak (isWeak : pair.bind = .SB_WEAK) (finds : Finds pair.addr objects found) :
    Finds known (pair :: objects) found := by
  have hn : pair.addr ≠ 0 := fun h => by simp [pair.defined.mp h] at isWeak
  simp only [Finds, List.find?_cons, isWeak, reduceCtorEq, decide_false] at finds ⊢
  split
  · simp_all
  · simp_all

lemma Finds.later (finds : Finds 0 objects found) :
    Finds known objects (if found.2 = false ∧ known ≠ 0 then (known, true) else found) := by
  simp only [Finds] at finds ⊢
  split at finds
  · simp [finds]
  split at finds
  · rw [finds]
    split <;> simp_all
  · rename_i hw
    grind

lemma SymPair.global (defined : pair.addr ≠ 0) (notWeak : pair.bind ≠ .SB_WEAK) :
    pair.bind = .SB_GLOBAL := by
  have hl := mt pair.defined.mpr defined
  cases hb : pair.bind <;> simp_all

lemma finds_globalSearch (globals : List SymPair) (result : Nat) (haveWeak : Bool)
    (weak : haveWeak = true ↔ result ≠ 0) :
    Finds result globals (globalSearch globals result haveWeak) := by
  induction globals generalizing result haveWeak with
  | nil => cases haveWeak <;> simp_all [Finds, globalSearch]
  | cons pair rest ih =>
    rw [globalSearch]
    split_ifs with hn hg hw
    · exact (finds_local hn).mpr (ih result haveWeak weak)
    · exact finds_global hg
    · exact (ih pair.addr true (by simpa using hn)).weak hw
    · exact absurd (SymPair.global hn hw) hg

lemma finds_localSearch (locals globals : List SymPair) (result : Nat) :
    Finds result (locals ++ globals) (localSearch globals locals result) := by
  induction locals generalizing result with
  | nil => exact (finds_globalSearch globals 0 false (by simp)).later
  | cons pair rest ih =>
    rw [localSearch]
    split_ifs with hn hw
    · exact (finds_local hn).mpr (ih result)
    · exact (ih pair.addr).weak hw
    · exact finds_global (SymPair.global hn hw)

theorem finds_fullSearch (program : Option SymPair) (locals globals : List SymPair) :
    Finds 0 (program.toList ++ (locals ++ globals)) (fullSearch program locals globals) := by
  have hl := finds_localSearch locals globals
  cases program with
  | none => exact hl 0
  | some pair =>
    rw [fullSearch]
    split_ifs with hw hn
    · exact (hl pair.addr).weak hw
    · exact finds_global (SymPair.global hn hw)
    · exact (finds_local (not_not.mp hn)).mpr (hl 0)

end OoOS.Prog
