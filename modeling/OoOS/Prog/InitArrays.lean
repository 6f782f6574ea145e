import Mathlib.Tactic.Common

/-!
# Initialisers and finalisers of an object

They are collected when an object is loaded; three system calls copy them out, here for
a valid handle whose symbols resolve and with memory for the result.
-/

namespace OoOS.Prog

/-- `DT_INIT` and `DT_FINI`, and the arrays in memory, which are empty if the object has none. -/
structure DynamicObject where
  initFn : Option Nat := none
  finiFn : Option Nat := none
  initPtrs : List Nat := []
  finiPtrs : List Nat := []
  preinitPtrs : List Nat := []
  isExecutable : Bool := false

/-- `push_back` of the range between two reverse iterators, at their distances from the end. -/
def pushBackReversed (vector source : List Nat) (start stop : Nat) : List Nat :=
  if start < stop then vector ++ (source.reverse.take stop).drop start else vector

/-- A list with a null behind it, copied from `data`; there is nothing behind its elements. -/
def copyOut (data : List Nat) (len : Nat) : Option (List Nat) :=
  if len ≤ data.length then some (data.take len ++ [0]) else none

namespace DynamicObject

variable (object : DynamicObject)

def initArray : List Nat := object.initFn.toList ++ object.initPtrs

def finiArray : List Nat :=
  let finiReverseArray := object.finiFn.toList ++ object.finiPtrs
  if finiReverseArray = [] then []
  else pushBackReversed [] finiReverseArray finiReverseArray.length 0

def preinitArray : List Nat := if object.isExecutable then object.preinitPtrs else []

def syscallDlinit : Option (List Nat) := copyOut object.initArray object.initArray.length

def syscallDlfini : Option (List Nat) := copyOut object.initArray object.finiArray.length

def syscallDlpreinit : Option (List Nat) :=
  if object.isExecutable then copyOut object.initArray object.preinitArray.length
  else some [0]

structure Lists : Prop where
  init : object.syscallDlinit = some (object.initFn.toList ++ object.initPtrs ++ [0])
  fini : object.syscallDlfini = some (object.finiPtrs.reverse ++ object.finiFn.toList ++ [0])
  preinit : object.syscallDlpreinit = some (object.preinitPtrs ++ [0])

variable {object}

lemma copyOut_eq_iff {data list : List Nat} :
    copyOut data list.length = some (list ++ [0]) ↔ list <+: data := by
  rw [copyOut, List.prefix_iff_eq_take]
  constructor
  · intro h
    split at h
    · simpa [eq_comm] using h
    · cases h
  intro h
  rw [if_pos (h ▸ List.length_take_le' _ _), ← h]

lemma syscallDlfini_eq : object.syscallDlfini = some [0] := by
  simp [syscallDlfini, finiArray, pushBackReversed, copyOut]

/-- The finalisers are never collected, and the calls for them and for the
preinitialisers copy from the initialisers. -/
theorem lists_iff (object : DynamicObject) :
    object.Lists ↔ object.finiFn = none ∧ object.finiPtrs = [] ∧
      if object.isExecutable then object.preinitPtrs <+: object.initFn.toList ++ object.initPtrs
      else object.preinitPtrs = [] := by
  have hi : object.syscallDlinit = some (object.initArray ++ [0]) :=
    copyOut_eq_iff.mpr (List.prefix_refl _)
  have hp : object.syscallDlpreinit = some (object.preinitPtrs ++ [0]) ↔
      if object.isExecutable then object.preinitPtrs <+: object.initArray
      else object.preinitPtrs = [] := by
    rw [syscallDlpreinit, preinitArray]
    split
    · exact copyOut_eq_iff
    · simp
  constructor
  · intro h
    have hf := h.fini
    simp only [syscallDlfini_eq, Option.some.injEq, List.self_eq_append_left,
      List.append_eq_nil_iff, List.reverse_eq_nil_iff, Option.toList_eq_nil_iff] at hf
    exact ⟨hf.2, hf.1, hp.mp h.preinit⟩
  rintro ⟨hf, hr, hpr⟩
  exact ⟨hi, by simp [syscallDlfini_eq, hf, hr], hp.mpr hpr⟩

theorem not_lists_fini : ¬ Lists { finiFn := some 1 } := by
  intro h
  cases h.fini

end DynamicObject

end OoOS.Prog
