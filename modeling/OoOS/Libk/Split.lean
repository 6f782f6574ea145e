import Mathlib.Data.List.Basic

/-!
# Splitting and joining strings

`std::ext::split` and `std::ext::join` around a delimiter of one character.  A
delimiter at the end of the string does not start another piece.
-/

namespace OoOS.Libk

open List

variable {α : Type*}

def join (delim : α) : List (List α) → List α
  | [] => []
  | [last] => last
  | piece :: next :: rest => piece ++ delim :: join delim (next :: rest)

variable {pieces : List (List α)}

lemma join_ne_nil {delim : α}
    (notNil : pieces ≠ []) (lastNotNil : pieces.getLast notNil ≠ []) : join delim pieces ≠ [] := by
  match pieces with
  | [_] => exact lastNotNil
  | piece :: next :: rest =>
    intro isNil
    exact cons_ne_nil _ _ (append_eq_nil_iff.mp isNil).2

variable [DecidableEq α]

def splitFrom (delim : α) (piece : List α) : List α → List (List α)
  | [] => [piece]
  | value :: rest =>
    if value = delim then
      if rest = [] then [piece] else piece :: splitFrom delim [] rest
    else splitFrom delim (piece ++ [value]) rest

def split (delim : α) (str : List α) : List (List α) := splitFrom delim [] str

lemma split_ne_nil (delim : α) (str : List α) : split delim str ≠ [] := by
  have hnn : ∀ piece, splitFrom delim piece str ≠ [] := by
    induction str with
    | nil => exact fun piece => cons_ne_nil piece []
    | cons value _ ih =>
      intro piece
      unfold splitFrom
      split
      · split
        · exact cons_ne_nil piece []
        · exact cons_ne_nil piece _
      · exact ih (piece ++ [value])
  exact hnn []

variable {delim : α} {piece str found : List α}

/-- No piece contains the delimiter. -/
lemma not_mem_of_mem_splitFrom
    (notMem : delim ∉ piece) (isPiece : found ∈ splitFrom delim piece str) : delim ∉ found := by
  induction str generalizing piece with
  | nil =>
    rw [mem_singleton.mp isPiece]
    exact notMem
  | cons _ _ ih =>
    unfold splitFrom at isPiece
    split at isPiece
    · split at isPiece
      · rw [mem_singleton.mp isPiece]
        exact notMem
      rcases mem_cons.mp isPiece with hf | hl
      · rw [hf]
        exact notMem
      · exact ih not_mem_nil hl
    rename_i notDelim
    apply ih _ isPiece
    intro isMem
    rcases mem_append.mp isMem with hb | hv
    · exact notMem hb
    · exact notDelim (mem_singleton.mp hv).symm

lemma not_mem_of_mem_split (isPiece : piece ∈ split delim str) : delim ∉ piece :=
  not_mem_of_mem_splitFrom not_mem_nil isPiece

lemma splitFrom_append (piece : List α) {more : List α} (notMem : delim ∉ more) (rest : List α) :
    splitFrom delim piece (more ++ rest) = splitFrom delim (piece ++ more) rest := by
  induction more generalizing piece with
  | nil => rw [nil_append, append_nil]
  | cons value more ih =>
    have hnd : value ≠ delim := fun hd => notMem (hd ▸ mem_cons_self)
    rw [cons_append, splitFrom, if_neg hnd, ih (piece ++ [value])
        (fun isMem => notMem (mem_cons_of_mem value isMem)), append_assoc, singleton_append]

lemma split_of_not_mem (notMem : delim ∉ piece) : split delim piece = [piece] := by
  have hs := splitFrom_append [] notMem []
  rw [append_nil, nil_append] at hs
  exact hs

lemma split_append {rest : List α} (notMem : delim ∉ piece) (notNil : rest ≠ []) :
    split delim (piece ++ delim :: rest) = piece :: split delim rest := by
  unfold split
  rw [splitFrom_append [] notMem, splitFrom, if_pos rfl, if_neg notNil, nil_append]

lemma split_join (notNil : pieces ≠ []) (lastNotNil : pieces.getLast notNil ≠ [])
    (notMem : ∀ piece ∈ pieces, delim ∉ piece) : split delim (join delim pieces) = pieces := by
  induction pieces with
  | nil => exact absurd rfl notNil
  | cons piece rest ih =>
    have first := notMem piece mem_cons_self
    cases rest with
    | nil => exact split_of_not_mem first
    | cons next rest =>
      have hrnn := cons_ne_nil next rest
      rw [join, split_append first (join_ne_nil hrnn lastNotNil), ih hrnn lastNotNil
          (forall_mem_cons.mp notMem).2]

end OoOS.Libk
