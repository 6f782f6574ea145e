import Mathlib.Data.Set.Lattice
import Mathlib.Order.CompletePartialOrder

/-!
# Ownership of cells

A table marks some cells as used: the reserved ones, and those that belong to
exactly one of a list of owners.
-/

namespace OoOS.Lib

open List

universe u v

variable {Owner : Type u} {Cell : Type v}

/-- The marks are the reserved cells and the cells of the owners, disjointly. -/
structure Owns (cells : Owner → Set Cell) (reserved used : Set Cell)
    (owners : List Owner) : Prop where
  exact : used = reserved ∪ {cell | ∃ owner ∈ owners, cell ∈ cells owner}
  fresh : ∀ owner ∈ owners, Disjoint (cells owner) reserved
  apart : owners.Pairwise
    (fun left right => Disjoint (cells left) (cells right))

variable {cells : Owner → Set Cell} {reserved used : Set Cell} {owners : List Owner} {owner : Owner}

lemma Owns.empty : Owns cells reserved reserved [] where
  exact := by simp
  fresh := by simp
  apart := List.Pairwise.nil

section

variable (owns : Owns cells reserved used owners)

include owns

lemma Owns.reserved_subset : reserved ⊆ used := by
  rw [owns.exact]
  exact Set.subset_union_left

lemma Owns.cells_subset (mem : owner ∈ owners) :
    cells owner ⊆ used := by
  rw [owns.exact]
  intro _ hic
  exact .inr ⟨owner, mem, hic⟩

lemma Owns.acquire (unmarked : Disjoint (cells owner) used) :
    Owns cells reserved (used ∪ cells owner) (owners ++ [owner]) where
  exact := by
    ext cell
    simp only [owns.exact, Set.mem_union, Set.mem_ofPred_eq, mem_append, mem_singleton]
    constructor
    · rintro ((hr | ⟨holder, mem, held⟩) | new)
      · exact .inl hr
      · exact .inr ⟨holder, .inl mem, held⟩
      · exact .inr ⟨owner, .inr rfl, new⟩
    rintro (hr | ⟨holder, mem | rfl, held⟩)
    · exact .inl (.inl hr)
    · exact .inl (.inr ⟨holder, mem, held⟩)
    · exact .inr held
  fresh := by
    intro holder mem
    rcases mem_append.mp mem with old | new
    · exact owns.fresh holder old
    rw [mem_singleton.mp new]
    exact unmarked.mono_right owns.reserved_subset
  apart := by
    refine pairwise_append.mpr ⟨owns.apart, pairwise_singleton _ _, ?_⟩
    intro holder old _ new
    rw [mem_singleton.mp new]
    exact (unmarked.mono_right (owns.cells_subset old)).symm

end

lemma Owns.disjoint_of_ne (owns : Owns cells reserved used owners) {first second : Nat}
    {left right : Owner} (atFirst : owners[first]? = some left)
    (atSecond : owners[second]? = some right)
    (ne : first ≠ second) : Disjoint (cells left) (cells right) := by
  obtain ⟨hfb, hfe⟩ := List.getElem?_eq_some_iff.mp atFirst
  obtain ⟨hsb, hse⟩ := List.getElem?_eq_some_iff.mp atSecond
  have ho := pairwise_iff_getElem.mp owns.apart
  rcases Nat.lt_or_gt_of_ne ne with hb | after
  · have apart := ho first second hfb hsb hb
    rwa [hfe, hse] at apart
  have apart := ho second first hsb hfb after
  rw [hfe, hse] at apart
  exact apart.symm

lemma Owns.release (owns : Owns cells reserved used owners)
    {position : Nat} (found : owners[position]? = some owner) :
    Owns cells reserved (used \ cells owner)
      (owners.eraseIdx position) where
  exact := by
    have mem := mem_of_getElem? found
    ext cell
    simp only [owns.exact, Set.mem_sdiff, Set.mem_union, Set.mem_ofPred_eq]
    constructor
    · rintro ⟨hr | ⟨holder, holds, held⟩, hnc⟩
      · exact .inl hr
      obtain ⟨index, hai⟩ := getElem?_of_mem holds
      have other : index ≠ position := by
        rintro rfl
        rw [hai] at found
        exact hnc (Option.some.inj found ▸ held)
      exact .inr ⟨holder, mem_eraseIdx_iff_getElem?.mpr ⟨index, other, hai⟩, held⟩
    rintro (hr | ⟨holder, hre, held⟩)
    · exact ⟨.inl hr, fun hic => Set.disjoint_left.mp (owns.fresh owner mem) hic hr⟩
    obtain ⟨index, other, hai⟩ := mem_eraseIdx_iff_getElem?.mp hre
    refine ⟨.inr ⟨holder, mem_of_getElem? hai, held⟩, ?_⟩
    exact Set.disjoint_left.mp (owns.disjoint_of_ne hai found other) held
  fresh := fun holder hre => owns.fresh holder (mem_of_mem_eraseIdx hre)
  apart := owns.apart.sublist (eraseIdx_sublist _ _)

end OoOS.Lib
