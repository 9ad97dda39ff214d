import Mathlib.Data.List.Perm.Basic
import Mathlib.Data.List.Nodup
import Mathlib.Logic.Function.Basic

/-!
# Ownership of blocks

A store hands out blocks from a free list.  Each role of the store holds one
block.  `Owned` says that no block has two holders and that no held block is
free; exchanging the block of a role with a free one keeps it.
-/

namespace OpenNfm.Program

variable {Role Block : Type}

/-- Every role in `valid` holds a block of its own that is not free, and the
free blocks are distinct. -/
structure Owned (valid : Role → Prop) (usable : Block → Prop) (holder : Role → Block)
    (free : List Block) : Prop where
  held : ∀ role, valid role → usable (holder role)
  spare : ∀ block ∈ free, usable block
  injective : ∀ role other, valid role → valid other → holder role = holder other → role = other
  apart : ∀ role, valid role → holder role ∉ free
  nodup : free.Nodup

namespace Owned

variable {valid : Role → Prop} {usable : Block → Prop} {holder : Role → Block}
  {free : List Block}

theorem free_perm {free' : List Block} (owned : Owned valid usable holder free)
    (perm : free'.Perm free) : Owned valid usable holder free' where
  held := owned.held
  spare block inside := owned.spare block (perm.mem_iff.mp inside)
  injective := owned.injective
  apart role isValid inside := owned.apart role isValid (perm.mem_iff.mp inside)
  nodup := perm.nodup_iff.mpr owned.nodup

theorem congr {holder' : Role → Block} (owned : Owned valid usable holder free)
    (same : ∀ role, valid role → holder' role = holder role) :
    Owned valid usable holder' free where
  held role isValid := same role isValid ▸ owned.held role isValid
  spare := owned.spare
  injective role other isValid otherValid equal :=
    owned.injective role other isValid otherValid
      (by rw [← same role isValid, ← same other otherValid, equal])
  apart role isValid := same role isValid ▸ owned.apart role isValid
  nodup := owned.nodup

/-- A role gives its block back and takes a free one. -/
theorem exchange [DecidableEq Role] [DecidableEq Block] {role : Role} {block : Block}
    {free' : List Block} (owned : Owned valid usable holder free) (isValid : valid role)
    (isFree : block ∈ free) (perm : free'.Perm (holder role :: free.erase block)) :
    Owned valid usable (Function.update holder role block) free' := by
  have member : ∀ other, other ∈ free' ↔ other = holder role ∨ other ∈ free ∧ other ≠ block := by
    intro other
    rw [perm.mem_iff, List.mem_cons, owned.nodup.mem_erase_iff, and_comm]
  have taken : ∀ other, valid other → holder other ≠ block := by
    rintro other otherValid rfl
    exact owned.apart other otherValid isFree
  refine ⟨?_, ?_, ?_, ?_, ?_⟩
  · intro other otherValid
    by_cases same : other = role
    · rw [same, Function.update_self]
      exact owned.spare block isFree
    · rw [Function.update_of_ne same]
      exact owned.held other otherValid
  · intro other inside
    rcases (member other).mp inside with rfl | ⟨inside, _⟩
    · exact owned.held role isValid
    · exact owned.spare other inside
  · intro first second firstValid secondValid equal
    by_cases firstSame : first = role <;> by_cases secondSame : second = role
    · rw [firstSame, secondSame]
    · rw [firstSame, Function.update_self, Function.update_of_ne secondSame] at equal
      exact absurd equal.symm (taken second secondValid)
    · rw [secondSame, Function.update_self, Function.update_of_ne firstSame] at equal
      exact absurd equal (taken first firstValid)
    · rw [Function.update_of_ne firstSame, Function.update_of_ne secondSame] at equal
      exact owned.injective first second firstValid secondValid equal
  · intro other otherValid inside
    by_cases same : other = role
    · rw [same, Function.update_self] at inside
      rcases (member block).mp inside with equal | ⟨_, different⟩
      · exact taken role isValid equal.symm
      · exact different rfl
    · rw [Function.update_of_ne same] at inside
      rcases (member _).mp inside with equal | ⟨isFree', _⟩
      · exact same (owned.injective other role otherValid isValid equal)
      · exact owned.apart other otherValid isFree'
  · rw [perm.nodup_iff, List.nodup_cons]
    exact ⟨fun inside => owned.apart role isValid (List.mem_of_mem_erase inside),
      owned.nodup.erase block⟩

end Owned

end OpenNfm.Program
