import OpenNfm.Core.Cmn
import OpenNfm.Program.Code
import Mathlib.Logic.Function.Basic

/-!
# The FTL as the sector layer sees it

The sector layer calls `FTL_Read` and `FTL_Write` on whole pages.  A page is a
function from sector offsets to sectors.  A write hands a buffer of the pool, or
memory of the host, to the FTL.  Every answer lists the pool buffers that the FTL
has handed back through `BUF_Free` on the way; a read may do so too, when it makes
room for a part of the page mapping.

`storeMachine` is an FTL that always succeeds: an array of pages that may hold
one pool buffer for each die, and that hands buffers back in any order.
-/

namespace OpenNfm

open OpenNfm.Program

/-- Where the data of a page write is. -/
inductive PageSource where
  | pool (buffer : Nat)
  | host
  deriving DecidableEq, Repr

/-- The calls to the FTL. -/
inductive FtlOp (S : Type) where
  | read (page : Nat)
  | write (page : Nat) (source : PageSource) (content : Nat → S)

/-- The answer to each call: the page that was read, and the buffers that came
back. -/
abbrev FtlAns (S : Type) : FtlOp S → Type
  | .read _ => Status × (Nat → S) × List Nat
  | .write _ _ _ => Status × List Nat

/-- The static variables of `buf_api.c` and `onfm.c`. -/
structure OnfmRam (S : Type) where
  pbPool : Nat → Nat → S
  pbPoolUsed : Nat → Bool
  sectorWritten : Nat → Bool
  writeBuffer : Option Nat
  mergeBuffer : Option Nat
  bufStartAddr : Nat
  bufEndAddr : Nat
  onfmReadBuffer : Nat → S
  readBufferStartSector : Nat
  startingSector : Nat

/-- Code of the sector layer. -/
abbrev Onfm (S α : Type) := Code (OnfmRam S) (FtlOp S) (FtlAns S) α

namespace Geometry

variable (g : Geometry)

/-- `SECTOR_PER_MPP` -/
def sectorPerMpp : Nat := 2 ^ g.sectorPerMppShift

/-- `BUFFER_COUNT` -/
def bufferCount : Nat := g.totalDieCount * 2 + 2

theorem sectorPerMpp_pos : 0 < g.sectorPerMpp :=
  Nat.two_pow_pos _

end Geometry

/-- A sector address that names no sector. -/
def invalidLsaddr : Nat := allOnes

/-- The sector address behind a page, as 32-bit words add. -/
def Geometry.behindPage (g : Geometry) (start : Nat) : Nat :=
  (start + g.sectorPerMpp) % 2 ^ 32

/-! ## An FTL that always succeeds -/

/-- The pages, the pool buffers that are still held, and which of them each coming
write hands back. -/
structure PageStore (S : Type) where
  pages : Nat → Nat → S
  held : List Nat
  releases : List (List Nat)

namespace PageStore

variable {S : Type}

/-- The buffers in the hands of the store with the buffer of a write. -/
def offered (store : PageStore S) : PageSource → List Nat
  | .pool buffer => buffer :: store.held
  | .host => store.held

/-- The buffers that the store keeps after a write. -/
def kept (g : Geometry) (store : PageStore S) (source : PageSource) : List Nat :=
  ((store.offered source).filter fun buffer => buffer ∉ store.releases.headD []).take
    g.totalDieCount

/-- The buffers that a write frees. -/
def released (g : Geometry) (store : PageStore S) (source : PageSource) : List Nat :=
  (store.offered source).filter fun buffer => buffer ∉ store.kept g source

/-- The store behind a write. -/
def write (g : Geometry) (store : PageStore S) (page : Nat) (source : PageSource)
    (content : Nat → S) : PageStore S where
  pages := Function.update store.pages page content
  held := store.kept g source
  releases := store.releases.tail

end PageStore

/-- An array of `pageCount` pages. -/
def storeMachine (g : Geometry) (pageCount : Nat) {S : Type} :
    Machine (FtlOp S) (FtlAns S) (PageStore S)
  | store, .read page =>
      if page < pageCount then .ok ((.success, store.pages page, []), store)
      else .error .assertion
  | store, .write page source content =>
      if page < pageCount then
        .ok ((.success, store.released g source), store.write g page source content)
      else .error .assertion

section Rules

variable {g : Geometry} {S : Type} {pageCount page : Nat} {crash : PageStore S → Prop}
  {ram : OnfmRam S} {store : PageStore S}

theorem wp_pageRead {post : Status × (Nat → S) × List Nat → OnfmRam S → PageStore S → Prop}
    (inRange : page < pageCount) :
    Code.wp (storeMachine g pageCount) crash (Code.perform (FtlOp.read page)) post ram store ↔
      crash store ∧ post (.success, store.pages page, []) ram store := by
  have step : storeMachine g pageCount store (.read page) =
      .ok ((.success, store.pages page, []), store) := if_pos inRange
  refine (Code.wp_perform_of_step step).trans ?_
  rw [← and_assoc, and_self]

theorem wp_pageWrite {source : PageSource} {content : Nat → S}
    {post : Status × List Nat → OnfmRam S → PageStore S → Prop} (inRange : page < pageCount) :
    Code.wp (storeMachine g pageCount) crash (Code.perform (FtlOp.write page source content)) post
        ram store ↔
      crash store ∧ crash (store.write g page source content) ∧
        post (.success, store.released g source) ram (store.write g page source content) := by
  have step : storeMachine g pageCount store (.write page source content) =
      .ok ((.success, store.released g source), store.write g page source content) :=
    if_pos inRange
  exact Code.wp_perform_of_step step

end Rules

end OpenNfm
