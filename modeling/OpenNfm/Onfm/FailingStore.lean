import OpenNfm.Onfm.Sectors

/-!
# An FTL that fails

An array of pages whose reads and writes may return an error.  A read that fails leaves
anything in its buffer.  A write that fails has stored its page or not; its buffer may be
in the hands of the FTL, as that of a write that succeeds, or the FTL has neither kept it
nor handed it back.
-/

namespace OpenNfm

open OpenNfm.Program OpenNfm.Buf

/-! ## The device -/

/-- What becomes of a page write. -/
structure WriteOutcome where
  status : Status
  stored : Bool
  kept : Bool
  done : status = .success → stored = true ∧ kept = true

/-- A write that succeeds. -/
def WriteOutcome.success : WriteOutcome := ⟨.success, true, true, fun _ => ⟨rfl, rfl⟩⟩

/-- What becomes of the calls, by the number of calls before: the outcome of a write, the
status of a read and what it leaves in the buffer when it fails, and the buffers that come
back. -/
structure FtlFaults (S : Type) where
  write : Nat → WriteOutcome
  read : Nat → Status
  leaves : Nat → Nat → S
  back : Nat → List Nat

/-- The pages, the pool buffers that the FTL holds, those that it has lost, the number of
calls, and the pages that were to be written with the status of the write, the newest one
first. -/
structure FailingStore (S : Type) where
  pages : Nat → Nat → S
  held : List Nat
  lost : List Nat
  calls : Nat
  asked : List (Nat × Status)

/-- The buffer of the pool that a write hands over. -/
def PageSource.buffers : PageSource → List Nat
  | .pool buffer => [buffer]
  | .host => []

namespace FailingStore

variable {S : Type} (g : Geometry) (faults : FtlFaults S) (store : FailingStore S)

/-- The sectors as the pages have them. -/
def image (sector : Nat) : S :=
  store.pages (sector / g.sectorPerMpp) (sector % g.sectorPerMpp)

/-- The buffers that the FTL keeps of those in its hands. -/
def keeps (offered : List Nat) : List Nat :=
  (offered.filter fun buffer => buffer ∉ faults.back store.calls).take g.totalDieCount

/-- The buffers of `offered` that a call frees. -/
def releases (offered : List Nat) : List Nat :=
  offered.filter fun buffer => buffer ∉ store.keeps g faults offered

/-- The store behind a read, which may free buffers. -/
def read : FailingStore S :=
  { store with held := store.keeps g faults store.held, calls := store.calls + 1 }

/-- What a read leaves in its buffer. -/
def readContent (page : Nat) : Nat → S :=
  if faults.read store.calls = .success then store.pages page else faults.leaves store.calls

/-- The buffers in the hands of the FTL with the one of a write. -/
def offered (source : PageSource) : List Nat :=
  if (faults.write store.calls).kept then source.buffers ++ store.held else store.held

/-- The store behind a write, which may store the page or keep the buffer and may not. -/
def write (page : Nat) (source : PageSource) (content : Nat → S) : FailingStore S where
  pages :=
    if (faults.write store.calls).stored then Function.update store.pages page content
    else store.pages
  held := store.keeps g faults (store.offered faults source)
  lost := if (faults.write store.calls).kept then store.lost else source.buffers ++ store.lost
  calls := store.calls + 1
  asked := (page, (faults.write store.calls).status) :: store.asked

end FailingStore

/-- An array of `pageCount` pages with faults. -/
def failingMachine (g : Geometry) (pageCount : Nat) {S : Type} (faults : FtlFaults S) :
    Machine (FtlOp S) (FtlAns S) (FailingStore S)
  | store, .read page =>
      if page < pageCount then
        .ok ((faults.read store.calls, store.readContent faults page,
          store.releases g faults store.held), store.read g faults)
      else .error .assertion
  | store, .write page source content =>
      if page < pageCount then
        .ok (((faults.write store.calls).status,
          store.releases g faults (store.offered faults source)),
          store.write g faults page source content)
      else .error .assertion

/-! ## No buffer gets lost but by a failed write -/

namespace FailingStore

variable {S : Type} {g : Geometry} {faults : FtlFaults S} {store : FailingStore S}

theorem keeps_length_le (offered : List Nat) :
    (store.keeps g faults offered).length ≤ g.totalDieCount :=
  List.length_take_le _ _

theorem releases_perm {offered : List Nat} (nodup : offered.Nodup) :
    (store.releases g faults offered ++ store.keeps g faults offered).Perm offered :=
  filter_append_kept_perm ((List.take_sublist _ _).trans List.filter_sublist) nodup

/-- The buffers that come back from a read, and those that are held behind it, are those that
were held before. -/
theorem read_perm (nodup : (store.held ++ store.lost).Nodup) :
    (store.releases g faults store.held ++
      ((store.read g faults).held ++ (store.read g faults).lost)).Perm
      (store.held ++ store.lost) := by
  rw [← List.append_assoc]
  exact (releases_perm nodup.of_append_left).append_right _

/-- The buffers that come back from a write, and those that are held or lost behind it, are
those that were held or lost before and the one of the write. -/
theorem write_perm (g : Geometry) (faults : FtlFaults S) (source : PageSource) (page : Nat)
    (content : Nat → S)
    (nodup : (source.buffers ++ (store.held ++ store.lost)).Nodup) :
    (store.releases g faults (store.offered faults source) ++
      ((store.write g faults page source content).held ++
        (store.write g faults page source content).lost)).Perm
      (source.buffers ++ (store.held ++ store.lost)) := by
  have back : (store.releases g faults (store.offered faults source) ++
      (store.write g faults page source content).held).Perm (store.offered faults source) := by
    refine releases_perm ?_
    unfold offered
    split
    · rw [← List.append_assoc] at nodup
      exact nodup.of_append_left
    · exact nodup.of_append_right.of_append_left
  rw [← List.append_assoc]
  refine (back.append_right _).trans ?_
  unfold offered write
  split
  · rw [List.append_assoc]
  · rw [← List.append_assoc, ← List.append_assoc]
    exact List.perm_append_comm.append_right _

/-- A failed write loses at most one buffer. -/
theorem write_lost_length (source : PageSource) (page : Nat) (content : Nat → S) :
    (store.write g faults page source content).lost.length ≤ store.lost.length + 1 := by
  dsimp only [write]
  split
  · exact Nat.le_succ _
  · cases source with
    | pool buffer => exact le_rfl
    | host => exact Nat.le_succ _

end FailingStore

/-! ## Calls of the device -/

section Calls

variable {S : Type} {g : Geometry} {pageCount page : Nat} {faults : FtlFaults S}
  {store : FailingStore S} {ram : OnfmRam S}

theorem wp_failingRead (others : List Nat)
    {post : Status × (Nat → S) → OnfmRam S → FailingStore S → Prop} (inRange : page < pageCount)
    (owns : PoolOwns g ram (others ++ (store.held ++ store.lost)))
    (meets : ∀ used, PoolOwns g { ram with pbPoolUsed := used }
      (others ++ ((store.read g faults).held ++ (store.read g faults).lost)) →
      post (faults.read store.calls, store.readContent faults page)
        { ram with pbPoolUsed := used } (store.read g faults)) :
    Code.wp (failingMachine g pageCount faults) (fun _ => True) (ftlRead g page) post ram store :=
  wp_ftlRead others owns (FailingStore.read_perm owns.nodup.of_append_right) (if_pos inRange)
    trivial trivial meets

theorem wp_failingWrite (others : List Nat) {source : PageSource} {content : Nat → S}
    {post : Status → OnfmRam S → FailingStore S → Prop} (inRange : page < pageCount)
    (owns : PoolOwns g ram (others ++ (source.buffers ++ (store.held ++ store.lost))))
    (meets : ∀ used, PoolOwns g { ram with pbPoolUsed := used }
        (others ++ ((store.write g faults page source content).held ++
          (store.write g faults page source content).lost)) →
      post (faults.write store.calls).status { ram with pbPoolUsed := used }
        (store.write g faults page source content)) :
    Code.wp (failingMachine g pageCount faults) (fun _ => True) (ftlWrite g page source content)
      post ram store := by
  have back := FailingStore.write_perm g faults source page content
    owns.nodup.of_append_right
  have perm := (List.perm_append_comm_assoc _ _ _).trans (back.append_left others)
  have step : failingMachine g pageCount faults store (.write page source content) = .ok _ :=
    if_pos inRange
  simp only [ftlWrite, Code.wp_bind]
  rw [Code.wp_perform_of_step step]
  refine ⟨trivial, trivial, wp_freeAll (owns.perm perm) trivial fun used owns' => ?_⟩
  exact ⟨trivial, meets used owns'⟩

end Calls

end OpenNfm
