import OpenNfm.Ftl.WaitingWrites
import OpenNfm.Onfm.FailingStore
import OpenNfm.Program.Layered
import OpenNfm.Ubi.HeldPages

/-!
# The layers below the sectors

The functions of the FTL over those of the UBI layer, on a device that answers by an oracle.
A write of the FTL hands its buffer to `UBI_Write` once; the buffers that come back through
`BUF_Free` on the way, and the one that is held in the end, are those that were held before
and the one of the write.
-/

namespace OpenNfm

open OpenNfm.Program

/-! ## The FTL over the UBI layer -/

/-- A page of zeros. -/
instance {D : Type} [Zero D] : Zero (Ftl.FtlPage D) := ⟨.data 0⟩

/-- What the FTL finds in a page.  The tables of the UBI layer are not among its pages. -/
def Ftl.FtlPage.ofBuffer {D : Type} : UbiBuffer (Ftl.FtlPage D) → Ftl.FtlPage D
  | .data page => page
  | _ => .ones

/-- The calls to the device below the UBI layer. -/
abbrev DeviceCalls (D : Type) : Type :=
  List (Called (MtdOp (UbiBuffer (Ftl.FtlPage D))) (MtdAns (UbiBuffer (Ftl.FtlPage D))))

/-- The answers of the devices below the whole stack. -/
abbrev DeviceOracle (D : Type) : Type :=
  Oracle (MtdOp (UbiBuffer (Ftl.FtlPage D))) (MtdAns (UbiBuffer (Ftl.FtlPage D)))

/-- The address of the data of a page write.  Any address behind the pool stands for memory
that is not in the pool. -/
def PageSource.address (g : Geometry) : PageSource → Nat
  | .pool buffer => buffer
  | .host => g.bufferCount

section Serve

variable {D : Type} [Zero D]

/-- The functions of the UBI layer as the FTL calls them.  A write that does not wait has the
data at an address; the other writes have theirs in static memory. -/
def serveUbi (g : Geometry) (fuel source : Nat) :
    (op : Ftl.UbiOp D) → Code (UbiRam (Ftl.FtlPage D)) (MtdOp (UbiBuffer (Ftl.FtlPage D)))
      (MtdAns (UbiBuffer (Ftl.FtlPage D))) (Ftl.UbiAns D op)
  | .format => ubiFormat g fuel
  | .init => ubiInit g fuel
  | .read block page => do
      let answer ← ubiRead g block page
      pure ⟨answer.status, .ofBuffer answer.main, answer.spare⟩
  | .write block page main spare async =>
      ubiWrite g fuel block page (some ⟨if async then source else g.bufferCount, .data main⟩) spare
        async
  | .erase block dieIndex => ubiErase g fuel block dieIndex
  | .flush => ubiFlush g fuel
  | .swl => ubiSwl g fuel
  | .readStatus block => ubiReadStatus g block

variable {g : Geometry} {fuel source : Nat} {total : List Nat}
  {oracle : DeviceOracle D} {ftl : Ftl.FtlRam} {ubi : UbiRam (Ftl.FtlPage D)}
  {calls : DeviceCalls D}

theorem poolBuffers_bufferCount : poolBuffers g [g.bufferCount] = [] := by
  simp [poolBuffers]

theorem keeps_serveUbi (noFailures : NoFailures oracle) (op : Ftl.UbiOp D)
    (waits : op.waits = true) :
    Code.Keeps oracle.machine (Balanced g total) (serveUbi g fuel source op) := by
  cases op with
  | read block page => exact .bind quiet_ubiRead.keeps fun _ => .pure _
  | write block page main spare async =>
      cases async with
      | true => exact absurd waits Bool.false_ne_true
      | false => exact keeps_ubiWrite_sync noFailures poolBuffers_bufferCount
  | erase block dieIndex => exact keeps_ubiErase noFailures
  | flush => exact keeps_ubiFlush noFailures
  | readStatus block => exact quiet_ubiReadStatus.keeps
  | format | init | swl => exact absurd waits Bool.false_ne_true

/-- Code whose writes wait takes no buffer over. -/
theorem over_of_waits {α : Type} {code : Ftl.FtlCode D α} (noFailures : NoFailures oracle)
    (waits : Ftl.Waits code) (balanced : Balanced g total ubi calls) :
    Code.Over oracle.machine (serveUbi g fuel source)
      (fun after => ∃ ubi', Balanced g total ubi' after) code
      (fun _ _ ubi' calls' => Balanced g total ubi' calls') ftl ubi calls :=
  ((waits ftl).over (keeps_serveUbi noFailures) balanced).mono
    (fun _ _ _ _ kept => kept.2) fun _ => id

/-- No buffer was handed back twice. -/
def FreesOnly (g : Geometry) (total : List Nat) (calls : DeviceCalls D) : Prop :=
  (freedBuffers g calls).Subperm total

omit [Zero D] in
theorem Balanced.freesOnly (balanced : Balanced g total ubi calls) : FreesOnly g total calls :=
  (List.sublist_append_left _ _).subperm.trans balanced.balance.subperm

omit [Zero D] in
theorem FreesOnly.append (offered : List Nat) (frees : FreesOnly g total calls) :
    FreesOnly g (offered ++ total) calls :=
  List.Subperm.trans frees (List.sublist_append_right offered total).subperm

/-- Code whose writes wait, in front of code that gets a buffer. -/
theorem over_waits_bind {α β : Type} {code : Ftl.FtlCode D α} {rest : α → Ftl.FtlCode D β}
    {offered : List Nat}
    {post : β → Ftl.FtlRam → UbiRam (Ftl.FtlPage D) →
      DeviceCalls D → Prop}
    (noFailures : NoFailures oracle) (waits : Ftl.Waits code)
    (balanced : Balanced g total ubi calls)
    (goesOn : ∀ value ftl' ubi' calls', Balanced g total ubi' calls' →
      Code.Over oracle.machine (serveUbi g fuel source) (FreesOnly g (offered ++ total))
        (rest value) post ftl' ubi' calls') :
    Code.Over oracle.machine (serveUbi g fuel source) (FreesOnly g (offered ++ total))
      (code >>= rest) post ftl ubi calls := by
  refine Code.Over.bind.mpr ((over_of_waits noFailures waits balanced).mono goesOn ?_)
  rintro after ⟨ubi', kept⟩
  exact kept.freesOnly.append offered

/-- A write of the FTL takes the buffer of its page over. -/
theorem over_ftlWrite {l : Ftl.Layout} {page : Nat} {content : D} (noFailures : NoFailures oracle)
    (small : l.g.pagePerPhyBlock < allOnes) (balanced : Balanced l.g total ubi calls) :
    Code.Over oracle.machine (serveUbi l.g fuel source)
      (FreesOnly l.g (poolBuffers l.g [source] ++ total)) (Ftl.ftlWrite l fuel page (some content))
      (fun _ _ ubi' calls' => Balanced l.g (poolBuffers l.g [source] ++ total) ubi' calls') ftl ubi
        calls := by
  have before : ∀ after : DeviceCalls D, (∃ ubi', Balanced l.g total ubi' after) →
      FreesOnly l.g (poolBuffers l.g [source] ++ total) after := by
    rintro after ⟨ubi', kept⟩
    exact kept.freesOnly.append _
  have behind : ∀ after : DeviceCalls D,
      (∃ ubi', Balanced l.g (poolBuffers l.g [source] ++ total) ubi' after) →
      FreesOnly l.g (poolBuffers l.g [source] ++ total) after := by
    rintro after ⟨ubi', kept⟩
    exact kept.freesOnly
  have takes : ∀ hot j (ftl : Ftl.FtlRam) ubi calls, Balanced l.g total ubi calls →
      Code.Over oracle.machine (serveUbi l.g fuel source)
        (FreesOnly l.g (poolBuffers l.g [source] ++ total))
        (Ftl.dataAppend l fuel hot j page content)
        (fun _ _ ubi' calls' => Balanced l.g (poolBuffers l.g [source] ++ total) ubi' calls') ftl
          ubi calls := by
    intro hot j ftl ubi calls balanced
    unfold Ftl.dataAppend
    refine over_waits_bind noFailures .get balanced fun ram ftl₁ ubi₁ calls₁ balanced₁ => ?_
    refine over_waits_bind noFailures .modifies balanced₁ fun _ ftl₂ ubi₂ calls₂ balanced₂ => ?_
    have isPage : Ftl.PmNode.page l.g (Ftl.journal hot ram j) ≠ invalidPage := by
      have inBlock := Nat.mod_lt (Ftl.journal hot ram j / 4) l.g.pagePerPhyBlock_pos
      exact (inBlock.trans small).ne
    refine Code.Over.bind.mpr (Code.Over.perform (Code.spec_mono
      (spec_ubiWrite_async noFailures isPage balanced₂) (fun ret ubi₃ calls₃ balanced₃ => ?_)
      before))
    exact (over_of_waits noFailures Ftl.waits_dataAppended balanced₃).mono (fun _ _ _ _ => id)
      behind
  unfold Ftl.ftlWrite
  refine over_waits_bind noFailures Ftl.waits_hdiIsHotPage balanced
    fun hot ftl₁ ubi₁ calls₁ balanced₁ => ?_
  refine Code.Over.bind.mpr ?_
  unfold Ftl.dataWrite
  refine over_waits_bind noFailures Ftl.waits_dataFindLoop balanced₁ ?_
  rintro ⟨j, ret⟩ ftl₂ ubi₂ calls₂ balanced₂
  refine over_waits_bind noFailures .assert balanced₂ fun _ ftl₃ ubi₃ calls₃ balanced₃ => ?_
  refine (takes hot j ftl₃ ubi₃ calls₃ balanced₃).mono
    (fun ret ftl₄ ubi₄ calls₄ balanced₄ => ?_) fun _ => id
  exact (over_of_waits noFailures (Ftl.waits_onSuccess Ftl.waits_reclaimIfFull) balanced₄).mono
    (fun _ _ _ _ => id) behind

/-- A read of the FTL hands buffers back that were held. -/
theorem over_ftlRead {l : Ftl.Layout} {page : Nat} (noFailures : NoFailures oracle)
    (balanced : Balanced l.g total ubi calls) :
    Code.Over oracle.machine (serveUbi l.g fuel source) (FreesOnly l.g total)
      (Ftl.ftlRead l fuel page)
      (fun _ _ ubi' calls' => Balanced l.g total ubi' calls') ftl ubi calls := by
  refine (over_of_waits noFailures Ftl.waits_ftlRead balanced).mono (fun _ _ _ _ => id) ?_
  rintro after ⟨ubi', kept⟩
  exact kept.freesOnly

/-- A mount empties `dice_hold`, and the recovery behind it holds no page. -/
theorem over_ftlInit {l : Ftl.Layout} (noFailures : NoFailures oracle) :
    Code.Over oracle.machine (serveUbi l.g fuel source) (fun _ => True) (Ftl.ftlInit l fuel)
      (fun ret _ ubi' calls' => ret = .success →
        Balanced l.g (freedBuffers l.g calls) ubi' calls') ftl ubi calls := by
  unfold Ftl.ftlInit
  refine Code.Over.bind.mpr (Code.Over.perform (Code.spec_mono spec_ubiInit
    (fun ret ubi₁ calls₁ balanced => ?_) fun _ _ => trivial))
  by_cases success : ret = .success
  · exact (over_of_waits noFailures Ftl.waits_ftlInit (balanced success)).mono
      (fun _ _ _ _ kept _ => kept) fun _ _ => trivial
  · simp only [Ftl.onSuccess_other success, LawfulMonad.pure_bind]
    exact Code.Over.pure.mpr ⟨trivial, fun wrong => absurd wrong success⟩

end Serve

/-! ## The layers on a device -/

section Device

variable {S : Type} [Zero S]

/-- The static variables of the FTL and of the UBI layer, and the calls to the device. -/
structure Stack (S : Type) where
  ftl : Ftl.FtlRam
  ubi : UbiRam (Ftl.FtlPage (Nat → S))
  calls : DeviceCalls (Nat → S)

/-- Code of the FTL as a program over the device. -/
def Stack.program {α : Type} (g : Geometry) (fuel source : Nat) (stack : Stack S)
    (code : Ftl.FtlCode (Nat → S) α) :
    Prog (MtdOp (UbiBuffer (Ftl.FtlPage (Nat → S)))) (MtdAns (UbiBuffer (Ftl.FtlPage (Nat → S))))
      ((α × Ftl.FtlRam) × UbiRam (Ftl.FtlPage (Nat → S))) :=
  ((code.run stack.ftl).through (serveUbi g fuel source)).run stack.ubi

/-- The addresses that calls handed to `BUF_Free`, in this order. -/
def freedIn {D : Type} (calls : DeviceCalls D) : List Nat :=
  (calls.filterMap fun call => call.op.freed).reverse

/-- The calls behind earlier ones. -/
def callsSince {D : Type} (earlier later : DeviceCalls D) : DeviceCalls D :=
  later.take (later.length - earlier.length)

/-- The FTL over the UBI layer.  `bytes` is what the content of a page reads as. -/
def ftlMachine (l : Ftl.Layout) (fuel : Nat) (oracle : DeviceOracle (Nat → S))
    (bytes : Ftl.FtlPage (Nat → S) → Nat → S) : Machine (FtlOp S) (FtlAns S) (Stack S)
  | stack, .read page =>
      match (stack.program l.g fuel l.g.bufferCount (Ftl.ftlRead l fuel page)).exec oracle.machine
        stack.calls with
      | .ok (((answer, ftl), ubi), calls) =>
          .ok ((answer.1, bytes answer.2, freedIn (callsSince stack.calls calls)),
            ⟨ftl, ubi, calls⟩)
      | .error reason => .error reason
  | stack, .write page source content =>
      match (stack.program l.g fuel (source.address l.g)
        (Ftl.ftlWrite l fuel page (some content))).exec oracle.machine stack.calls with
      | .ok (((ret, ftl), ubi), calls) =>
          .ok ((ret, freedIn (callsSince stack.calls calls)), ⟨ftl, ubi, calls⟩)
      | .error reason => .error reason

end Device

end OpenNfm
