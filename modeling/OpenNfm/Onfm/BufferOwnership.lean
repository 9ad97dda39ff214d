import OpenNfm.Onfm.MergedPage
import OpenNfm.Onfm.WatchedPool
import OpenNfm.Program.Alike
import OpenNfm.Ubi.CrashConsistency

/-!
# The owners of the page buffers

A buffer of the pool is the write buffer, is in the hands of a function that runs, or is held
in `dice_hold`.  A call of the FTL moves buffers between these owners and releases the
others, each once.  Over a watched pool the sector layer therefore runs as it does over the
real one: no allocation fails, and no buffer is released that is not in use.
-/

namespace OpenNfm

open OpenNfm.Program OpenNfm.Buf

/-! ## Released buffers -/

section Released

variable {g : Geometry} {S : Type} {ram : OnfmRam S}

/-- The marks after the release of several buffers. -/
def cleared (g : Geometry) : List Nat → (Nat → Bool) → Nat → Bool
  | [], used => used
  | buffer :: rest, used =>
      cleared g rest (if buffer < g.bufferCount then Function.update used buffer false else used)

theorem poolBuffers_cons (buffer : Nat) (rest : List Nat) :
    poolBuffers g (buffer :: rest) =
      if buffer < g.bufferCount then buffer :: poolBuffers g rest else poolBuffers g rest := by
  rw [poolBuffers, List.filter_cons]
  simp only [decide_eq_true_eq]
  rfl

theorem cleared_append (first second : List Nat) (used : Nat → Bool) :
    cleared g (first ++ second) used = cleared g second (cleared g first used) := by
  induction first generalizing used with
  | nil => rfl
  | cons buffer rest ih => exact ih _

theorem Buf.PoolOwns.release {buffer : Nat} {owned : List Nat}
    (owns : PoolOwns g ram (buffer :: owned)) :
    PoolOwns g { ram with pbPoolUsed := Function.update ram.pbPoolUsed buffer false } owned where
  nodup := (List.nodup_cons.mp owns.nodup).2
  inPool other inside := owns.inPool other (List.mem_cons_of_mem _ inside)
  used other inPool := by
    by_cases same : other = buffer
    · simp [same, (List.nodup_cons.mp owns.nodup).1]
    · simp only [Function.update_of_ne same]
      rw [owns.used other inPool, List.mem_cons, or_iff_right same]

theorem Buf.PoolOwns.take {buffer : Nat} {owned : List Nat} (owns : PoolOwns g ram owned)
    (inPool : buffer < g.bufferCount) (unused : ram.pbPoolUsed buffer = false) :
    PoolOwns g { ram with pbPoolUsed := Function.update ram.pbPoolUsed buffer true }
      (buffer :: owned) := by
  have fresh : buffer ∉ owned := by
    rw [← owns.used buffer inPool, unused]
    exact Bool.false_ne_true
  refine ⟨List.nodup_cons.mpr ⟨fresh, owns.nodup⟩, ?_, fun other otherInPool => ?_⟩
  · rintro other (_ | ⟨_, inside⟩)
    · exact inPool
    · exact owns.inPool other inside
  · by_cases same : other = buffer
    · simp [same]
    · simp only [Function.update_of_ne same, List.mem_cons, same, false_or]
      exact owns.used other otherInPool

theorem exec_free_used {E : Type} {machine : Machine (FtlOp S) (FtlAns S) E} {state : E}
    {buffer : Nat} (inPool : buffer < g.bufferCount) (isUsed : ram.pbPoolUsed buffer = true) :
    ((free g buffer).run ram).exec machine state =
      .ok ((⟨⟩, { ram with pbPoolUsed := Function.update ram.pbPoolUsed buffer false }),
        state) := by
  rw [free, if_pos inPool]
  change ((Code.assert (ram.pbPoolUsed buffer = true) >>= fun _ => _).run ram).exec
    machine state = _
  rw [Code.assert, if_pos isUsed]
  rfl

/-- Releasing buffers that are in use. -/
theorem exec_freeAll {E : Type} {machine : Machine (FtlOp S) (FtlAns S) E} {state : E}
    {released kept : List Nat} (owns : PoolOwns g ram (poolBuffers g released ++ kept)) :
    ((released.forM (free g)).run ram).exec machine state =
        .ok ((⟨⟩, { ram with pbPoolUsed := cleared g released ram.pbPoolUsed }), state) ∧
      PoolOwns g { ram with pbPoolUsed := cleared g released ram.pbPoolUsed } kept := by
  induction released generalizing ram with
  | nil => exact ⟨rfl, owns⟩
  | cons buffer rest ih =>
      rw [poolBuffers_cons] at owns
      rw [cleared]
      change ((free g buffer >>= fun _ => rest.forM (free g)).run ram).exec machine state = _ ∧ _
      by_cases inPool : buffer < g.bufferCount
      · rw [if_pos inPool] at owns ⊢
        have isUsed := (owns.used buffer inPool).mpr List.mem_cons_self
        rw [Code.exec_bind_of_ok (exec_free_used inPool isUsed)]
        exact ih owns.release
      · rw [if_neg inPool] at owns ⊢
        rw [free, if_neg inPool]
        exact ih owns

end Released

/-! ## The FTL -/

section Device

variable {g : Geometry} {fuel source : Nat} {S : Type} [Zero S] (faults : PoolFaults S)
  {oracle : DeviceOracle (Nat → S)} {ram : OnfmRam S} {stack : Stack S}

omit [Zero S] in
theorem freedIn_append_singleton (new : DeviceCalls (Nat → S))
    (call : Called (MtdOp (UbiBuffer (Ftl.FtlPage (Nat → S))))
      (MtdAns (UbiBuffer (Ftl.FtlPage (Nat → S))))) :
    freedIn (new ++ [call]) = call.op.freed.toList ++ freedIn new := by
  rw [freedIn, List.filterMap_append, List.reverse_append, freedIn, List.filterMap_cons]
  cases call.op.freed <;> rfl

omit [Zero S] in
theorem callsSince_append (new calls : DeviceCalls (Nat → S)) :
    callsSince calls (new ++ calls) = new := by
  rw [callsSince, List.length_append, Nat.add_sub_cancel, List.take_left]

omit [Zero S] in
theorem freedBuffers_append (new calls : DeviceCalls (Nat → S)) :
    freedBuffers g (new ++ calls) = poolBuffers g (freedIn new).reverse ++
      freedBuffers g calls := by
  rw [freedBuffers, List.filterMap_append, poolBuffers_append, freedIn, List.reverse_reverse,
    freedBuffers]

omit [Zero S] in
/-- A buffer that is handed back is in use, unless it was handed back before. -/
theorem device_step {op : MtdOp (UbiBuffer (Ftl.FtlPage (Nat → S)))}
    {calls : DeviceCalls (Nat → S)} {used : Nat → Bool} {owned base newly : List Nat}
    (isFreed : freedBuffers g calls = newly ++ base) (nodup : owned.Nodup)
    (isUsed : ∀ buffer ∈ owned, buffer ∉ newly → used buffer = true)
    (frees : FreesOnly g (owned ++ base) (⟨op, oracle calls op⟩ :: calls)) :
    ∃ newly', freedBuffers g (⟨op, oracle calls op⟩ :: calls) = newly' ++ base ∧
      (∀ buffer ∈ owned, buffer ∉ newly' → cleared g op.freed.toList used buffer = true) ∧
      Watched.device g faults oracle (calls, used) op =
        .ok (oracle calls op, ⟨op, oracle calls op⟩ :: calls, cleared g op.freed.toList used) := by
  have grows : freedBuffers g (⟨op, oracle calls op⟩ :: calls) =
      (poolBuffers g op.freed.toList ++ newly) ++ base := by
    rw [freedBuffers_cons, isFreed, List.append_assoc]
  refine ⟨poolBuffers g op.freed.toList ++ newly, grows, ?_⟩
  rw [FreesOnly, grows, List.subperm_append_right] at frees
  cases isFree : op.freed with
  | none =>
      rw [isFree] at frees
      refine ⟨isUsed, ?_⟩
      simp only [Watched.device, isFree]
      rfl
  | some buffer =>
      rw [isFree, Option.toList_some, poolBuffers_cons] at frees
      rw [Option.toList_some, poolBuffers_cons, cleared, cleared]
      simp only [Watched.device, isFree, Watched.freed]
      by_cases inPool : buffer < g.bufferCount
      · rw [if_pos inPool] at frees ⊢
        rw [if_pos inPool, if_pos inPool]
        obtain ⟨some, perm, sub⟩ := frees
        have distinct : (buffer :: newly).Nodup := perm.nodup_iff.mp (nodup.sublist sub)
        have isOwned : buffer ∈ owned := sub.subset (perm.mem_iff.mpr List.mem_cons_self)
        have here : used buffer = true := isUsed buffer isOwned (List.nodup_cons.mp distinct).1
        rw [if_pos here]
        refine ⟨fun other inside away => ?_, rfl⟩
        have differs : other ≠ buffer := by
          rintro rfl
          exact away List.mem_cons_self
        rw [Function.update_of_ne differs]
        exact isUsed other inside fun earlier => away (List.mem_cons_of_mem _ earlier)
      · rw [if_neg inPool, if_neg inPool, if_neg inPool]
        exact ⟨isUsed, rfl⟩

omit [Zero S] in
/-- As long as buffers are handed back that are in use, and each once, the marks of the pool do
not disturb the run. -/
theorem exec_device {α : Type}
    {program : Prog (MtdOp (UbiBuffer (Ftl.FtlPage (Nat → S))))
      (MtdAns (UbiBuffer (Ftl.FtlPage (Nat → S)))) α}
    {post : α → DeviceCalls (Nat → S) → Prop} {calls : DeviceCalls (Nat → S)} {used : Nat → Bool}
    {owned base newly : List Nat} (isFreed : freedBuffers g calls = newly ++ base)
    (nodup : owned.Nodup) (isUsed : ∀ buffer ∈ owned, buffer ∉ newly → used buffer = true)
    (frees : program.spec oracle.machine (FreesOnly g (owned ++ base)) True post calls) :
    (∃ reason, program.exec oracle.machine calls = .error reason ∧
      program.exec (Watched.device g faults oracle) (calls, used) = .error reason) ∨
    ∃ value new, program.exec oracle.machine calls = .ok (value, new ++ calls) ∧
      program.exec (Watched.device g faults oracle) (calls, used) =
        .ok (value, new ++ calls, cleared g (freedIn new) used) := by
  induction program generalizing calls used newly with
  | ret value => exact .inr ⟨value, [], rfl, rfl⟩
  | halt reason => exact .inl ⟨reason, rfl, rfl⟩
  | call op next ih =>
      have step : oracle.machine calls op =
          .ok (oracle calls op, ⟨op, oracle calls op⟩ :: calls) := rfl
      have rest := ((Prog.spec_call_of_ok step).mp frees).2
      obtain ⟨newly', isFreed', isUsed', step'⟩ :=
        device_step faults isFreed nodup isUsed (Prog.spec_crash rest)
      rw [Prog.exec, step, Prog.exec, step']
      rcases ih (oracle calls op) isFreed' isUsed' rest with ⟨reason, run, run'⟩ |
        ⟨value, new, run, run'⟩
      · exact .inl ⟨reason, run, run'⟩
      · refine .inr ⟨value, new ++ [⟨op, oracle calls op⟩], ?_, ?_⟩
        · rw [List.append_assoc]
          exact run
        · rw [freedIn_append_singleton, cleared_append, List.append_assoc]
          exact run'

/-- Only the first slot of `dice_hold` has a page, and the buffers in use are those in hand and
those that are held. -/
structure Owns (g : Geometry) (ram : OnfmRam S) (stack : Stack S) (inHand : List Nat) : Prop where
  alone : ∀ die < g.totalDieCount, die ≠ 0 → (stack.ubi.diceHold die).phyBlock = invalidBlock
  owns : PoolOwns g ram (inHand ++ heldBuffers g stack.ubi)

/-- A program of the FTL runs alike with the marks of the pool, and of the buffers that it was
offered and those that were held it releases the ones that are not held in the end. -/
theorem exec_program {α : Type} {code : Ftl.FtlCode (Nat → S) α} {inHand offered : List Nat}
    (owns : Owns g ram stack (inHand ++ offered))
    (runs : Code.Over oracle.machine (serveUbi g fuel source)
      (FreesOnly g (offered ++ (freedBuffers g stack.calls ++ heldBuffers g stack.ubi))) code
      (fun _ _ ubi' calls' => Balanced g
        (offered ++ (freedBuffers g stack.calls ++ heldBuffers g stack.ubi)) ubi' calls')
      stack.ftl stack.ubi stack.calls) :
    (∃ reason,
      (stack.program g fuel source code).exec oracle.machine stack.calls = .error reason ∧
      (stack.program g fuel source code).exec (Watched.device g faults oracle)
        (stack.calls, ram.pbPoolUsed) = .error reason) ∨
    ∃ value ftl ubi calls,
      (stack.program g fuel source code).exec oracle.machine stack.calls =
        .ok (((value, ftl), ubi), calls) ∧
      (stack.program g fuel source code).exec (Watched.device g faults oracle)
        (stack.calls, ram.pbPoolUsed) = .ok (((value, ftl), ubi), calls,
          cleared g (freedIn (callsSince stack.calls calls)) ram.pbPoolUsed) ∧
      PoolOwns g ram (poolBuffers g (freedIn (callsSince stack.calls calls)) ++
        (inHand ++ heldBuffers g ubi)) ∧
      ∀ die < g.totalDieCount, die ≠ 0 → (ubi.diceHold die).phyBlock = invalidBlock := by
  have owned : PoolOwns g ram (inHand ++ (offered ++ heldBuffers g stack.ubi)) :=
    List.append_assoc inHand _ _ ▸ owns.owns
  have swap : (offered ++ (freedBuffers g stack.calls ++ heldBuffers g stack.ubi)).Perm
      ((offered ++ heldBuffers g stack.ubi) ++ freedBuffers g stack.calls) := by
    rw [List.append_assoc]
    exact List.perm_append_comm.append_left offered
  have frees := Prog.spec_mono runs (fun _ _ => id) fun after frees =>
    (List.Subperm.trans frees swap.subperm : FreesOnly g _ after)
  have isUsed : ∀ buffer ∈ offered ++ heldBuffers g stack.ubi, buffer ∉ ([] : List Nat) →
      ram.pbPoolUsed buffer = true := by
    intro buffer inside _
    have isOwned := List.mem_append_right inHand inside
    exact (owned.used buffer (owned.inPool buffer isOwned)).mpr isOwned
  rcases exec_device faults (List.nil_append _).symm owned.nodup.of_append_right isUsed
    frees with stops | ⟨⟨⟨value, ftl⟩, ubi⟩, new, run, run'⟩
  · exact .inl stops
  · have kept := Prog.post_of_spec runs run
    refine .inr ⟨value, ftl, ubi, new ++ stack.calls, run, ?_, ?_, kept.alone⟩
    · rw [callsSince_append]
      exact run'
    · rw [callsSince_append]
      refine owned.perm ?_
      have balance := kept.balance.trans swap
      have same : (poolBuffers g (freedIn new).reverse).Perm (poolBuffers g (freedIn new)) :=
        (List.reverse_perm _).filter _
      rw [freedBuffers_append] at balance
      rw [List.perm_iff_count] at balance same ⊢
      intro buffer
      have balanced := balance buffer
      have equal := same buffer
      simp only [List.count_append] at balanced ⊢
      omega

end Device

/-! ### Calls of the FTL -/

section Calls

variable {l : Ftl.Layout} {fuel : Nat} {S : Type} [Zero S] {faults : PoolFaults S}
  {oracle : DeviceOracle (Nat → S)} {bytes : Ftl.FtlPage (Nat → S) → Nat → S} {ram : OnfmRam S}
  {stack : Stack S} {inHand : List Nat}

omit [Zero S] in
theorem Owns.balanced {g : Geometry} (owns : Owns g ram stack inHand) :
    Balanced g (freedBuffers g stack.calls ++ heldBuffers g stack.ubi) stack.ubi stack.calls :=
  ⟨owns.alone, .refl _⟩

/-- A read of the FTL may release buffers that are held. -/
theorem alike_ftlRead {page : Nat} {post : Status × (Nat → S) → OnfmRam S → Stack S → Prop}
    (noFailures : NoFailures oracle) (owns : Owns l.g ram stack inHand)
    (meets : ∀ answer used stack', Owns l.g { ram with pbPoolUsed := used } stack' inHand →
      post answer { ram with pbPoolUsed := used } stack') :
    Code.Alike (ftlMachine l fuel oracle bytes) (Watched.machine l fuel oracle bytes faults)
      (ftlRead l.g page) (Watched.ftlRead page) post ram stack := by
  have owned : Owns l.g ram stack (inHand ++ []) := (List.append_nil inHand).symm ▸ owns
  have runs : Code.Over oracle.machine (serveUbi l.g fuel l.g.bufferCount)
      (FreesOnly l.g ([] ++ (freedBuffers l.g stack.calls ++ heldBuffers l.g stack.ubi)))
      (Ftl.ftlRead l fuel page) _ stack.ftl stack.ubi stack.calls :=
    over_ftlRead noFailures owns.balanced
  rcases exec_program faults owned runs with ⟨reason, run, run'⟩ |
    ⟨answer, ftl, ubi, calls, run, run', released, alone⟩
  · have step : ftlMachine l fuel oracle bytes stack (.read page) = .error reason := by
      simp only [ftlMachine, run]
    have step' : Watched.machine l fuel oracle bytes faults stack (.read page ram.pbPoolUsed) =
        .error reason := by
      simp only [Watched.machine, run']
    exact .of_error (Code.exec_perform_bind_of_error step) (Code.exec_perform_bind_of_error step')
  · have step : ftlMachine l fuel oracle bytes stack (.read page) =
        .ok ((answer.1, bytes answer.2, freedIn (callsSince stack.calls calls)),
          ⟨ftl, ubi, calls⟩) := by
      simp only [ftlMachine, run]
    have step' : Watched.machine l fuel oracle bytes faults stack (.read page ram.pbPoolUsed) =
        .ok (((answer.1, bytes answer.2),
          cleared l.g (freedIn (callsSince stack.calls calls)) ram.pbPoolUsed),
          ⟨ftl, ubi, calls⟩) := by
      simp only [Watched.machine, run']
    obtain ⟨frees, owns'⟩ := exec_freeAll released
    exact .of_ok
      ((Code.exec_bind_of_ok (Code.exec_perform step)).trans (Code.exec_bind_of_ok frees))
      (Code.exec_bind_of_ok (Code.exec_perform step')) (meets _ _ _ ⟨alone, owns'⟩)

/-- A write of the FTL takes its buffer over, if that is one of the pool. -/
theorem alike_ftlWrite {page : Nat} {source : PageSource} {content : Nat → S}
    {post : Status → OnfmRam S → Stack S → Prop} (noFailures : NoFailures oracle)
    (small : l.g.pagePerPhyBlock < allOnes)
    (owns : Owns l.g ram stack (inHand ++ poolBuffers l.g [source.address l.g]))
    (meets : ∀ ret used stack', Owns l.g { ram with pbPoolUsed := used } stack' inHand →
      post ret { ram with pbPoolUsed := used } stack') :
    Code.Alike (ftlMachine l fuel oracle bytes) (Watched.machine l fuel oracle bytes faults)
      (ftlWrite l.g page source content) (Watched.ftlWrite page source content) post ram stack := by
  have runs : Code.Over oracle.machine (serveUbi l.g fuel (source.address l.g))
      (FreesOnly l.g (poolBuffers l.g [source.address l.g] ++
        (freedBuffers l.g stack.calls ++ heldBuffers l.g stack.ubi)))
      (Ftl.ftlWrite l fuel page (some content)) _ stack.ftl stack.ubi stack.calls :=
    over_ftlWrite noFailures small owns.balanced
  rcases exec_program faults owns runs with ⟨reason, run, run'⟩ |
    ⟨ret, ftl, ubi, calls, run, run', released, alone⟩
  · have step : ftlMachine l fuel oracle bytes stack (.write page source content) =
        .error reason := by
      simp only [ftlMachine, run]
    have step' : Watched.machine l fuel oracle bytes faults stack
        (.write page source content ram.pbPoolUsed) = .error reason := by
      simp only [Watched.machine, run']
    exact .of_error (Code.exec_perform_bind_of_error step) (Code.exec_perform_bind_of_error step')
  · have step : ftlMachine l fuel oracle bytes stack (.write page source content) =
        .ok ((ret, freedIn (callsSince stack.calls calls)), ⟨ftl, ubi, calls⟩) := by
      simp only [ftlMachine, run]
    have step' : Watched.machine l fuel oracle bytes faults stack
        (.write page source content ram.pbPoolUsed) =
        .ok ((ret, cleared l.g (freedIn (callsSince stack.calls calls)) ram.pbPoolUsed),
          ⟨ftl, ubi, calls⟩) := by
      simp only [Watched.machine, run']
    obtain ⟨frees, owns'⟩ := exec_freeAll released
    exact .of_ok
      ((Code.exec_bind_of_ok (Code.exec_perform step)).trans (Code.exec_bind_of_ok frees))
      (Code.exec_bind_of_ok (Code.exec_perform step')) (meets _ _ _ ⟨alone, owns'⟩)

/-! ## The pool -/

omit [Zero S] in
theorem heldBuffers_length {g : Geometry} (owns : Owns g ram stack inHand) :
    (heldBuffers g stack.ubi).length ≤ 1 := by
  rw [heldBuffers_of_alone owns.alone]
  exact (List.length_filter_le _ _).trans (by cases (stack.ubi.diceHold 0).heldAddress <;> simp)

omit [Zero S] in
theorem Owns.congr {g : Geometry} {ram' : OnfmRam S} (owns : Owns g ram stack inHand)
    (same : ram'.pbPoolUsed = ram.pbPoolUsed) : Owns g ram' stack inHand :=
  ⟨owns.alone, owns.owns.congr same⟩

/-- Three buffers at most are in use when the next one is allocated. -/
theorem alike_allocate {mine : List Nat} {post : Option Nat → OnfmRam S → Stack S → Prop}
    (owns : Owns l.g ram stack mine) (few : mine.length ≤ 2)
    (isMine : ∀ buffer ∈ ram.writeBuffer.toList ++ inHand, buffer ∈ mine)
    (meets : ∀ buffer used, Owns l.g { ram with pbPoolUsed := used } stack (buffer :: mine) →
      post (some buffer) { ram with pbPoolUsed := used } stack) :
    Code.Alike (ftlMachine l fuel oracle bytes) (Watched.machine l fuel oracle bytes faults)
      (allocate l.g) (Watched.allocate l.g faults inHand) post ram stack := by
  have room : (mine ++ heldBuffers l.g stack.ubi).length < l.g.bufferCount := by
    have held := heldBuffers_length owns
    have pos := l.g.totalDieCount_pos
    rw [List.length_append, Geometry.bufferCount]
    omega
  obtain ⟨buffer, found⟩ := Option.ne_none_iff_exists'.mp (owns.owns.allocateFrom_ne_none room)
  obtain ⟨inPool, unused⟩ := allocateFrom_some (fun i inside => List.mem_range.mp inside) found
  have next := owns.owns.take inPool unused
  have own : ¬ (ram.pbPoolUsed buffer = true ∨
      buffer ∈ ram.writeBuffer.toList ++ inHand ++ heldBuffers l.g stack.ubi) := by
    rintro (marked | inUse)
    · rw [unused] at marked
      exact Bool.false_ne_true marked
    · refine (List.nodup_cons.mp next.nodup).1 ?_
      exact (List.mem_append.mp inUse).elim
        (fun inside => List.mem_append_left _ (isMine buffer inside)) (List.mem_append_right _)
  have step : Watched.machine l fuel oracle bytes faults stack .held =
      .ok (heldBuffers l.g stack.ubi, stack) := rfl
  have plain : ((allocate l.g).run ram).exec (ftlMachine l fuel oracle bytes) stack =
      .ok ((some buffer,
        { ram with pbPoolUsed := Function.update ram.pbPoolUsed buffer true }), stack) := by
    rw [allocate, Code.run_get_bind, found]
    rfl
  refine .of_ok plain ((Code.exec_bind_of_ok (Code.exec_perform step)).trans ?_)
    (meets buffer _ ⟨owns.alone, next⟩)
  rw [Code.run_get_bind, found]
  dsimp only
  rw [if_neg own]
  rfl

theorem alike_free {buffer : Nat} {post : Unit → OnfmRam S → Stack S → Prop}
    (owns : Owns l.g ram stack (buffer :: inHand))
    (meets : ∀ used, Owns l.g { ram with pbPoolUsed := used } stack inHand →
      post () { ram with pbPoolUsed := used } stack) :
    Code.Alike (ftlMachine l fuel oracle bytes) (Watched.machine l fuel oracle bytes faults)
      (free l.g buffer) (Watched.free l.g faults buffer) post ram stack := by
  have isMine : buffer ∈ buffer :: inHand ++ heldBuffers l.g stack.ubi := List.mem_cons_self
  have inPool := owns.owns.inPool buffer isMine
  have isUsed := (owns.owns.used buffer inPool).mpr isMine
  refine .of_ok (exec_free_used inPool isUsed) ?_ (meets _ ⟨owns.alone, owns.owns.release⟩)
  rw [Watched.free, Code.run_get_bind, Watched.freed, if_pos inPool, if_pos isUsed]
  rfl

/-! ## The write buffer -/

/-- Putting a sector does not change which buffers are in use. -/
theorem alike_putSector {addr : Nat} {sector : S} {post : Unit → OnfmRam S → Stack S → Prop}
    (meets : ∀ ram', ram'.pbPoolUsed = ram.pbPoolUsed → ram'.writeBuffer = ram.writeBuffer →
      ram'.mergeBuffer = ram.mergeBuffer → post () ram' stack) :
    Code.Alike (ftlMachine l fuel oracle bytes) (Watched.machine l fuel oracle bytes faults)
      (putSector l.g addr sector) (Watched.putSector l.g addr sector) post ram stack := by
  refine .getBind ?_
  cases ram.writeBuffer with
  | none => exact .halt
  | some buffer =>
      refine .ite (fun _ => .modifyBind (.getBind (.assertBind fun _ => .modifies ?_))) fun _ =>
        .getBind (.assertBind fun _ => .modifies ?_)
      · exact meets _ rfl rfl rfl
      · exact meets _ rfl rfl rfl

/-- The merged page leaves the write buffer, which is released. -/
theorem alike_mergePage {pageAddr buffer : Nat} {post : Option Nat → OnfmRam S → Stack S → Prop}
    (noFailures : NoFailures oracle) (owns : Owns l.g ram stack [buffer])
    (isWrite : ram.writeBuffer = some buffer)
    (meets : ∀ merge ram' stack', Owns l.g ram' stack' [merge] → ram'.writeBuffer = none →
      ram'.mergeBuffer = none → post (some merge) ram' stack') :
    Code.Alike (ftlMachine l fuel oracle bytes) (Watched.machine l fuel oracle bytes faults)
      (mergePage l.g pageAddr) (Watched.mergePage l.g faults pageAddr) post ram stack := by
  refine .getBind (.assertBind fun _ => ?_)
  have isMine : ∀ other ∈ ram.writeBuffer.toList ++ [], other ∈ [buffer] := by
    rw [isWrite]
    exact fun other => id
  refine .bind (alike_allocate owns (Nat.le_succ 1) isMine fun merge used owns₁ => ?_)
  rw [isWrite] at owns₁ ⊢
  refine .bind (alike_ftlRead noFailures owns₁ fun answer used stack₁ owns₂ => .modifyBind ?_)
  have released : ∀ (ram₁ : OnfmRam S), ram₁.pbPoolUsed = used →
      Code.Alike (ftlMachine l fuel oracle bytes) (Watched.machine l fuel oracle bytes faults)
        (do
          free l.g buffer
          modify fun ram => { ram with writeBuffer := none, mergeBuffer := none }
          pure (some merge))
        (do
          Watched.free l.g faults buffer
          modify fun ram => { ram with writeBuffer := none, mergeBuffer := none }
          pure (some merge)) post ram₁ stack₁ := by
    intro ram₁ same
    have owns₃ : Owns l.g ram₁ stack₁ [buffer, merge] :=
      ⟨owns₂.alone, (owns₂.owns.congr same).perm (List.Perm.swap _ _ _)⟩
    refine .bind (alike_free owns₃ fun used owns₄ => .modifyBind (.pure ?_))
    exact meets merge _ stack₁ (owns₄.congr rfl) rfl rfl
  refine .ite (fun _ => .modifyBind ?_) fun _ => ?_
  · exact released _ rfl
  · exact released _ rfl

/-- Between two sectors: the write buffer is in hand, and no page is being merged. -/
structure BufferReady (g : Geometry) (ram : OnfmRam S) (stack : Stack S) : Prop where
  write : ∃ buffer, ram.writeBuffer = some buffer ∧ Owns g ram stack [buffer]
  merge : ram.mergeBuffer = none

omit [Zero S] in
theorem BufferReady.congr {g : Geometry} {ram' : OnfmRam S} (ready : BufferReady g ram stack)
    (used : ram'.pbPoolUsed = ram.pbPoolUsed) (write : ram'.writeBuffer = ram.writeBuffer)
    (merge : ram'.mergeBuffer = ram.mergeBuffer) : BufferReady g ram' stack := by
  obtain ⟨buffer, isWrite, owns⟩ := ready.write
  exact ⟨⟨buffer, write.trans isWrite, owns.congr used⟩, merge.trans ready.merge⟩

/-- Another write buffer takes the place of the one that is handed out. -/
theorem alike_getPage {post : Nat × Option Nat → OnfmRam S → Stack S → Prop}
    (noFailures : NoFailures oracle) (ready : BufferReady l.g ram stack)
    (meets : ∀ pageAddr full next ram' stack', Owns l.g ram' stack' [next, full] →
      ram'.writeBuffer = some next → ram'.mergeBuffer = none →
      post (pageAddr, some full) ram' stack') :
    Code.Alike (ftlMachine l fuel oracle bytes) (Watched.machine l fuel oracle bytes faults)
      (getPage l.g) (Watched.getPage l.g faults) post ram stack := by
  obtain ⟨buffer, isWrite, owns⟩ := ready.write
  have handsOut : ∀ pageAddr full (ram₁ : OnfmRam S) stack₁, Owns l.g ram₁ stack₁ [full] →
      ram₁.writeBuffer = none → ram₁.mergeBuffer = none →
      Code.Alike (ftlMachine l fuel oracle bytes) (Watched.machine l fuel oracle bytes faults)
        (do
          modify fun ram =>
            { ram with
              bufStartAddr := invalidLsaddr
              bufEndAddr := invalidLsaddr
              sectorWritten := fun i => if i < l.g.sectorPerMpp then false
                else ram.sectorWritten i }
          let ram ← get
          if ram.writeBuffer = none then do
            let next ← allocate l.g
            modify fun ram => { ram with writeBuffer := next }
          pure (pageAddr, some full))
        (do
          modify fun ram =>
            { ram with
              bufStartAddr := invalidLsaddr
              bufEndAddr := invalidLsaddr
              sectorWritten := fun i => if i < l.g.sectorPerMpp then false
                else ram.sectorWritten i }
          let ram ← get
          if ram.writeBuffer = none then do
            let next ← Watched.allocate l.g faults (some full).toList
            modify fun ram => { ram with writeBuffer := next }
          pure (pageAddr, some full)) post ram₁ stack₁ := by
    intro pageAddr full ram₁ stack₁ owns₁ noWrite noMerge
    refine .modifyBind (.getBind (.ite (fun _ => ?_) fun isWrite => absurd noWrite isWrite))
    refine .bind (alike_allocate (owns₁.congr rfl) (Nat.le_succ 1) ?_ fun next used owns₂ =>
      .modifyBind (.pure ?_))
    · dsimp only
      rw [noWrite]
      exact fun other => id
    · exact meets pageAddr full next _ stack₁ (owns₂.congr rfl) rfl noMerge
  refine .getBind (.assertBind fun _ => .ite (fun _ => ?_) fun _ => .modifyBind ?_)
  · exact .bind (alike_mergePage noFailures owns isWrite fun full ram₁ stack₁ owns₁ =>
      handsOut _ full ram₁ stack₁ owns₁)
  · rw [isWrite]
    exact handsOut _ buffer _ stack (owns.congr rfl) rfl ready.merge

/-! ## Reading -/

theorem BufferReady.alike_ftlRead {page : Nat}
    {post : Status × (Nat → S) → OnfmRam S → Stack S → Prop} (noFailures : NoFailures oracle)
    (ready : BufferReady l.g ram stack)
    (meets : ∀ answer ram' stack', BufferReady l.g ram' stack' → post answer ram' stack') :
    Code.Alike (ftlMachine l fuel oracle bytes) (Watched.machine l fuel oracle bytes faults)
      (ftlRead l.g page) (Watched.ftlRead page) post ram stack := by
  obtain ⟨buffer, isWrite, owns⟩ := ready.write
  exact OpenNfm.alike_ftlRead noFailures owns fun answer used stack₁ owns₁ =>
    meets answer _ stack₁ ⟨⟨buffer, isWrite, owns₁⟩, ready.merge⟩

theorem alike_onfmReadSector {sectorAddr : Nat} {post : Int × Option S → OnfmRam S → Stack S → Prop}
    (noFailures : NoFailures oracle) (ready : BufferReady l.g ram stack)
    (meets : ∀ answer ram' stack', BufferReady l.g ram' stack' → post answer ram' stack') :
    Code.Alike (ftlMachine l fuel oracle bytes) (Watched.machine l fuel oracle bytes faults)
      (onfmReadSector l.g sectorAddr) (Watched.onfmReadSector l.g sectorAddr) post ram stack := by
  have last : ∀ (ret : Status) (ram₁ : OnfmRam S) stack₁, BufferReady l.g ram₁ stack₁ →
      Code.Alike (ftlMachine l fuel oracle bytes) (Watched.machine l fuel oracle bytes faults)
        (do
          let ram ← get
          if ret = .success then
            pure (0, some (ram.onfmReadBuffer (sectorAddr - ram.readBufferStartSector)))
          else do
            modify fun ram => { ram with readBufferStartSector := invalidLsaddr }
            pure (-1, none))
        (do
          let ram ← get
          if ret = .success then
            pure (0, some (ram.onfmReadBuffer (sectorAddr - ram.readBufferStartSector)))
          else do
            modify fun ram => { ram with readBufferStartSector := invalidLsaddr }
            pure (-1, none)) post ram₁ stack₁ := by
    intro ret ram₁ stack₁ ready₁
    refine .getBind (.ite (fun _ => .pure (meets _ _ _ ready₁)) fun _ => .modifyBind (.pure ?_))
    exact meets _ _ _ (ready₁.congr rfl rfl rfl)
  refine .getBind (.ite (fun _ => last .success ram stack ready) fun _ => ?_)
  refine .bind (ready.alike_ftlRead noFailures fun answer ram₁ stack₁ ready₁ => .modifyBind ?_)
  refine .ite (fun _ => .modifyBind ?_) fun _ => ?_
  · exact last answer.1 _ stack₁ (ready₁.congr rfl rfl rfl)
  · exact last answer.1 _ stack₁ (ready₁.congr rfl rfl rfl)

theorem alike_onfmReadSectors {sectorAddr : Nat} {sectors : List Nat} {ret : Int}
    {sectorData : Nat → S} {post : Int × (Nat → S) → OnfmRam S → Stack S → Prop}
    (noFailures : NoFailures oracle) (ready : BufferReady l.g ram stack)
    (meets : ∀ answer ram' stack', BufferReady l.g ram' stack' → post answer ram' stack') :
    Code.Alike (ftlMachine l fuel oracle bytes) (Watched.machine l fuel oracle bytes faults)
      (onfmReadSectors l.g sectorAddr sectors ret sectorData)
      (Watched.onfmReadSectors l.g sectorAddr sectors ret sectorData) post ram stack := by
  induction sectors generalizing ret sectorData ram stack with
  | nil => exact .pure (meets _ ram stack ready)
  | cons i rest ih =>
      refine .ite (fun _ => .bind ?_) fun _ => ih ready
      exact alike_onfmReadSector noFailures ready fun answer ram₁ stack₁ ready₁ => ih ready₁

theorem alike_onfmRead {sectorAddr sectorCount : Nat} {sectorData : Nat → S}
    {post : Int × (Nat → S) → OnfmRam S → Stack S → Prop} (noFailures : NoFailures oracle)
    (ready : BufferReady l.g ram stack)
    (meets : ∀ answer ram' stack', BufferReady l.g ram' stack' → post answer ram' stack') :
    Code.Alike (ftlMachine l fuel oracle bytes) (Watched.machine l fuel oracle bytes faults)
      (onfmRead l.g sectorAddr sectorCount sectorData)
      (Watched.onfmRead l.g sectorAddr sectorCount sectorData) post ram stack := by
  refine .ite (fun _ => .bind ?_) fun _ => .bind ?_
  · exact ready.alike_ftlRead noFailures fun answer ram₁ stack₁ ready₁ =>
      .bind (.pure (.assertBind fun _ => .pure (meets _ ram₁ stack₁ ready₁)))
  · exact alike_onfmReadSectors noFailures ready fun answer ram₁ stack₁ ready₁ =>
      .assertBind fun _ => .pure (meets _ ram₁ stack₁ ready₁)

/-! ## Writing -/

theorem BufferReady.alike_putSector {addr : Nat} {sector : S}
    {post : Unit → OnfmRam S → Stack S → Prop} (ready : BufferReady l.g ram stack)
    (meets : ∀ ram', BufferReady l.g ram' stack → post () ram' stack) :
    Code.Alike (ftlMachine l fuel oracle bytes) (Watched.machine l fuel oracle bytes faults)
      (putSector l.g addr sector) (Watched.putSector l.g addr sector) post ram stack :=
  OpenNfm.alike_putSector fun ram' used write merge => meets ram' (ready.congr used write merge)

/-- The page that was handed out goes to the FTL. -/
theorem alike_ftlWrite_full {page full next : Nat} {content : Nat → S}
    {post : Status → OnfmRam S → Stack S → Prop} (noFailures : NoFailures oracle)
    (small : l.g.pagePerPhyBlock < allOnes) (owns : Owns l.g ram stack [next, full])
    (isNext : ram.writeBuffer = some next) (noMerge : ram.mergeBuffer = none)
    (meets : ∀ ret ram' stack', BufferReady l.g ram' stack' → post ret ram' stack') :
    Code.Alike (ftlMachine l fuel oracle bytes) (Watched.machine l fuel oracle bytes faults)
      (ftlWrite l.g page (.pool full) content) (Watched.ftlWrite page (.pool full) content) post ram
        stack := by
  have inPool : full < l.g.bufferCount := owns.owns.inPool full (by simp)
  have offered : Owns l.g ram stack
      ([next] ++ poolBuffers l.g [(PageSource.pool full).address l.g]) := by
    rw [PageSource.address, poolBuffers_cons, if_pos inPool]
    exact owns
  exact alike_ftlWrite noFailures small offered fun ret used stack₁ owns₁ =>
    meets ret _ stack₁ ⟨⟨next, isNext, owns₁⟩, noMerge⟩

/-- Memory of the host is no buffer of the pool. -/
theorem alike_ftlWrite_host {page : Nat} {content : Nat → S}
    {post : Status → OnfmRam S → Stack S → Prop} (noFailures : NoFailures oracle)
    (small : l.g.pagePerPhyBlock < allOnes) (ready : BufferReady l.g ram stack)
    (meets : ∀ ret ram' stack', BufferReady l.g ram' stack' → post ret ram' stack') :
    Code.Alike (ftlMachine l fuel oracle bytes) (Watched.machine l fuel oracle bytes faults)
      (ftlWrite l.g page .host content) (Watched.ftlWrite page .host content) post ram stack := by
  obtain ⟨buffer, isWrite, owns⟩ := ready.write
  have offered :
      Owns l.g ram stack ([buffer] ++ poolBuffers l.g [PageSource.host.address l.g]) := by
    rw [PageSource.address, poolBuffers_bufferCount]
    exact owns
  exact alike_ftlWrite noFailures small offered fun ret used stack₁ owns₁ =>
    meets ret _ stack₁ ⟨⟨buffer, isWrite, owns₁⟩, ready.merge⟩

theorem alike_onfmWriteSector {sectorAddr : Nat} {sectorData : Option S}
    {post : Int → OnfmRam S → Stack S → Prop} (noFailures : NoFailures oracle)
    (small : l.g.pagePerPhyBlock < allOnes) (ready : BufferReady l.g ram stack)
    (meets : ∀ ret ram' stack', BufferReady l.g ram' stack' → post ret ram' stack') :
    Code.Alike (ftlMachine l fuel oracle bytes) (Watched.machine l fuel oracle bytes faults)
      (onfmWriteSector l.g sectorAddr sectorData)
      (Watched.onfmWriteSector l.g faults sectorAddr sectorData) post ram stack := by
  have puts : ∀ (sector : S) (ret : Status) (ram₁ : OnfmRam S) stack₁, BufferReady l.g ram₁ stack₁ →
      Code.Alike (ftlMachine l fuel oracle bytes) (Watched.machine l fuel oracle bytes faults)
        (do
          putSector l.g sectorAddr sector
          pure (if ret = .success then (0 : Int) else -1))
        (do
          Watched.putSector l.g sectorAddr sector
          pure (if ret = .success then (0 : Int) else -1)) post ram₁ stack₁ := by
    intro sector ret ram₁ stack₁ ready₁
    exact .bind (ready₁.alike_putSector fun ram₂ ready₂ => .pure (meets _ ram₂ stack₁ ready₂))
  refine .getBind (.ite (fun _ => ?_) fun _ => ?_)
  · cases sectorData with
    | none => exact .pure (meets _ ram stack ready)
    | some sector => exact .modifyBind (puts sector .success _ stack (ready.congr rfl rfl rfl))
  · have flushed : ∀ (ret : Status) (ram₁ : OnfmRam S) stack₁, BufferReady l.g ram₁ stack₁ →
        Code.Alike (ftlMachine l fuel oracle bytes) (Watched.machine l fuel oracle bytes faults)
          (pure (if ret = .success then (0 : Int) else -1))
          (pure (if ret = .success then (0 : Int) else -1)) post ram₁ stack₁ :=
      fun ret ram₁ stack₁ ready₁ => .pure (meets _ ram₁ stack₁ ready₁)
    cases sectorData with
    | none =>
        refine .assertBind fun _ => .bind (alike_getPage noFailures ready
          fun pageAddr full next ram₁ stack₁ owns₁ isNext noMerge => .getBind (.bind ?_))
        refine alike_ftlWrite_full noFailures small owns₁ isNext noMerge
          fun ret ram₂ stack₂ ready₂ => .ite (fun _ => ?_) fun _ => ?_
        · exact .assertBind fun _ => .modifyBind (flushed ret _ stack₂ (ready₂.congr rfl rfl rfl))
        · exact flushed ret ram₂ stack₂ ready₂
    | some sector =>
        cases inPage : decide (ram.startingSector ≤ sectorAddr ∧
          sectorAddr < l.g.behindPage ram.startingSector) with
        | true => exact puts sector .success ram stack ready
        | false =>
            refine .assertBind fun _ => .bind (alike_getPage noFailures ready
              fun pageAddr full next ram₁ stack₁ owns₁ isNext noMerge => .getBind (.bind ?_))
            refine alike_ftlWrite_full noFailures small owns₁ isNext noMerge
              fun ret ram₂ stack₂ ready₂ => .ite (fun _ => .modifyBind ?_) fun _ => ?_
            · exact puts sector ret _ stack₂ (ready₂.congr rfl rfl rfl)
            · exact flushed ret ram₂ stack₂ ready₂

theorem alike_onfmWriteSectors {sectorAddr : Nat} {sectorData : Nat → S} {sectors : List Nat}
    {post : Int → OnfmRam S → Stack S → Prop} (noFailures : NoFailures oracle)
    (small : l.g.pagePerPhyBlock < allOnes) (ready : BufferReady l.g ram stack)
    (meets : ∀ ret ram' stack', BufferReady l.g ram' stack' → post ret ram' stack') :
    Code.Alike (ftlMachine l fuel oracle bytes) (Watched.machine l fuel oracle bytes faults)
      (onfmWriteSectors l.g sectorAddr sectorData sectors)
      (Watched.onfmWriteSectors l.g faults sectorAddr sectorData sectors) post ram stack := by
  induction sectors generalizing ram stack with
  | nil => exact .pure (meets _ ram stack ready)
  | cons i rest ih =>
      exact .bind (alike_onfmWriteSector noFailures small ready fun ret ram₁ stack₁ ready₁ =>
        .ite (fun _ => ih ready₁) fun _ => .pure (meets _ ram₁ stack₁ ready₁))

theorem alike_onfmWrite {sectorAddr sectorCount : Nat} {sectorData : Nat → S}
    {post : Int → OnfmRam S → Stack S → Prop} (noFailures : NoFailures oracle)
    (small : l.g.pagePerPhyBlock < allOnes) (ready : BufferReady l.g ram stack)
    (meets : ∀ ret ram' stack', BufferReady l.g ram' stack' → post ret ram' stack') :
    Code.Alike (ftlMachine l fuel oracle bytes) (Watched.machine l fuel oracle bytes faults)
      (onfmWrite l.g sectorAddr sectorCount sectorData)
      (Watched.onfmWrite l.g faults sectorAddr sectorCount sectorData) post ram stack := by
  refine .modifyBind (.ite (fun _ => .bind ?_) fun _ => .bind ?_)
  · exact alike_ftlWrite_host noFailures small (ready.congr rfl rfl rfl)
      fun ret ram₁ stack₁ ready₁ => .pure (meets _ ram₁ stack₁ ready₁)
  · refine alike_onfmWriteSectors noFailures small (ready.congr rfl rfl rfl)
      fun ret ram₁ stack₁ ready₁ => .ite (fun _ => ?_) fun _ => .pure (meets _ ram₁ stack₁ ready₁)
    exact alike_onfmWriteSector noFailures small ready₁ meets

/-- A call runs alike over the watched pool, and the buffers are ready again behind it. -/
theorem alike_onfmCall {call : OnfmCall S} (noFailures : NoFailures oracle)
    (small : l.g.pagePerPhyBlock < allOnes) (ready : BufferReady l.g ram stack) :
    Code.Alike (ftlMachine l fuel oracle bytes) (Watched.machine l fuel oracle bytes faults)
      (onfmCall l.g call) (Watched.onfmCall l.g faults call)
      (fun _ ram' stack' => BufferReady l.g ram' stack') ram stack := by
  cases call with
  | write addr count data =>
      exact .bind (alike_onfmWrite noFailures small ready fun ret ram₁ stack₁ ready₁ =>
        .pure ready₁)
  | read addr count data =>
      exact .bind (alike_onfmRead noFailures ready fun answer ram₁ stack₁ ready₁ => .pure ready₁)

end Calls

/-! ## Runs -/

section Runs

variable {l : Ftl.Layout} {fuel : Nat} {S : Type} [Zero S] {oracle : DeviceOracle (Nat → S)}
  {bytes : Ftl.FtlPage (Nat → S) → Nat → S} {ram : OnfmRam S} {stack : Stack S}

/-- The states between the calls of a run.  It starts with `BUF_Init` and `UBI_Init`, behind
which the tables of the FTL may be anything, or with a mount. -/
inductive BufferRun (l : Ftl.Layout) (fuel : Nat) (oracle : DeviceOracle (Nat → S))
    (bytes : Ftl.FtlPage (Nat → S) → Nat → S) : OnfmRam S → Stack S → Prop
  | start {ram ram' : OnfmRam S} {stack stack' : Stack S} {ftl : Ftl.FtlRam}
      {ubi : UbiRam (Ftl.FtlPage (Nat → S))} {calls : DeviceCalls (Nat → S)}
      (bufInit : ((onfmMount l.g).run ram).exec (ftlMachine l fuel oracle bytes) stack =
        .ok (((), ram'), stack'))
      (ubiInit : ((ubiInit l.g fuel).run stack'.ubi).exec oracle.machine stack'.calls =
        .ok ((.success, ubi), calls)) : BufferRun l fuel oracle bytes ram' ⟨ftl, ubi, calls⟩
  | mount {ram ram' : OnfmRam S} {stack stack' : Stack S} {ftl : Ftl.FtlRam}
      {ubi : UbiRam (Ftl.FtlPage (Nat → S))} {calls : DeviceCalls (Nat → S)}
      (bufInit : ((onfmMount l.g).run ram).exec (ftlMachine l fuel oracle bytes) stack =
        .ok (((), ram'), stack'))
      (ftlInit : (stack'.program l.g fuel l.g.bufferCount (Ftl.ftlInit l fuel)).exec
        oracle.machine stack'.calls = .ok (((.success, ftl), ubi), calls)) :
      BufferRun l fuel oracle bytes ram' ⟨ftl, ubi, calls⟩
  | call {ram ram' : OnfmRam S} {stack stack' : Stack S} {call : OnfmCall S}
      {answer : OnfmAnswer S} (earlier : BufferRun l fuel oracle bytes ram stack)
      (run : ((onfmCall l.g call).run ram).exec (ftlMachine l fuel oracle bytes) stack =
        .ok ((answer, ram'), stack')) : BufferRun l fuel oracle bytes ram' stack'

omit [Zero S] in
/-- `BUF_Init` allocates the write buffer. -/
theorem wp_bufInit {E : Type} {machine : Machine (FtlOp S) (FtlAns S) E} {state : E}
    {g : Geometry} :
    Code.wp machine (fun _ => True) (onfmMount g) (fun _ ram' _ => ram'.mergeBuffer = none ∧
      ∃ buffer, ram'.writeBuffer = some buffer ∧ PoolOwns g ram' [buffer]) ram state := by
  have few : ([] : List Nat).length < g.bufferCount := by
    unfold Geometry.bufferCount
    exact Nat.succ_pos _
  simp only [onfmMount, Buf.init, Code.wp_bind, Code.wp_modify]
  refine ⟨trivial, trivial, wp_allocate ⟨List.nodup_nil, by simp, ?_⟩ few trivial
    fun buffer owns => ?_⟩
  · intro other inPool
    simp [inPool]
  · exact ⟨trivial, trivial, buffer, rfl, owns.congr rfl⟩

omit [Zero S] in
/-- The buffers are ready behind a mount of the UBI layer. -/
theorem bufferReady_of_balanced {g : Geometry} {calls : DeviceCalls (Nat → S)} {buffer : Nat}
    (noMerge : ram.mergeBuffer = none) (isWrite : ram.writeBuffer = some buffer)
    (owns : PoolOwns g ram [buffer])
    (balanced : Balanced g (freedBuffers g calls) stack.ubi stack.calls)
    (later : calls <:+ stack.calls) : BufferReady g ram stack := by
  refine ⟨⟨buffer, isWrite, balanced.alone, ?_⟩, noMerge⟩
  rw [balanced.heldBuffers_eq_nil later, List.append_nil]
  exact owns

theorem BufferRun.ready (noFailures : NoFailures oracle) (small : l.g.pagePerPhyBlock < allOnes)
    (run : BufferRun l fuel oracle bytes ram stack) : BufferReady l.g ram stack := by
  induction run with
  | start bufInit ubiInit =>
      obtain ⟨noMerge, buffer, isWrite, owns⟩ := Code.post_of_wp wp_bufInit bufInit
      exact bufferReady_of_balanced noMerge isWrite owns
        (Code.post_of_spec spec_ubiInit ubiInit rfl) (Code.Yields.suffix.of_run ubiInit)
  | mount bufInit ftlInit =>
      obtain ⟨noMerge, buffer, isWrite, owns⟩ := Code.post_of_wp wp_bufInit bufInit
      exact bufferReady_of_balanced noMerge isWrite owns
        (Prog.post_of_spec (over_ftlInit noFailures) ftlInit rfl)
        (Code.Yields.suffix.of_run ftlInit)
  | call earlier run ready =>
      rename_i call answer
      have alike : Code.Alike _ (Watched.machine l fuel oracle bytes .source) (onfmCall l.g call)
          (Watched.onfmCall l.g .source call) _ _ _ := alike_onfmCall noFailures small ready
      exact alike.2 _ _ _ run

/-- Between two calls the buffers in use are the write buffer and those that `dice_hold` has.
No allocation of a call fails or takes a buffer that is in use, and no buffer is released that
is not in use: whatever would happen then, the call does the same. -/
theorem bufferRun_watched (noFailures : NoFailures oracle) (small : l.g.pagePerPhyBlock < allOnes)
    (run : BufferRun l fuel oracle bytes ram stack) :
    (∃ buffer, ram.writeBuffer = some buffer ∧
      PoolOwns l.g ram (buffer :: heldBuffers l.g stack.ubi)) ∧
    ∀ (faults : PoolFaults S) (call : OnfmCall S),
      ((Watched.onfmCall l.g faults call).run ram).exec
        (Watched.machine l fuel oracle bytes faults) stack =
      ((onfmCall l.g call).run ram).exec (ftlMachine l fuel oracle bytes) stack := by
  have ready := run.ready noFailures small
  obtain ⟨buffer, isWrite, owns⟩ := ready.write
  refine ⟨⟨buffer, isWrite, owns.owns⟩, fun faults call => ?_⟩
  exact (alike_onfmCall noFailures small ready).1

end Runs

/-! ## A write that merges a page -/

/-- The tables of the UBI layer on their blocks. -/
def tableOn (block : Nat) : Option (UbiBuffer (Ftl.FtlPage (Nat → Nat))) :=
  if block = 1 then
    some (.anchor ⟨5, (0 : Nat), invalidBlock, (0 : Nat), invalidBlock, oneDie.dataBlockCount, 0,
      anchorOath, anchorVersion, fun _ => invalidBlock⟩)
  else if block = 5 then
    some (.index ⟨fun _ => ⟨6, (0 : Nat)⟩, fun i => ⟨120 + i, (0 : Nat)⟩,
      ⟨invalidBlock, invalidBlock, invalidEc⟩⟩)
  else if block = 6 then some (.area fun i => ⟨7 + i, (0 : Nat)⟩)
  else none

/-- A device with the tables on the first pages of their blocks, on which nothing fails. -/
def tableOracle : DeviceOracle (Nat → Nat)
  | _, .read block page =>
      if page = 0 then
        match tableOn block with
        | some table => ⟨.success, table, ⟨0, 0⟩⟩
        | none => ⟨.success, .ones, .ones⟩
      else ⟨.success, .ones, .ones⟩
  | _, .program _ _ _ _ => .success
  | _, .erase _ => .success
  | _, .waitReady _ => .success
  | _, .readStatus _ => .success
  | _, .checkBlock _ => .success
  | _, .bufFree _ => ()

/-- One die, with the node caches behind the first page of memory. -/
def oneDieLayout : Ftl.Layout := ⟨oneDie, 1, oneDie.ubiCapacity, 4096⟩

/-- The static variables of the FTL when no page is mapped.  The journals are on the blocks 40
and 41. -/
def unmappedFtl : Ftl.FtlRam :=
  { Ftl.FtlRam.reset with
    pmNodeCaches := fun _ _ => allOnes
    rootTable :=
      { Ftl.Root.reset with
        pageMappingNodes := fun _ => 4096
        hotJournal := fun _ => Ftl.PmNode.setBlockPage oneDie 40 0
        coldJournal := fun _ => Ftl.PmNode.setBlockPage oneDie 41 0 } }

/-- What a data page reads as. -/
def dataBytes : Ftl.FtlPage (Nat → Nat) → Nat → Nat
  | .data page => page
  | _ => fun _ => 255

/-- Two sectors of page 0 are written behind a mount: the merged page is held in buffer 2, and
buffer 0 is the write buffer again. -/
theorem bufferRun_merges_oneDie :
    ∃ (ram : OnfmRam Nat) (stack : Stack Nat),
      BufferRun oneDieLayout 5 tableOracle dataBytes ram stack ∧
      heldBuffers oneDie stack.ubi = [2] ∧
      (∃ buffer, ram.writeBuffer = some buffer ∧
        PoolOwns oneDie ram (buffer :: heldBuffers oneDie stack.ubi)) ∧
      ∀ (faults : PoolFaults Nat) (call : OnfmCall Nat),
        ((Watched.onfmCall oneDie faults call).run ram).exec
          (Watched.machine oneDieLayout 5 tableOracle dataBytes faults) stack =
        ((onfmCall oneDie call).run ram).exec (ftlMachine oneDieLayout 5 tableOracle dataBytes)
          stack := by
  have runs : Code.returns (((onfmMount oneDie).run mountedOnfm).exec
        (ftlMachine oneDieLayout 5 tableOracle dataBytes) ⟨.reset, .reset _, []⟩)
      (fun _ ram stack => Code.returns
        (((ubiInit oneDie 5).run stack.ubi).exec tableOracle.machine stack.calls)
        fun status ubi calls => decide (status = .success) && Code.returns
          (((onfmCall oneDie (.write 3 2 id)).run ram).exec
            (ftlMachine oneDieLayout 5 tableOracle dataBytes) ⟨unmappedFtl, ubi, calls⟩)
          fun _ _ stack => decide (heldBuffers oneDie stack.ubi = [2])) = true := by
    set_option maxRecDepth 100000 in decide +kernel
  obtain ⟨_, ram, stack, bufInit, rest⟩ := Code.returns_iff.mp runs
  obtain ⟨status, ubi, calls, ubiInit, rest⟩ := Code.returns_iff.mp rest
  obtain ⟨isSuccess, rest⟩ := (Bool.and_eq_true_iff).mp rest
  obtain rfl := of_decide_eq_true isSuccess
  obtain ⟨answer, ram', stack', writes, held⟩ := Code.returns_iff.mp rest
  have run : BufferRun oneDieLayout 5 tableOracle dataBytes ram' stack' :=
    .call (.start bufInit ubiInit) writes
  have noFailures : NoFailures tableOracle := ⟨fun _ _ _ _ _ => rfl, fun _ _ => rfl⟩
  have small : oneDieLayout.g.pagePerPhyBlock < allOnes := by decide
  exact ⟨ram', stack', run, of_decide_eq_true held, bufferRun_watched noFailures small run⟩

end OpenNfm
