import OpenNfm.Mtd.Answers
import OpenNfm.Program.Meter
import OpenNfm.Ubi.HeldPages
import OpenNfm.Ubi.Runs

/-!
# How large erase counts get

The counts of the model are natural numbers, those of the source 32-bit words.  A count grows by
one when a block is erased, and by `STATIC_WL_THRESHOLD` when a program of the block has failed.
In a run of any length and with any failures, no count is larger than the number of erases and
the thresholds of the failed programs together.  Until that number comes near `INVALID_EC`, the
sums and comparisons of the model are those of the words.
-/

namespace OpenNfm

open OpenNfm.Program

/-! ## Counts and words -/

namespace EraseCount

variable {ec other : EraseCount} {n m k : Nat}

/-- The count is invalid or at most `n`. -/
def AtMost (ec : EraseCount) (n : Nat) : Prop :=
  ∀ count : Nat, ec = count → count ≤ n

theorem atMost_invalid : AtMost invalidEc n :=
  fun _ wrong => absurd wrong WithTop.top_ne_coe

theorem atMost_zero : AtMost ((0 : Nat) : WithTop Nat) n :=
  fun count same => (WithTop.coe_inj.mp same : 0 = count) ▸ Nat.zero_le n

theorem AtMost.mono (atMost : ec.AtMost n) (le : n ≤ m) : ec.AtMost m :=
  fun count same => Nat.le_trans (atMost count same) le

theorem AtMost.plus (atMost : ec.AtMost n) (k : Nat) : (ec.plus k).AtMost (n + k) := by
  intro count same
  cases ec using WithTop.recTopCoe with
  | top =>
      have isCount : k - 1 = count := WithTop.coe_inj.mp same
      omega
  | coe before =>
      have isCount : before + k = count := WithTop.coe_inj.mp same
      have le := atMost before rfl
      omega

/-- The 32-bit word of the source. -/
def word : EraseCount → Nat
  | some count => count
  | none => allOnes

/-- A sum of the model is the sum of the words, as long as the count is not too large. -/
theorem AtMost.word_plus (atMost : ec.AtMost n) (pos : 0 < k) (small : n + k < allOnes) :
    (ec.plus k).word = (ec.word + k) % 2 ^ 32 := by
  unfold allOnes at small
  cases ec using WithTop.recTopCoe with
  | top =>
      show k - 1 = (allOnes + k) % 2 ^ 32
      unfold allOnes
      omega
  | coe before =>
      have le := atMost before rfl
      show before + k = (before + k) % 2 ^ 32
      omega

/-- The order of the model is the order of the words. -/
theorem AtMost.word_lt_iff (atMost : ec.AtMost n) (atMost' : other.AtMost n)
    (small : n < allOnes) : ec.word < other.word ↔ ec < other := by
  cases ec using WithTop.recTopCoe with
  | top =>
      refine iff_of_false (fun less => ?_) not_top_lt
      cases other using WithTop.recTopCoe with
      | top => exact absurd less (Nat.lt_irrefl _)
      | coe count =>
          have le := atMost' count rfl
          have less' : allOnes < count := less
          omega
  | coe count =>
      have le := atMost count rfl
      cases other using WithTop.recTopCoe with
      | top => exact iff_of_true (Nat.lt_of_le_of_lt le small) (WithTop.coe_lt_top count)
      | coe count' => exact WithTop.coe_lt_coe.symm

end EraseCount

/-! ## The meter -/

/-- Every count of the table is invalid or at most `n`. -/
structure IndexTable.CountsAtMost (table : IndexTable) (n : Nat) : Prop where
  areaIndex : ∀ area, (table.areaIndex area).ec.AtMost n
  free : ∀ i, (table.free i).ec.AtMost n
  updating : table.areaUpdatePlr.blockEc.AtMost n

/-- Every count of the table is invalid or at most `n`. -/
structure AnchorTable.CountsAtMost (table : AnchorTable) (n : Nat) : Prop where
  indexNew : table.indexNewEc.AtMost n
  indexOld : table.indexOldEc.AtMost n

/-- Every count of a page is invalid or at most `n`. -/
def UbiBuffer.CountsAtMost {D : Type} (n : Nat) : UbiBuffer D → Prop
  | .index table => table.CountsAtMost n
  | .area table => ∀ i, (table i).ec.AtMost n
  | .anchor table => table.CountsAtMost n
  | .ones => True
  | .data _ => True

/-- The counts that come with a held page are invalid or at most `n`. -/
structure DieHoldPage.CountsAtMost {D : Type} (held : DieHoldPage D) (n : Nat) : Prop where
  ec : held.ec.AtMost n
  content : ∀ buffer ∈ held.buffer, buffer.content.CountsAtMost n

/-- Every count in the memory is invalid or at most `n`. -/
structure UbiRam.CountsAtMost {D : Type} (ram : UbiRam D) (n : Nat) : Prop where
  index : ram.indexTable.CountsAtMost n
  indexBlock : ram.indexBlockEc.AtMost n
  cached : ∀ i, (ram.cachedAreaTable i).ec.AtMost n
  anchor : ram.anchorTable.CountsAtMost n
  held : ∀ slot, (ram.diceHold slot).CountsAtMost n

/-- A call that programs a page with counts that are at most `n`, or no page. -/
def MtdOp.CountsAtMost {D : Type} (n : Nat) : MtdOp (UbiBuffer D) → Prop
  | .program _ _ main _ => main.CountsAtMost n
  | _ => True

/-- What the calls may have added to a count: one for each erase, and the threshold for each
program that has failed. -/
def wear {B : Type} (g : Geometry) : MtdCalls B → Nat
  | [] => 0
  | ⟨.erase _, _⟩ :: rest => wear g rest + 1
  | ⟨.program _ _ _ _, ret⟩ :: rest =>
      wear g rest + if ret = Status.badblock then g.staticWlThreshold else 0
  | ⟨.waitReady _, ret⟩ :: rest =>
      wear g rest + if ret = Status.badblock then g.staticWlThreshold else 0
  | _ :: rest => wear g rest

/-- A read gives the pattern of erased flash or a page that has been programmed. -/
def ReadsBack {D : Type} (oracle : Oracle (MtdOp (UbiBuffer D)) (MtdAns (UbiBuffer D))) : Prop :=
  ∀ calls block page, (oracle calls (.read block page)).main = .ones ∨
    ∃ called ∈ calls, ∃ block' page' spare,
      called.op = .program block' page' (oracle calls (.read block page)).main spare

/-- What was programmed last to a page, unless its block has been erased since. -/
def lastMain {D : Type} : MtdCalls (UbiBuffer D) → Nat → Nat → UbiBuffer D
  | [], _, _ => .ones
  | ⟨.erase erased, _⟩ :: rest, block, page =>
      if erased = block then .ones else lastMain rest block page
  | ⟨.program block' page' main _, _⟩ :: rest, block, page =>
      if block' = block ∧ page' = page then main else lastMain rest block page
  | _ :: rest, block, page => lastMain rest block page

/-- A flash that gives back what was programmed last. -/
theorem readsBack_of_lastMain {D : Type}
    {oracle : Oracle (MtdOp (UbiBuffer D)) (MtdAns (UbiBuffer D))}
    (same : ∀ calls block page,
      (oracle calls (.read block page)).main = lastMain calls block page) :
    ReadsBack oracle := by
  have last : ∀ (calls : MtdCalls (UbiBuffer D)) block page, lastMain calls block page = .ones ∨
      ∃ called ∈ calls, ∃ block' page' spare,
        called.op = .program block' page' (lastMain calls block page) spare := by
    intro calls block page
    induction calls with
    | nil => exact .inl rfl
    | cons called rest ih =>
        have older : lastMain (called :: rest) block page = lastMain rest block page →
            lastMain (called :: rest) block page = .ones ∨ ∃ called' ∈ called :: rest,
              ∃ block' page' spare, called'.op =
                .program block' page' (lastMain (called :: rest) block page) spare := by
          intro same
          rw [same]
          refine ih.imp_right fun earlier => ?_
          obtain ⟨called', member, programmed⟩ := earlier
          exact ⟨called', List.mem_cons_of_mem _ member, programmed⟩
        obtain ⟨op, answer⟩ := called
        cases op with
        | erase erased =>
            rcases eq_or_ne erased block with isSame | other
            · exact .inl (if_pos isSame)
            · exact older (if_neg other)
        | program block' page' main spare =>
            by_cases isSame : block' = block ∧ page' = page
            · refine .inr ⟨_, List.mem_cons_self, block', page', spare, ?_⟩
              show MtdOp.program block' page' main spare =
                .program block' page' (if _ then _ else _) _
              rw [if_pos isSame]
            · exact older (if_neg isSame)
        | _ => exact older rfl
  intro calls block page
  rw [same]
  exact last calls block page

section Meter

variable {D : Type} {n m : Nat}

theorem IndexTable.CountsAtMost.mono {table : IndexTable} (counts : table.CountsAtMost n)
    (le : n ≤ m) : table.CountsAtMost m :=
  ⟨fun area => (counts.areaIndex area).mono le, fun i => (counts.free i).mono le,
    counts.updating.mono le⟩

theorem AnchorTable.CountsAtMost.mono {table : AnchorTable} (counts : table.CountsAtMost n)
    (le : n ≤ m) : table.CountsAtMost m :=
  ⟨counts.indexNew.mono le, counts.indexOld.mono le⟩

theorem UbiBuffer.CountsAtMost.mono {page : UbiBuffer D} (counts : page.CountsAtMost n)
    (le : n ≤ m) : page.CountsAtMost m := by
  cases page with
  | index table => exact IndexTable.CountsAtMost.mono counts le
  | area table => exact fun i => (counts i).mono le
  | anchor table => exact AnchorTable.CountsAtMost.mono counts le
  | ones => trivial
  | data => trivial

theorem DieHoldPage.CountsAtMost.mono {held : DieHoldPage D} (counts : held.CountsAtMost n)
    (le : n ≤ m) : held.CountsAtMost m :=
  ⟨counts.ec.mono le, fun buffer member => (counts.content buffer member).mono le⟩

theorem UbiRam.CountsAtMost.mono {ram : UbiRam D} (counts : ram.CountsAtMost n) (le : n ≤ m) :
    ram.CountsAtMost m :=
  ⟨counts.index.mono le, counts.indexBlock.mono le, fun i => (counts.cached i).mono le,
    counts.anchor.mono le, fun slot => (counts.held slot).mono le⟩

theorem MtdOp.CountsAtMost.mono {op : MtdOp (UbiBuffer D)} (counts : op.CountsAtMost n)
    (le : n ≤ m) : op.CountsAtMost m := by
  cases op with
  | program => exact UbiBuffer.CountsAtMost.mono counts le
  | _ => trivial

theorem IndexTable.blank_countsAtMost : IndexTable.blank.CountsAtMost n :=
  ⟨fun _ => EraseCount.atMost_invalid, fun _ => EraseCount.atMost_invalid,
    EraseCount.atMost_invalid⟩

theorem AnchorTable.blank_countsAtMost : AnchorTable.blank.CountsAtMost n :=
  ⟨EraseCount.atMost_invalid, EraseCount.atMost_invalid⟩

theorem UbiRam.reset_countsAtMost : (UbiRam.reset D).CountsAtMost n :=
  ⟨⟨fun _ => EraseCount.atMost_zero, fun _ => EraseCount.atMost_zero, EraseCount.atMost_zero⟩,
    EraseCount.atMost_zero, fun _ => EraseCount.atMost_zero,
    ⟨EraseCount.atMost_zero, EraseCount.atMost_zero⟩,
    fun _ => ⟨EraseCount.atMost_zero, fun _ member => by cases member⟩⟩

theorem wear_cons {B : Type} (g : Geometry) (called : Called (MtdOp B) (MtdAns B))
    (calls : MtdCalls B) : wear g calls ≤ wear g (called :: calls) := by
  obtain ⟨op, answer⟩ := called
  cases op <;> simp only [wear] <;> omega

/-- The meter of the erase counts. -/
def countMeter (g : Geometry) (D : Type) :
    Meter (UbiRam D) (MtdOp (UbiBuffer D)) (MtdAns (UbiBuffer D)) where
  reading := wear g
  memory n ram := ram.CountsAtMost n
  call n op := op.CountsAtMost n
  reading_cons := wear_cons g
  memory_mono le counts := counts.mono le
  call_mono le counts := counts.mono le

end Meter

/-- An entry with a count that is at most `n` in a table of such entries. -/
theorem atMost_update {n i : Nat} {table : Nat → BlockEc} {entry : BlockEc}
    (counts : ∀ i, (table i).ec.AtMost n) (atMost : entry.ec.AtMost n) (j : Nat) :
    (Function.update table i entry j).ec.AtMost n := by
  rcases eq_or_ne j i with rfl | other
  · rw [Function.update_self]
    exact atMost
  · rw [Function.update_of_ne other]
    exact counts j

/-! ## The device -/

section Functions

variable {g : Geometry} {fuel : Nat} {D α β : Type} {n : Nat}
  {oracle : Oracle (MtdOp (UbiBuffer D)) (MtdAns (UbiBuffer D))}

/-- The code keeps the counts within the meter, and its result is as `post` says. -/
abbrev Counts (g : Geometry) (oracle : Oracle (MtdOp (UbiBuffer D)) (MtdAns (UbiBuffer D)))
    (n : Nat) (code : Ubi D α) (post : α → Nat → Prop) : Prop :=
  (countMeter g D).Gives oracle n code post

/-- The code keeps the counts within the meter. -/
abbrev KeepsCounts (g : Geometry)
    (oracle : Oracle (MtdOp (UbiBuffer D)) (MtdAns (UbiBuffer D))) (n : Nat) (code : Ubi D α) :
    Prop :=
  Counts g oracle n code fun _ _ => True

theorem counts_mtdRead {block page : Nat} (reads : ReadsBack oracle) :
    Counts g oracle n (mtdRead block page) fun answer m => answer.main.CountsAtMost m := by
  refine .perform (fun _ _ => trivial) fun ram calls kept => ?_
  rcases reads calls block page with erased | ⟨called, member, block', page', spare, programmed⟩
  · rw [erased]
    trivial
  · have counts := kept.calls called member
    rw [programmed] at counts
    exact UbiBuffer.CountsAtMost.mono counts (wear_cons g _ calls)

/-- After a failure the meter has gone up by the threshold. -/
theorem counts_mtdProgram {block page : Nat} {main : UbiBuffer D} {spare : Option Spare}
    (counts : main.CountsAtMost n) :
    Counts g oracle n (mtdProgram block page main spare)
      fun ret m => ret = .badblock → n + g.staticWlThreshold ≤ m := by
  refine .perform (fun m le => counts.mono le) fun ram calls kept failed => ?_
  have since : n ≤ wear g calls := kept.since
  show _ ≤ wear g calls + if _ = Status.badblock then _ else _
  rw [if_pos failed]
  omega

theorem counts_mtdWaitReady {block : Nat} :
    Counts g oracle n (mtdWaitReady block : Ubi D _)
      fun ret m => ret = .badblock → n + g.staticWlThreshold ≤ m := by
  refine .perform (fun _ _ => trivial) fun ram calls kept failed => ?_
  have since : n ≤ wear g calls := kept.since
  show _ ≤ wear g calls + if _ = Status.badblock then _ else _
  rw [if_pos failed]
  omega

/-- After an erase the meter has gone up by one. -/
theorem counts_mtdErase {block : Nat} :
    Counts g oracle n (mtdErase block : Ubi D _) fun _ m => n + 1 ≤ m := by
  refine .perform (fun _ _ => trivial) fun ram calls kept => ?_
  have since : n ≤ wear g calls := kept.since
  exact Nat.succ_le_succ since

theorem counts_mtdReadStatus {block : Nat} :
    KeepsCounts g oracle n (mtdReadStatus block : Ubi D _) :=
  .perform (fun _ _ => trivial) fun _ _ _ => trivial

theorem counts_mtdCheckBlock {block : Nat} :
    KeepsCounts g oracle n (mtdCheckBlock block : Ubi D _) :=
  .perform (fun _ _ => trivial) fun _ _ _ => trivial

theorem counts_bufFree {buffer : Nat} : KeepsCounts g oracle n (bufFree buffer : Ubi D _) :=
  .perform (fun _ _ => trivial) fun _ _ _ => trivial

/-! ## Tables -/

theorem counts_tableWrite {block page : Nat} {buffer : UbiBuffer D}
    (counts : buffer.CountsAtMost n) : KeepsCounts g oracle n (tableWrite block page buffer) :=
  .seq (counts_mtdProgram counts) fun _ => .ite (fun _ => counts_mtdWaitReady.kept) fun _ => .done

theorem counts_tableSearch {block rounds head tail : Nat} (reads : ReadsBack oracle) :
    KeepsCounts g oracle n (tableSearch block rounds head tail : Ubi D Nat) := by
  induction rounds generalizing head tail n with
  | zero => exact .halt
  | succ rounds ih =>
      refine .ite (fun _ => .seq (counts_mtdRead reads) fun _ => ?_) fun _ => ?_
      · exact .ite (fun _ => ih) fun _ => ih
      · exact .seq .assert fun _ => .done

theorem counts_tableRead {block page : Nat} (reads : ReadsBack oracle) :
    Counts g oracle n (tableRead g block page)
      fun result m => result.2.2.CountsAtMost m := by
  have last : ∀ mid {n : Nat}, Counts g oracle n (do
      let answer ← mtdRead block mid
      if answer.status = .success then
        if answer.spare.first = allOnes then pure (.failure, invalidPage, answer.main)
        else pure (.success, mid, answer.main)
      else pure (answer.status, invalidPage, answer.main) :
        Ubi D (Status × Nat × UbiBuffer D)) fun result m => result.2.2.CountsAtMost m := by
    intro mid n
    refine .bind (counts_mtdRead reads) fun answer m _ counts => ?_
    refine .ite (fun _ => .ite (fun _ => ?_) fun _ => ?_) fun _ => ?_
    all_goals exact .pure fun _ le => UbiBuffer.CountsAtMost.mono counts le
  exact .ite (fun _ => .seq (counts_tableSearch reads) fun mid => last mid)
    fun _ => .seq (counts_tableSearch reads) fun mid => last mid

theorem counts_loadIndex {buffer : UbiBuffer D} (counts : buffer.CountsAtMost n) :
    Counts g oracle n (loadIndex buffer) fun table m => table.CountsAtMost m := by
  cases buffer with
  | index table => exact .pure fun _ le => IndexTable.CountsAtMost.mono counts le
  | ones => exact .pure fun _ _ => IndexTable.blank_countsAtMost
  | area | anchor | data => exact .halt

theorem counts_loadArea {buffer : UbiBuffer D} (counts : buffer.CountsAtMost n) :
    Counts g oracle n (loadArea buffer) fun table m => ∀ i, (table i).ec.AtMost m := by
  cases buffer with
  | area table => exact .pure fun _ le i => (counts i).mono le
  | ones => exact .pure fun _ _ _ => EraseCount.atMost_invalid
  | index | anchor | data => exact .halt

theorem counts_loadAnchor {buffer : UbiBuffer D} (counts : buffer.CountsAtMost n) :
    Counts g oracle n (loadAnchor buffer) fun table m => table.CountsAtMost m := by
  cases buffer with
  | anchor table => exact .pure fun _ le => AnchorTable.CountsAtMost.mono counts le
  | ones => exact .pure fun _ _ => AnchorTable.blank_countsAtMost
  | index | area | data => exact .halt

/-! ## The anchor -/

theorem counts_anchorLogBadBlock {block : Nat} :
    KeepsCounts g oracle n (anchorLogBadBlock g block : Ubi D Unit) :=
  .modifies fun _ _ _ counts => { counts with anchor := { counts.anchor with } }

theorem counts_anchorIsBadBlock {block : Nat} :
    KeepsCounts g oracle n (anchorIsBadBlock g block : Ubi D Bool) :=
  .seq .get fun _ => .done

theorem counts_anchorFindLoop {current rounds block : Nat} :
    KeepsCounts g oracle n (anchorFindLoop g current rounds block : Ubi D _) := by
  induction rounds generalizing block n with
  | zero => exact .halt
  | succ rounds ih =>
      refine .seq counts_anchorIsBadBlock fun bad => .ite (fun _ => ?_) fun _ => ?_
      · exact .seq .done fun _ => .ite (fun _ => ih) fun _ => .done
      · refine .seq counts_mtdErase fun _ => .ite (fun _ => ?_) fun _ => ?_
        · exact .seq counts_anchorLogBadBlock fun _ => .seq .done fun _ =>
            .ite (fun _ => ih) fun _ => .done
        · exact .seq .done fun _ => .ite (fun _ => ih) fun _ => .done

theorem counts_anchorFindNextBlock {current : Nat} :
    KeepsCounts g oracle n (anchorFindNextBlock g current : Ubi D _) :=
  .seq counts_anchorFindLoop fun _ => .ite (fun _ => .done) fun _ => .done

theorem counts_anchorUpdateLoop {rounds : Nat} {reclaimed : Bool} :
    KeepsCounts g oracle n (anchorUpdateLoop g rounds reclaimed : Ubi D Status) := by
  induction rounds generalizing reclaimed n with
  | zero => exact .halt
  | succ rounds ih =>
      have write : ∀ found reclaimed {n : Nat}, KeepsCounts g oracle n (do
          if found ≠ .success then pure found
          else do
            let ram ← get
            let ret ← tableWrite ram.anchorBlock ram.anchorNextPage (.anchor ram.anchorTable)
            if ret = .success then do
              if reclaimed then
                let _ ← mtdErase ram.anchorTable.previousAnchorBlock
              modify fun ram => { ram with anchorNextPage := ram.anchorNextPage + 1 }
              pure ret
            else do
              if ret = .badblock then
                modify fun ram => { ram with anchorNextPage := g.pagePerPhyBlock }
              anchorUpdateLoop g rounds reclaimed : Ubi D Status) := by
        intro found reclaimed n
        refine .ite (fun _ => .done) fun _ => .bind .get fun ram m _ counts => ?_
        refine .seq (counts_tableWrite counts.anchor) fun ret => .ite (fun _ => ?_) fun _ => ?_
        · have next : ∀ {n}, KeepsCounts g oracle n (do
              modify fun ram => { ram with anchorNextPage := ram.anchorNextPage + 1 }
              pure ret : Ubi D Status) :=
            .seq (.modifies fun _ _ _ counts => { counts with }) fun _ => .done
          exact .ite (fun _ => .seq counts_mtdErase fun _ => next) fun _ => next
        · exact .ite (fun _ => .seq (.modifies fun _ _ _ counts => { counts with }) fun _ => ih)
            fun _ => ih
      refine .seq .get fun ram => .ite (fun _ => ?_) fun _ => .seq .done fun _ => write _ _
      refine .seq (.modifies fun _ _ _ counts =>
        { counts with anchor := { counts.anchor with } }) fun _ =>
          .seq counts_anchorFindNextBlock fun result => ?_
      exact .ite (fun _ => .seq (.modifies fun _ _ _ counts => { counts with }) fun _ =>
        .seq .done fun _ => write _ _) fun _ => .seq .done fun _ => write _ _

theorem counts_anchorUpdate : KeepsCounts g oracle n (anchorUpdate g fuel : Ubi D Status) :=
  counts_anchorUpdateLoop

theorem counts_anchorIndexReclaim {block new : Nat} {ec newEc : EraseCount} (old : ec.AtMost n)
    (young : newEc.AtMost n) :
    KeepsCounts g oracle n (anchorIndexReclaim block ec new newEc : Ubi D Unit) :=
  .modifies fun _ _ le counts => { counts with anchor := ⟨young.mono le, old.mono le⟩ }

theorem counts_anchorFormatErase {blocks : List Nat} :
    KeepsCounts g oracle n (anchorFormatErase g blocks : Ubi D Unit) := by
  induction blocks generalizing n with
  | nil => exact .done
  | cons block rest ih =>
      refine .seq counts_anchorIsBadBlock fun bad => .ite (fun _ => ?_) fun _ => ih
      exact .seq counts_mtdErase fun _ =>
        .ite (fun _ => .seq counts_anchorLogBadBlock fun _ => ih) fun _ => ih

theorem counts_anchorFormat {totalDataBlock : Nat} :
    KeepsCounts g oracle n (anchorFormat g fuel totalDataBlock : Ubi D Status) :=
  .seq (.modifies fun _ _ _ counts => { counts with anchor := { counts.anchor with } }) fun _ =>
    .seq counts_anchorFormatErase fun _ => counts_anchorUpdate

/-- The older one of two blocks with an anchor is erased. -/
theorem counts_eraseOld {chosen : AnchorFound} {oldBlock : Nat} :
    KeepsCounts g oracle n (do
      if oldBlock ≠ invalidBlock then
        let ret ← mtdErase oldBlock
        if ret ≠ .success then anchorLogBadBlock g oldBlock
      pure (some chosen) : Ubi D (Option AnchorFound)) := by
  refine .ite (fun _ => .seq counts_mtdErase fun ret => ?_) fun _ => .done
  exact .ite (fun _ => .seq counts_anchorLogBadBlock fun _ => .done) fun _ => .done

theorem counts_anchorInitScan {blocks : List Nat} {found : Option AnchorFound}
    (reads : ReadsBack oracle) :
    KeepsCounts g oracle n (anchorInitScan g blocks found : Ubi D _) := by
  induction blocks generalizing found n with
  | nil => exact .done
  | cons block rest ih =>
      refine .seq (counts_tableRead reads) fun _ => .ite (fun _ => ?_) fun _ =>
        .seq .done fun _ => ?_
      on_goal 1 =>
        refine .bind (counts_tableRead reads) fun result m _ counts => ?_
        refine .bind (counts_loadAnchor counts) fun table m _ counts => ?_
        refine .seq (.modifies fun _ _ le kept => { kept with anchor := counts.mono le }) fun _ =>
          .seq .done fun _ => ?_
      all_goals
        intro m
        refine .ite (fun _ => .seq .get fun ram => ?_) fun _ => ih
        intro m
        cases found with
        | none => exact ih
        | some first =>
            refine .ite (fun _ => .seq .done fun _ => counts_eraseOld) fun _ => ?_
            exact .seq .assert fun _ => .seq .done fun _ => counts_eraseOld

theorem counts_anchorInit (reads : ReadsBack oracle) :
    KeepsCounts g oracle n (anchorInit g : Ubi D Status) := by
  refine .seq (.modifies fun _ _ _ counts => { counts with
    index := IndexTable.blank_countsAtMost, anchor := AnchorTable.blank_countsAtMost }) fun _ =>
      .seq (counts_anchorInitScan reads) fun found => ?_
  cases found with
  | none => exact .done
  | some newest =>
      exact .seq (.modifies fun _ _ _ counts => { counts with }) fun _ => .seq .get fun _ =>
        .ite (fun _ => .done) fun _ => .done

/-! ## Areas -/

theorem counts_areaRead {area : Nat} (reads : ReadsBack oracle) :
    KeepsCounts g oracle n (areaRead g area : Ubi D Status) := by
  have last : ∀ ret {n : Nat}, KeepsCounts g oracle n (do
      modify fun ram =>
        { ram with cachedAreaNumber := if ret = Status.success then area else invalidArea }
      pure ret : Ubi D Status) :=
    fun ret n => .seq (.modifies fun _ _ _ counts => { counts with }) fun _ => .done
  refine .seq .get fun ram => .ite (fun _ => ?_) fun _ => .seq .done fun _ => last _
  refine .seq .assert fun _ => .bind (counts_tableRead reads) fun result m _ counts => ?_
  refine .bind (counts_loadArea counts) fun table m _ counts => ?_
  exact .seq (.modifies fun _ _ le kept => { kept with cached := fun i => (counts i).mono le })
    fun _ => .seq .done fun _ => last _

theorem counts_areaInit {area : Nat} (reads : ReadsBack oracle) :
    KeepsCounts g oracle n (areaInit g area : Ubi D Status) :=
  .seq (.modifies fun _ _ _ counts => { counts with }) fun _ => counts_areaRead reads

theorem counts_areaIsFull {logicalBlock : Nat} (reads : ReadsBack oracle) :
    KeepsCounts g oracle n (areaIsFull g logicalBlock : Ubi D Bool) :=
  .seq (counts_areaRead reads) fun _ => .seq .get fun _ => .done

theorem counts_areaFindMinEcBlock {area : Nat} (reads : ReadsBack oracle) :
    Counts g oracle n (areaFindMinEcBlock g area : Ubi D (Nat × Option BlockEc))
      fun result m => ∀ entry, result.2 = some entry → entry.ec.AtMost m := by
  refine .seq (counts_areaRead reads) fun ret => .ite (fun _ => ?_) fun _ => ?_
  · refine .bind .get fun ram m _ counts => .pure fun m' le entry found => ?_
    rw [← Option.some.inj found]
    exact (counts.cached _).mono le
  · exact .pure fun _ _ _ wrong => absurd wrong.symm (Option.some_ne_none _)

theorem counts_areaCheckUpdatePlr {logicalBlock originBlock : Nat} {blockEc : EraseCount}
    (atMost : blockEc.AtMost n) :
    KeepsCounts g oracle n
      (areaCheckUpdatePlr g logicalBlock originBlock blockEc : Ubi D Bool) := by
  refine .bind .get fun ram m le _ => .ite (fun _ => .done) fun _ => ?_
  exact .seq (.modifies fun _ _ le' counts =>
    { counts with cached := atMost_update counts.cached (atMost.mono (le.trans le')) })
    fun _ => .done

theorem counts_areaGetBlock {logicalBlock : Nat} (reads : ReadsBack oracle) :
    KeepsCounts g oracle n (areaGetBlock g logicalBlock : Ubi D Nat) :=
  .seq (counts_areaRead reads) fun _ => .seq .get fun _ => .done

theorem counts_areaGetEc {logicalBlock : Nat} (reads : ReadsBack oracle) :
    Counts g oracle n (areaGetEc g logicalBlock : Ubi D EraseCount) fun ec m => ec.AtMost m := by
  refine .seq (counts_areaRead reads) fun ret => .bind .get fun ram m _ counts => ?_
  refine .pure fun m' le => ?_
  split
  · exact (counts.cached _).mono le
  · exact EraseCount.atMost_invalid

theorem counts_areaUpdate {logicalBlock newOriginBlock : Nat} {newOriginEc : EraseCount}
    (reads : ReadsBack oracle) (atMost : newOriginEc.AtMost n) :
    KeepsCounts g oracle n
      (areaUpdate g logicalBlock newOriginBlock newOriginEc : Ubi D Status) := by
  have last : ∀ ret page {n : Nat}, KeepsCounts g oracle n (do
      if ret = Status.success then do
        Code.assert (page ≠ invalidPage)
        modify fun ram =>
          { ram with areaOffsetTable :=
            Function.update ram.areaOffsetTable (g.areaIndex logicalBlock) page }
      else if ret = .badblock then
        modify fun ram =>
          { ram with
            areaOffsetTable := Function.update ram.areaOffsetTable (g.areaIndex logicalBlock)
              (g.pagePerPhyBlock - 1)
            indexTable :=
              { ram.indexTable with
                areaIndex := Function.update ram.indexTable.areaIndex (g.areaIndex logicalBlock)
                  ⟨(ram.indexTable.areaIndex (g.areaIndex logicalBlock)).block, invalidEc⟩ } }
      pure ret : Ubi D Status) := by
    intro ret page n
    refine .ite (fun _ => .seq .assert fun _ => ?_) fun _ => .ite (fun _ => ?_) fun _ => .done
    · exact .seq (.modifies fun _ _ _ counts => { counts with }) fun _ => .done
    · exact .seq (.modifies fun _ _ _ counts => { counts with index := { counts.index with
        areaIndex := atMost_update counts.index.areaIndex EraseCount.atMost_invalid } })
        fun _ => .done
  refine .bind (counts_areaRead reads) fun ret m le _ => .ite (fun _ => ?_) fun _ => ?_
  · refine .ite (fun _ => .seq (.modifies fun _ _ le' counts => { counts with
      cached := atMost_update counts.cached (atMost.mono (le.trans le')) }) fun _ => ?_) fun _ => ?_
    all_goals
      exact .bind .get fun ram m _ counts => .seq (counts_tableWrite counts.cached) fun _ =>
        .seq .done fun _ => last _ _
  · exact .seq .done fun _ => last _ _

theorem counts_areaFormatFill {blockCount steps i block : Nat} {ret : Status} {table : AreaTable}
    (counts : ∀ i, (table i).ec.AtMost n) :
    Counts g oracle n (areaFormatFill g blockCount steps i block ret table : Ubi D _)
      fun result m => ∀ i, (result.2.2 i).ec.AtMost m := by
  induction steps generalizing i block ret table n with
  | zero => exact .halt
  | succ steps ih =>
      have stop : Counts g oracle n (pure (ret, block, table) : Ubi D (Status × Nat × AreaTable))
          fun result m => ∀ i, (result.2.2 i).ec.AtMost m :=
        .pure fun _ le i => (counts i).mono le
      refine .ite (fun _ => .ite (fun _ => ?_) fun _ => stop) fun _ => stop
      have next : ∀ ret m, n ≤ m → Counts g oracle m (
          if ret = Status.success then
            areaFormatFill g blockCount steps (i + 1) (block + 1) ret
              (Function.update table i ⟨block, (0 : Nat)⟩)
          else areaFormatFill g blockCount steps i (block + 1) ret table :
            Ubi D (Status × Nat × AreaTable)) fun result m => ∀ i, (result.2.2 i).ec.AtMost m :=
        fun ret m le => .ite
          (fun _ => ih (atMost_update (fun i => (counts i).mono le) EraseCount.atMost_zero))
          fun _ => ih fun i => (counts i).mono le
      refine .bind counts_anchorIsBadBlock fun bad m le _ => .ite (fun _ => ?_) fun _ => ?_
      · exact .bind .done fun _ m' le' _ => next _ m' (le.trans le')
      · refine .bind counts_mtdErase fun ret m' le' _ => .ite (fun _ => ?_) fun _ => ?_
        · exact .bind counts_anchorLogBadBlock fun _ m₁ le₁ _ => .bind .done fun _ m₂ le₂ _ =>
            next _ m₂ (le.trans (le'.trans (le₁.trans le₂)))
        · exact .bind .done fun _ m₁ le₁ _ => next _ m₁ (le.trans (le'.trans le₁))

theorem counts_areaFormatSkip {steps block : Nat} :
    KeepsCounts g oracle n (areaFormatSkip g steps block : Ubi D Nat) := by
  induction steps generalizing block n with
  | zero => exact .halt
  | succ steps ih => exact .seq counts_anchorIsBadBlock fun _ => .ite (fun _ => ih) fun _ => .done

theorem counts_areaFormat {blockCount block area : Nat} :
    KeepsCounts g oracle n (areaFormat g blockCount block area : Ubi D Nat) := by
  have last : ∀ ret block {n : Nat}, KeepsCounts g oracle n (do
      if ret = Status.success then do
        modify fun ram =>
          { ram with
            indexTable :=
              { ram.indexTable with
                areaIndex := Function.update ram.indexTable.areaIndex area ⟨block, (0 : Nat)⟩ }
            areaOffsetTable := Function.update ram.areaOffsetTable area 0 }
        pure (block + 1)
      else do
        anchorLogBadBlock g block
        pure invalidBlock : Ubi D Nat) := by
    intro ret block n
    refine .ite (fun _ => ?_) fun _ => .seq counts_anchorLogBadBlock fun _ => .done
    exact .seq (.modifies fun _ _ _ counts => { counts with index := { counts.index with
      areaIndex := atMost_update counts.index.areaIndex EraseCount.atMost_zero } }) fun _ => .done
  have write : ∀ ret block (table : AreaTable) {n : Nat}, (∀ i, (table i).ec.AtMost n) →
      KeepsCounts g oracle n (do
        let ret ← if ret = Status.success then tableWrite block 0 (.area table) else pure ret
        if ret = Status.success then do
          modify fun ram =>
            { ram with
              indexTable :=
                { ram.indexTable with
                  areaIndex := Function.update ram.indexTable.areaIndex area ⟨block, (0 : Nat)⟩ }
              areaOffsetTable := Function.update ram.areaOffsetTable area 0 }
          pure (block + 1)
        else do
          anchorLogBadBlock g block
          pure invalidBlock : Ubi D Nat) := by
    intro ret block table n counts
    exact .ite (fun _ => .seq (counts_tableWrite counts) fun _ => last _ _)
      fun _ => .seq .done fun _ => last _ _
  refine .seq (.modifies fun _ _ _ counts =>
    { counts with cached := fun _ => EraseCount.atMost_invalid }) fun _ => ?_
  refine .bind (counts_areaFormatFill fun _ => EraseCount.atMost_invalid)
    fun result m _ counts => ?_
  have filled : ∀ i, ((fun i => if blockCount ≤ i ∧ i < g.cfgPhyBlockPerArea then .invalid
      else result.2.2 i : AreaTable) i).ec.AtMost m := by
    intro i
    dsimp only
    split
    · exact EraseCount.atMost_invalid
    · exact counts i
  refine .bind (.modifies fun _ _ le kept =>
    { kept with cached := fun i => (filled i).mono le }) fun _ m' le' _ => ?_
  refine .ite (fun _ => ?_) fun _ => ?_
  · refine .bind counts_areaFormatSkip fun block m₁ le₁ _ => ?_
    refine .bind counts_mtdErase fun ret m₂ le₂ _ => .bind .done fun _ m₃ le₃ _ => ?_
    exact write _ _ _ fun i => (filled i).mono (le'.trans (le₁.trans (le₂.trans le₃)))
  · exact .bind .done fun _ m₁ le₁ _ => write _ _ _ fun i => (filled i).mono (le'.trans le₁)

/-! ## The free block table -/

theorem counts_freeBlockRemove {table : Nat → BlockEc} (counts : ∀ i, (table i).ec.AtMost n)
    (i j : Nat) : (freeBlockRemove g table i j).ec.AtMost n := by
  unfold freeBlockRemove
  split
  · exact counts j
  · split
    · exact counts (j + 1)
    · split
      · exact EraseCount.atMost_invalid
      · exact counts j

theorem counts_freeBlockInsert {table : Nat → BlockEc} {position last : Nat} {entry : BlockEc}
    (counts : ∀ i, (table i).ec.AtMost n) (atMost : entry.ec.AtMost n) (j : Nat) :
    (freeBlockInsert table position last entry j).ec.AtMost n := by
  unfold freeBlockInsert
  split
  · exact counts j
  · split
    · exact atMost
    · split
      · exact counts (j - 1)
      · exact counts j

theorem counts_setFree {change : (Nat → BlockEc) → Nat → BlockEc}
    (stable : ∀ table m, n ≤ m → (∀ i, (table i).ec.AtMost m) → ∀ i, (change table i).ec.AtMost m) :
    KeepsCounts g oracle n (setFree change : Ubi D Unit) :=
  .modifies fun _ m le counts => { counts with index := { counts.index with
    free := stable _ m le counts.index.free } }

theorem counts_indexFreeBlockPut {block : Nat} {ec : EraseCount} (atMost : ec.AtMost n) :
    KeepsCounts g oracle n (indexFreeBlockPut g block ec : Ubi D Unit) :=
  counts_setFree fun _ _ le counts => counts_freeBlockInsert counts (atMost.mono le)

/-- A block that is taken has been erased, so its count is within the meter with one more. -/
theorem counts_indexFreeBlockGetLoop {die rounds : Nat} :
    Counts g oracle n (indexFreeBlockGetLoop g die rounds : Ubi D _)
      fun result m => result.1 ≠ .badblock ∧ (result.1 = .success → result.2.ec.AtMost m) := by
  induction rounds generalizing n with
  | zero => exact .halt
  | succ rounds ih =>
      refine .bind .get fun ram m _ counts => ?_
      let i := (freeBlockSearch g ram.indexTable.free die).getD 0
      have final : ∀ (ret : Status) {n : Nat},
          (ret = .success → ((ram.indexTable.free i).ec.plus 1).AtMost n) →
          Counts g oracle n (
            if ret ≠ .success ∧ ret ≠ .toomanyBadblock ∧ ret ≠ .simulatedPowerLoss then
              indexFreeBlockGetLoop g die rounds
            else pure (ret, ⟨(ram.indexTable.free i).block, (ram.indexTable.free i).ec.plus 1⟩) :
              Ubi D (Status × BlockEc))
            fun result m => result.1 ≠ .badblock ∧
              (result.1 = .success → result.2.ec.AtMost m) := by
        intro ret n atMost
        refine .ite (fun _ => ih) fun returned => .pure fun m' le => ?_
        refine ⟨fun bad => returned ?_, fun success => (atMost success).mono le⟩
        have isBad : ret = .badblock := bad
        rw [isBad]
        decide
      have drop : ∀ (ret : Status) {n : Nat},
          (ret = .success → ((ram.indexTable.free i).ec.plus 1).AtMost n) →
          Counts g oracle n (do
            if ret ≠ .toomanyBadblock then setFree fun table => freeBlockRemove g table i
            if ret ≠ .success ∧ ret ≠ .toomanyBadblock ∧ ret ≠ .simulatedPowerLoss then
              indexFreeBlockGetLoop g die rounds
            else pure (ret, ⟨(ram.indexTable.free i).block, (ram.indexTable.free i).ec.plus 1⟩) :
              Ubi D (Status × BlockEc))
            fun result m => result.1 ≠ .badblock ∧
              (result.1 = .success → result.2.ec.AtMost m) :=
        fun ret n atMost => .ite (fun _ =>
          .bind (counts_setFree fun _ _ _ counts => counts_freeBlockRemove counts i)
            fun _ _ le _ => final ret fun success => (atMost success).mono le)
          fun _ => final ret atMost
      refine .ite (fun _ => ?_) fun _ => ?_
      · refine .bind counts_mtdErase fun ret m' _ erased => ?_
        have atMost := ((counts.index.free i).plus 1).mono erased
        exact .ite (fun _ => .bind counts_anchorLogBadBlock fun _ _ le _ =>
          drop ret fun _ => atMost.mono le) fun _ => drop ret fun _ => atMost
      · refine .bind .same fun ret m' _ isFull => ?_
        have failed : ret ≠ .success := by
          rw [isFull]
          decide
        exact .ite (fun _ => .seq counts_anchorLogBadBlock fun _ =>
          drop ret fun success => absurd success failed)
          fun _ => drop ret fun success => absurd success failed

theorem counts_indexFreeBlockGet {die : Nat} :
    Counts g oracle n (indexFreeBlockGet g fuel die : Ubi D _)
      fun result m => result.1 ≠ .badblock ∧ (result.1 = .success → result.2.ec.AtMost m) :=
  counts_indexFreeBlockGetLoop

theorem counts_indexFreeBlockGetMaxEcBlock :
    Counts g oracle n (indexFreeBlockGetMaxEcBlock g : Ubi D (Option BlockEc))
      fun max m => ∀ entry, max = some entry → entry.ec.AtMost m := by
  refine .bind .get fun ram m _ counts => .pure fun m' le entry found => ?_
  split at found
  · rw [← Option.some.inj found]
    exact (counts.index.free _).mono le
  · cases found

theorem counts_indexFreeBlockSwapMaxEcBlock {block : Nat} {ec : EraseCount} (atMost : ec.AtMost n) :
    KeepsCounts g oracle n (indexFreeBlockSwapMaxEcBlock g block ec : Ubi D Unit) := by
  refine .bind .get fun ram m le _ => .ite (fun _ => .ite (fun _ => .halt) fun _ => ?_)
    fun _ => .done
  exact counts_setFree fun _ _ le' counts =>
    counts_freeBlockInsert counts (atMost.mono (le.trans le'))

/-! ## The index -/

theorem counts_indexUpdate : KeepsCounts g oracle n (indexUpdate g fuel : Ubi D Status) := by
  have write : ∀ ret {n : Nat}, KeepsCounts g oracle n (do
      let ram ← get
      let ret ←
        if ret = Status.success then
          tableWrite ram.indexBlock ram.indexNextPage (.index ram.indexTable)
        else pure ret
      if ret = .success then
        modify fun ram => { ram with indexNextPage := ram.indexNextPage + 1 }
      else if ret = .badblock then
        modify fun ram =>
          { ram with indexNextPage := g.pagePerPhyBlock, indexBlockEc := invalidEc }
      pure ret : Ubi D Status) := by
    intro ret n
    have last : ∀ ret {n : Nat}, KeepsCounts g oracle n (do
        if ret = Status.success then
          modify fun ram => { ram with indexNextPage := ram.indexNextPage + 1 }
        else if ret = .badblock then
          modify fun ram =>
            { ram with indexNextPage := g.pagePerPhyBlock, indexBlockEc := invalidEc }
        pure ret : Ubi D Status) := by
      intro ret n
      refine .ite (fun _ => ?_) fun _ => .ite (fun _ => ?_) fun _ => .done
      · exact .seq (.modifies fun _ _ _ counts => { counts with }) fun _ => .done
      · exact .seq (.modifies fun _ _ _ counts =>
          { counts with indexBlock := EraseCount.atMost_invalid }) fun _ => .done
    refine .bind .get fun ram m _ counts => .ite (fun _ => ?_) fun _ => .seq .done fun _ => last _
    exact .seq (counts_tableWrite counts.index) fun _ => last _
  refine .bind .get fun ram m _ counts => .ite (fun _ => ?_) fun _ => .seq .done fun _ => write _
  refine .bind counts_indexFreeBlockGet fun result m₁ le₁ taken => ?_
  have old := counts.indexBlock.mono le₁
  -- the index block moves if the anchor could be written
  have move : ∀ ret m₂, m₁ ≤ m₂ → (ret = Status.success → result.2.ec.AtMost m₁) →
      KeepsCounts g oracle m₂ (do
        let ret ←
          if ret = Status.success then do
            indexFreeBlockPut g ram.indexBlock ram.indexBlockEc
            modify fun ram =>
              { ram with
                indexBlock := result.2.block, indexNextPage := 0, indexBlockEc := result.2.ec }
            pure ret
          else pure ret
        let ram ← get
        let ret ←
          if ret = Status.success then
            tableWrite ram.indexBlock ram.indexNextPage (.index ram.indexTable)
          else pure ret
        if ret = .success then
          modify fun ram => { ram with indexNextPage := ram.indexNextPage + 1 }
        else if ret = .badblock then
          modify fun ram =>
            { ram with indexNextPage := g.pagePerPhyBlock, indexBlockEc := invalidEc }
        pure ret : Ubi D Status) := by
    intro ret m₂ le₂ young
    refine .ite (fun success => ?_) fun _ => .seq .done fun _ => write _
    refine .bind (counts_indexFreeBlockPut (old.mono le₂)) fun _ m₃ le₃ _ => ?_
    exact .seq (.modifies fun _ _ le kept => { kept with
      indexBlock := (young success).mono (le₂.trans (le₃.trans le)) }) fun _ =>
        .seq .done fun _ => write _
  refine .ite (fun success => ?_) fun failed => ?_
  · refine .bind (counts_anchorIndexReclaim old (taken.2 success)) fun _ m₂ le₂ _ => ?_
    refine .bind counts_anchorUpdate fun ret m₃ le₃ _ => ?_
    exact move ret m₃ (le₂.trans le₃) fun _ => taken.2 success
  · refine .bind .same fun ret m₂ le₂ same => ?_
    exact move ret m₂ le₂ fun success => absurd (same ▸ success) failed

theorem counts_indexUpdateAreaReclaim {area newBlock : Nat} {nec : EraseCount}
    (atMost : nec.AtMost n) :
    KeepsCounts g oracle n (indexUpdateAreaReclaim g area newBlock nec : Ubi D Unit) := by
  refine .bind .get fun ram m le counts => ?_
  refine .bind (counts_indexFreeBlockPut (counts.index.areaIndex area)) fun _ m' le' _ => ?_
  exact .modifies fun _ _ le₁ kept => { kept with index := { kept.index with
    areaIndex := atMost_update kept.index.areaIndex (atMost.mono (le.trans (le'.trans le₁))) } }

theorem counts_indexUpdateAreaUpdate {logicalBlock physicalBlock : Nat} {blockEc : EraseCount}
    (atMost : blockEc.AtMost n) :
    KeepsCounts g oracle n
      (indexUpdateAreaUpdate logicalBlock physicalBlock blockEc : Ubi D Unit) :=
  .bind .assert fun _ _ le _ => .modifies fun _ _ le' counts =>
    { counts with index := { counts.index with updating := atMost.mono (le.trans le') } }

theorem counts_indexUpdateCommitRound {reclaim : Bool} (reads : ReadsBack oracle) :
    KeepsCounts g oracle n (indexUpdateCommitRound g fuel reclaim : Ubi D _) := by
  refine .bind .get fun ram m le counts => .ite (fun _ => ?_) fun _ => ?_
  · have areas : ∀ ret (reclaim : Bool) m', m ≤ m' → KeepsCounts g oracle m' (do
        let ret ←
          if ret = Status.success then do
            let ret ← areaUpdate g ram.indexTable.areaUpdatePlr.logicalBlock
              ram.indexTable.areaUpdatePlr.physicalBlock ram.indexTable.areaUpdatePlr.blockEc
            if ret = .success ∧ reclaim then indexUpdate g fuel else pure ret
          else pure ret
        if ret = .success then modify fun ram => { ram with isUpdatingArea := false }
        pure (ret, reclaim) : Ubi D (Status × Bool)) := by
      intro ret reclaim m' le'
      have last : ∀ ret {n : Nat}, KeepsCounts g oracle n (do
          if ret = Status.success then modify fun ram => { ram with isUpdatingArea := false }
          pure (ret, reclaim) : Ubi D (Status × Bool)) := fun ret n =>
        .ite (fun _ => .seq (.modifies fun _ _ _ counts => { counts with }) fun _ => .done)
          fun _ => .done
      refine .ite (fun _ => ?_) fun _ => .seq .done fun _ => last _
      refine .seq (counts_areaUpdate reads (counts.index.updating.mono le')) fun ret => ?_
      exact .ite (fun _ => .seq counts_indexUpdate fun _ => last _)
        fun _ => .seq .done fun _ => last _
    refine .bind (counts_areaIsFull reads) fun full m₁ le₁ _ => .ite (fun _ => ?_) fun _ => ?_
    · refine .bind .get fun ram' m₂ le₂ _ => .bind counts_indexFreeBlockGet
        fun result m₃ le₃ taken => .ite (fun success => ?_) fun _ => ?_
      · exact .bind (counts_indexUpdateAreaReclaim (taken.2 success)) fun _ m₄ le₄ _ =>
          .bind .done fun _ m₅ le₅ _ =>
            areas _ _ _ (le₁.trans (le₂.trans (le₃.trans (le₄.trans le₅))))
      · exact .bind .done fun _ m₄ le₄ _ =>
          areas _ _ _ (le₁.trans (le₂.trans (le₃.trans le₄)))
    · exact .bind counts_indexUpdate fun _ m₂ le₂ _ => .bind .done fun _ m₃ le₃ _ =>
        areas _ _ _ (le₁.trans (le₂.trans le₃))
  · exact .seq counts_indexUpdate fun _ => .done

/-- A commit goes on as long as it meets bad blocks. -/
theorem counts_indexUpdateCommit (reads : ReadsBack oracle) :
    Counts g oracle n (indexUpdateCommit g fuel : Ubi D Status) fun ret _ => ret ≠ .badblock := by
  have loop : ∀ rounds reclaim {n : Nat}, Counts g oracle n
      (indexUpdateCommitLoop g fuel rounds reclaim : Ubi D Status)
      fun ret _ => ret ≠ .badblock := by
    intro rounds
    induction rounds with
    | zero => exact fun _ _ => .halt
    | succ rounds ih =>
        exact fun reclaim n => .seq (counts_indexUpdateCommitRound reads) fun _ =>
          .ite (fun _ => ih _) fun good => .pure fun _ _ => good
  exact loop fuel false

theorem counts_indexFormatFill {blocks : List Nat} {ret : Status} {indexBlock count : Nat}
    {free : Nat → BlockEc} (counts : ∀ i, (free i).ec.AtMost n) :
    Counts g oracle n (indexFormatFill g blocks ret indexBlock count free : Ubi D _)
      fun result m => ∀ i, (result.2.2.2 i).ec.AtMost m := by
  induction blocks generalizing ret indexBlock count free n with
  | nil => exact .pure fun _ le i => (counts i).mono le
  | cons block rest ih =>
      refine .bind counts_anchorIsBadBlock fun bad m le _ => .ite (fun _ => ?_) fun _ => ?_
      on_goal 2 =>
        refine .bind counts_mtdErase fun ret m₁ le₁ _ => .ite (fun _ => ?_) fun _ => ?_
        refine .bind counts_anchorLogBadBlock fun _ m₂ le₂ _ => ?_
      all_goals
        refine .bind .done fun ret m' le' _ => .ite (fun _ => .ite (fun _ => ?_) fun _ => ?_)
          fun _ => ?_
        · exact ih fun i => (counts i).mono (by omega)
        · exact .bind .assert fun _ m'' le'' _ =>
            ih (atMost_update (fun i => (counts i).mono (by omega)) EraseCount.atMost_zero)
        · exact ih fun i => (counts i).mono (by omega)

theorem counts_indexFormat {totalBlock block : Nat} :
    KeepsCounts g oracle n (indexFormat g totalBlock block : Ubi D Nat) := by
  refine .seq (.modifies fun _ _ _ counts =>
    { counts with index := { counts.index with updating := EraseCount.atMost_invalid } }) fun _ =>
      .bind .get fun ram m _ counts => ?_
  refine .bind (counts_indexFormatFill counts.index.free) fun result m₁ le₁ filled => ?_
  have free : ∀ i, ((fun i => if result.2.2.1 ≤ i ∧ i < g.freeBlockCount then .invalid
      else result.2.2.2 i : Nat → BlockEc) i).ec.AtMost m₁ := by
    intro i
    dsimp only
    split
    · exact EraseCount.atMost_invalid
    · exact filled i
  refine .seq (.modifies fun _ _ le kept => { kept with index := { kept.index with
    free := fun i => (free i).mono le } }) fun _ => ?_
  intro m
  refine .ite (fun _ => .seq .assert fun _ => ?_) fun _ => ?_
  all_goals
    refine .ite (fun _ => .seq counts_anchorIsBadBlock fun _ => .seq .done fun _ => ?_)
      fun _ => .seq .done fun _ => ?_
    all_goals
      intro m
      refine .ite (fun _ => .seq counts_mtdErase fun _ => ?_) fun _ => .seq .done fun _ => ?_
      all_goals
        refine .bind .get fun ram m _ counts => .ite
          (fun _ => .seq (counts_tableWrite counts.index) fun _ => ?_) fun _ =>
            .seq .done fun _ => ?_
        all_goals
          intro m
          refine .ite (fun _ => ?_) fun _ => .seq counts_anchorLogBadBlock fun _ => .done
          exact .seq (.modifies fun _ _ _ counts => { counts with
            anchor := ⟨EraseCount.atMost_zero, EraseCount.atMost_invalid⟩ }) fun _ => .done

theorem counts_indexInit (reads : ReadsBack oracle) :
    Counts g oracle n (indexInit g fuel : Ubi D _)
      fun result m => result.2.blockEc.AtMost m := by
  have last : ∀ (ret : Status) {n : Nat}, Counts g oracle n (do
      let ram ← get
      pure (ret, ram.indexTable.areaUpdatePlr) : Ubi D (Status × AreaUpdatePlr))
      fun result m => result.2.blockEc.AtMost m := fun ret n =>
    .bind .get fun ram m _ counts => .pure fun _ le => counts.index.updating.mono le
  refine .seq (.modifies fun _ _ _ counts => { counts with }) fun _ => .seq .get fun ram =>
    .seq .assert fun _ => .bind (counts_tableRead reads) fun result m₁ _ read =>
      .bind (counts_loadIndex read) fun table m₂ _ loaded => ?_
  refine .seq (.modifies fun _ _ le kept => { kept with index := loaded.mono le }) fun _ => ?_
  intro m
  refine .ite (fun _ => ?_) fun _ => ?_
  · exact .seq (.modifies fun _ _ _ counts => { counts with indexBlock := counts.anchor.indexNew })
      fun _ => .seq counts_indexUpdate fun _ => .seq .done fun _ => last _
  · refine .seq .get fun ram => .seq .assert fun _ =>
      .bind (counts_tableRead reads) fun result m₁ _ read =>
        .bind (counts_loadIndex read) fun table m₂ _ loaded => ?_
    refine .seq (.modifies fun _ _ le kept => { kept with index := loaded.mono le }) fun _ => ?_
    intro m
    refine .ite (fun _ => ?_) fun _ => .seq .done fun _ => last _
    exact .seq (.modifies fun _ _ _ counts => { counts with indexBlock := counts.anchor.indexOld })
      fun _ => .seq counts_indexUpdate fun _ => last _

/-! ## Format and mount -/

theorem counts_ubiDetectBadBlocks {blocks : List Nat} :
    KeepsCounts g oracle n (ubiDetectBadBlocks g blocks : Ubi D Unit) := by
  induction blocks generalizing n with
  | nil => exact .done
  | cons block rest ih =>
      refine .seq counts_mtdCheckBlock fun ret => .ite (fun _ => .seq counts_mtdErase fun _ => ?_)
        fun _ => .seq .done fun _ => ?_
      all_goals exact .ite (fun _ => .seq counts_anchorLogBadBlock fun _ => ih) fun _ => ih

theorem counts_ubiFormatAreas {rounds block area total : Nat} :
    KeepsCounts g oracle n (ubiFormatAreas g rounds block area total : Ubi D _) := by
  induction rounds generalizing block area total n with
  | zero => exact .halt
  | succ rounds ih =>
      refine .seq .assert fun _ => .seq counts_areaFormat fun block => ?_
      intro m
      exact .ite (fun _ => .ite (fun _ => ih) fun _ => .done) fun _ => .done

theorem counts_ubiFormat (reads : ReadsBack oracle) :
    KeepsCounts g oracle n (ubiFormat g fuel : Ubi D Status) := by
  refine .seq (counts_anchorInit reads) fun ret => .ite
    (fun _ => .seq counts_ubiDetectBadBlocks fun _ => ?_) fun _ => ?_
  all_goals
    refine .seq counts_ubiFormatAreas fun result => .ite
      (fun _ => .seq counts_indexFormat fun _ => ?_) fun _ => .seq .done fun _ => ?_
    all_goals
      intro m
      refine .ite (fun _ => .seq .assert fun _ => counts_anchorFormat) fun _ => ?_
      exact .seq counts_anchorFormat fun _ => .done

theorem counts_ubiInitAreas {updating : AreaUpdatePlr} {areas : List Nat} {ret : Status}
    (reads : ReadsBack oracle) (atMost : updating.blockEc.AtMost n) :
    KeepsCounts g oracle n (ubiInitAreas g fuel updating areas ret : Ubi D Status) := by
  induction areas generalizing ret n with
  | nil => exact .done
  | cons area rest ih =>
      refine .bind (counts_areaInit reads) fun ret m le _ => .ite (fun _ => .ite (fun _ => ?_)
        fun _ => ?_) fun _ => .done
      · refine .bind (counts_areaCheckUpdatePlr (atMost.mono le)) fun missed m₁ le₁ _ =>
          .ite (fun _ => ?_) fun _ => ?_
        · exact .bind (counts_indexUpdateAreaUpdate (atMost.mono (by omega))) fun _ m₂ le₂ _ =>
            .bind (counts_indexUpdateCommit reads) fun _ m₃ le₃ _ => ih (atMost.mono (by omega))
        · exact .bind .done fun _ m₂ le₂ _ => ih (atMost.mono (by omega))
      · exact .bind .done fun _ m₁ le₁ _ => ih (atMost.mono (by omega))

theorem counts_ubiInit (reads : ReadsBack oracle) :
    KeepsCounts g oracle n (ubiInit g fuel : Ubi D Status) := by
  have last : ∀ ret {n : Nat}, KeepsCounts g oracle n (do
      if ret = Status.success then
        modify fun ram =>
          { ram with diceHold := fun die =>
            if die < g.totalDieCount then { ram.diceHold die with phyBlock := invalidBlock }
            else ram.diceHold die }
      pure ret : Ubi D Status) := by
    intro ret n
    refine .ite (fun _ => .seq (.modifies fun ram m _ counts => { counts with
      held := fun slot => ?_ }) fun _ => .done) fun _ => .done
    dsimp only
    split
    · exact ⟨(counts.held slot).ec, (counts.held slot).content⟩
    · exact counts.held slot
  refine .seq (counts_anchorInit reads) fun ret => .ite
    (fun _ => .bind (counts_indexInit reads) fun result m _ atMost => ?_)
    fun _ => .bind .same fun result m _ same => ?_
  · exact .ite (fun _ => .seq (counts_ubiInitAreas reads atMost) fun _ => last _)
      fun _ => .seq .done fun _ => last _
  · have atMost : result.2.blockEc.AtMost m := same ▸ EraseCount.atMost_invalid
    exact .ite (fun _ => .seq (counts_ubiInitAreas reads atMost) fun _ => last _)
      fun _ => .seq .done fun _ => last _

end Functions

end OpenNfm
