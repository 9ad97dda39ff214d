import OpenNfm.Ftl.Data
import OpenNfm.Program.Invariant

/-!
# Rules for the store

One rule for each call of the UBI layer.  The rules for partial correctness need no
preconditions: a call that the store refuses stops the run.
-/

namespace OpenNfm.Ftl

open OpenNfm.Program

section Rules

variable {g : Geometry} {capacity : Nat} {D : Type} {crash : UbiStore D → Prop} {halts : Prop}
  {block page : Nat} {ram : FtlRam} {store : UbiStore D}

theorem spec_ubiRead {post : ReadAnswer (FtlPage D) → FtlRam → UbiStore D → Prop}
    (isBlock : block < capacity) (isPage : page < g.pagePerPhyBlock) :
    Code.spec (storeMachine g capacity) crash halts (ubiRead block page) post ram store ↔
      crash store ∧ post (store.pages.answer block page) ram store := by
  have step : storeMachine g capacity store (.read block page) =
      .ok (store.pages.answer block page, store) := if_pos ⟨isBlock, isPage⟩
  refine (Code.spec_perform_of_step step).trans ?_
  rw [← and_assoc, and_self]

theorem spec_ubiRead_some {post : ReadAnswer (FtlPage D) → FtlRam → UbiStore D → Prop}
    {content : Page (FtlPage D)} (isBlock : block < capacity) (isPage : page < g.pagePerPhyBlock)
    (programmed : store.pages block page = some content) :
    Code.spec (storeMachine g capacity) crash halts (ubiRead block page) post ram store ↔
      crash store ∧ post ⟨.success, content.main, content.spare⟩ ram store := by
  rw [spec_ubiRead isBlock isPage, Nand.answer, programmed]

theorem spec_ubiRead_none {post : ReadAnswer (FtlPage D) → FtlRam → UbiStore D → Prop}
    (isBlock : block < capacity) (isPage : page < g.pagePerPhyBlock)
    (blank : store.pages block page = none) :
    Code.spec (storeMachine g capacity) crash halts (ubiRead block page) post ram store ↔
      crash store ∧ post ⟨.failure, PageContent.ones, .ones⟩ ram store := by
  rw [spec_ubiRead isBlock isPage, Nand.answer, blank]

theorem spec_ubiWrite {main : FtlPage D} {spare : Option Spare} {async : Bool}
    {post : Status → FtlRam → UbiStore D → Prop} (isBlock : block < capacity)
    (isPage : page < g.pagePerPhyBlock) (blank : store.pages block page = none) :
    Code.spec (storeMachine g capacity) crash halts (ubiWrite block page main spare async) post ram
        store ↔
      crash store ∧ crash (store.write block page ⟨main, spare.getD .ones⟩) ∧
        post .success ram (store.write block page ⟨main, spare.getD .ones⟩) := by
  have step : storeMachine g capacity store (.write block page main spare async) =
      .ok (.success, store.write block page ⟨main, spare.getD .ones⟩) := by
    simp [storeMachine, isBlock, isPage, blank]
  exact Code.spec_perform_of_step step

theorem spec_ubiErase {dieIndex : Nat} {post : Status → FtlRam → UbiStore D → Prop}
    (isBlock : block < capacity) :
    Code.spec (storeMachine g capacity) crash halts (ubiErase block dieIndex) post ram store ↔
      crash store ∧ crash (store.erase block) ∧ post .success ram (store.erase block) := by
  have step : storeMachine g capacity store (.erase block dieIndex) =
      .ok (.success, store.erase block) := if_pos isBlock
  exact Code.spec_perform_of_step step

theorem spec_ubiFlush {post : Status → FtlRam → UbiStore D → Prop} :
    Code.spec (storeMachine g capacity) crash halts ubiFlush post ram store ↔
      crash store ∧ post .success ram store := by
  have step : storeMachine g capacity store .flush = .ok (.success, store) := rfl
  refine (Code.spec_perform_of_step step).trans ?_
  rw [← and_assoc, and_self]

theorem spec_ubiFormat {post : Status → FtlRam → UbiStore D → Prop} :
    Code.spec (storeMachine g capacity) crash halts ubiFormat post ram store ↔
      crash store ∧ post .success ram store := by
  have step : storeMachine g capacity store .format = .ok (.success, store) := rfl
  refine (Code.spec_perform_of_step step).trans ?_
  rw [← and_assoc, and_self]

theorem spec_ubiInit {post : Status → FtlRam → UbiStore D → Prop} :
    Code.spec (storeMachine g capacity) crash halts ubiInit post ram store ↔
      crash store ∧ post .success ram store := by
  have step : storeMachine g capacity store .init = .ok (.success, store) := rfl
  refine (Code.spec_perform_of_step step).trans ?_
  rw [← and_assoc, and_self]

/-! ### Runs that return -/

theorem returns_ubiRead {post : ReadAnswer (FtlPage D) → FtlRam → UbiStore D → Prop}
    (here : crash store)
    (meets : block < capacity → page < g.pagePerPhyBlock →
      post (store.pages.answer block page) ram store) :
    Code.spec (storeMachine g capacity) crash True (ubiRead block page) post ram store := by
  by_cases accepted : block < capacity ∧ page < g.pagePerPhyBlock
  · exact (spec_ubiRead accepted.1 accepted.2).mpr ⟨here, meets accepted.1 accepted.2⟩
  · have step : storeMachine g capacity store (.read block page) = .error .assertion :=
      if_neg accepted
    exact (Prog.spec_call_of_error step).mpr ⟨here, trivial⟩

theorem returns_ubiWrite {main : FtlPage D} {spare : Option Spare} {async : Bool}
    {post : Status → FtlRam → UbiStore D → Prop} (here : crash store)
    (meets : block < capacity → page < g.pagePerPhyBlock → store.pages block page = none →
      crash (store.write block page ⟨main, spare.getD .ones⟩) ∧
        post .success ram (store.write block page ⟨main, spare.getD .ones⟩)) :
    Code.spec (storeMachine g capacity) crash True (ubiWrite block page main spare async) post ram
      store := by
  by_cases accepted : block < capacity ∧ page < g.pagePerPhyBlock ∧
      (store.pages block page).isNone
  · obtain ⟨isBlock, isPage, isBlank⟩ := accepted
    have blank : store.pages block page = none := by simpa using isBlank
    exact (spec_ubiWrite isBlock isPage blank).mpr ⟨here, meets isBlock isPage blank⟩
  · have step : storeMachine g capacity store (.write block page main spare async) =
        .error .assertion := if_neg accepted
    exact (Prog.spec_call_of_error step).mpr ⟨here, trivial⟩

theorem returns_ubiErase {dieIndex : Nat} {post : Status → FtlRam → UbiStore D → Prop}
    (here : crash store)
    (meets : block < capacity →
      crash (store.erase block) ∧ post .success ram (store.erase block)) :
    Code.spec (storeMachine g capacity) crash True (ubiErase block dieIndex) post ram store := by
  by_cases accepted : block < capacity
  · exact (spec_ubiErase accepted).mpr ⟨here, meets accepted⟩
  · have step : storeMachine g capacity store (.erase block dieIndex) = .error .assertion :=
      if_neg accepted
    exact (Prog.spec_call_of_error step).mpr ⟨here, trivial⟩

theorem returns_ubiReadStatus {post : Status → FtlRam → UbiStore D → Prop} (here : crash store)
    (meets : ∀ ret polls, crash { store with polls := polls } ∧
      post ret ram { store with polls := polls }) :
    Code.spec (storeMachine g capacity) crash True (ubiReadStatus block) post ram store := by
  by_cases accepted : block < capacity
  · have steps : ∃ ret polls, storeMachine g capacity store (.readStatus block) =
        .ok (ret, { store with polls := polls }) := by
      simp only [storeMachine, accepted, if_true]
      rcases polls : store.polls with _ | ⟨ret, rest⟩
      · exact ⟨_, store.polls, rfl⟩
      · exact ⟨_, rest, rfl⟩
    obtain ⟨ret, polls, step⟩ := steps
    exact (Code.spec_perform_of_step step).mpr ⟨here, meets ret polls⟩
  · have step : storeMachine g capacity store (.readStatus block) = .error .assertion :=
      if_neg accepted
    exact (Prog.spec_call_of_error step).mpr ⟨here, trivial⟩

theorem returns_halt {α : Type} {reason : Halt} {post : α → FtlRam → UbiStore D → Prop}
    (here : crash store) :
    Code.spec (storeMachine g capacity) crash True (Code.halt reason : FtlCode D α) post ram
      store :=
  Code.spec_halt.mpr ⟨here, trivial⟩

theorem returns_assert {condition : Prop} [Decidable condition]
    {post : Unit → FtlRam → UbiStore D → Prop} (here : crash store)
    (meets : condition → post () ram store) :
    Code.spec (storeMachine g capacity) crash True (Code.assert condition : FtlCode D Unit) post ram
      store :=
  Code.spec_assert.mpr ⟨here, meets, fun _ => trivial⟩

theorem keeps_onSuccess {inv : FtlRam → UbiStore D → Prop} {ret : Status}
    {rest : FtlCode D Status} (keeps : Code.Keeps (storeMachine g capacity) inv rest) :
    Code.Keeps (storeMachine g capacity) inv (onSuccess ret rest) := by
  unfold onSuccess
  split
  · exact keeps
  · exact .pure _

end Rules

/-! ## Runs that return -/

section OnReturn

variable {l : Layout} {D : Type}

/-- The postcondition of a run that returns. -/
abbrev OnReturn (l : Layout) {α : Type} (code : FtlCode D α)
    (post : α → FtlRam → UbiStore D → Prop) (ram : FtlRam) (store : UbiStore D) : Prop :=
  Code.spec (storeMachine l.g l.capacity) (fun _ => True) True code post ram store

namespace OnReturn

variable {α β : Type} {ram : FtlRam} {store : UbiStore D} {block page : Nat}

theorem pure {value : α} {post : α → FtlRam → UbiStore D → Prop} :
    OnReturn l (Pure.pure value : FtlCode D α) post ram store ↔ post value ram store :=
  Code.spec_pure.trans (and_iff_right trivial)

theorem bind {code : FtlCode D α} {rest : α → FtlCode D β}
    {post : β → FtlRam → UbiStore D → Prop} :
    OnReturn l (code >>= rest) post ram store ↔
      OnReturn l code (fun value ram' after => OnReturn l (rest value) post ram' after) ram store :=
  Code.spec_bind

theorem get {post : FtlRam → FtlRam → UbiStore D → Prop} :
    OnReturn l (MonadState.get : FtlCode D FtlRam) post ram store ↔ post ram ram store :=
  Code.spec_get.trans (and_iff_right trivial)

theorem modifies {change : FtlRam → FtlRam} {post : PUnit → FtlRam → UbiStore D → Prop} :
    OnReturn l (modify change : FtlCode D PUnit) post ram store ↔ post ⟨⟩ (change ram) store :=
  Code.spec_modify.trans (and_iff_right trivial)

theorem halt {reason : Halt} {post : α → FtlRam → UbiStore D → Prop} :
    OnReturn l (Code.halt reason : FtlCode D α) post ram store :=
  returns_halt trivial

theorem assert {condition : Prop} [Decidable condition]
    {post : Unit → FtlRam → UbiStore D → Prop} :
    OnReturn l (Code.assert condition : FtlCode D Unit) post ram store ↔
      (condition → post () ram store) :=
  Code.spec_assert.trans ⟨fun holds => holds.2.1, fun holds => ⟨trivial, holds, fun _ => trivial⟩⟩

theorem read {post : ReadAnswer (FtlPage D) → FtlRam → UbiStore D → Prop}
    (meets : block < l.capacity → page < l.g.pagePerPhyBlock →
      post (store.pages.answer block page) ram store) :
    OnReturn l (ubiRead block page) post ram store :=
  returns_ubiRead trivial meets

theorem write {main : FtlPage D} {spare : Option Spare} {async : Bool}
    {post : Status → FtlRam → UbiStore D → Prop}
    (meets : block < l.capacity → page < l.g.pagePerPhyBlock → store.pages block page = none →
      post .success ram (store.write block page ⟨main, spare.getD .ones⟩)) :
    OnReturn l (ubiWrite block page main spare async) post ram store :=
  returns_ubiWrite trivial fun isBlock isPage blank => ⟨trivial, meets isBlock isPage blank⟩

theorem erase {dieIndex : Nat} {post : Status → FtlRam → UbiStore D → Prop}
    (meets : block < l.capacity → post .success ram (store.erase block)) :
    OnReturn l (ubiErase block dieIndex) post ram store :=
  returns_ubiErase trivial fun isBlock => ⟨trivial, meets isBlock⟩

theorem flush {post : Status → FtlRam → UbiStore D → Prop} :
    OnReturn l ubiFlush post ram store ↔ post .success ram store :=
  spec_ubiFlush.trans (and_iff_right trivial)

theorem readStatus {post : Status → FtlRam → UbiStore D → Prop}
    (meets : ∀ ret polls, post ret ram { store with polls := polls }) :
    OnReturn l (ubiReadStatus block) post ram store :=
  returns_ubiReadStatus trivial fun ret polls => ⟨trivial, meets ret polls⟩

theorem mono {code : FtlCode D α} {post post' : α → FtlRam → UbiStore D → Prop}
    (holds : OnReturn l code post ram store)
    (stronger : ∀ value ram' after, post value ram' after → post' value ram' after) :
    OnReturn l code post' ram store :=
  Code.spec_mono holds stronger fun _ => id

theorem onSuccess {ret : Status} {rest : FtlCode D Status}
    {post : Status → FtlRam → UbiStore D → Prop}
    (goesOn : ret = .success → OnReturn l rest post ram store)
    (stops : ret ≠ .success → post ret ram store) :
    OnReturn l (Ftl.onSuccess ret rest) post ram store := by
  by_cases success : ret = .success
  · rw [success, onSuccess_success]
    exact goesOn success
  · rw [onSuccess_other success, OnReturn.pure]
    exact stops success

theorem of_run {code : FtlCode D α} {post : α → FtlRam → UbiStore D → Prop} {value : α}
    {ram' : FtlRam} {after : UbiStore D} (holds : OnReturn l code post ram store)
    (run : (code.run ram).exec (storeMachine l.g l.capacity) store = .ok ((value, ram'), after)) :
    post value ram' after :=
  Code.post_of_spec holds run

end OnReturn

end OnReturn

/-! ## Runs that complete -/

section Completes

variable {l : Layout} {D : Type}

/-- The code returns, and the postcondition holds. -/
abbrev Completes (l : Layout) {α : Type} (code : FtlCode D α)
    (post : α → FtlRam → UbiStore D → Prop) (ram : FtlRam) (store : UbiStore D) : Prop :=
  Code.spec (storeMachine l.g l.capacity) (fun _ => True) False code post ram store

namespace Completes

variable {α β : Type} {ram : FtlRam} {store : UbiStore D} {block page : Nat}

theorem pure {value : α} {post : α → FtlRam → UbiStore D → Prop} :
    Completes l (Pure.pure value : FtlCode D α) post ram store ↔ post value ram store :=
  Code.spec_pure.trans (and_iff_right trivial)

theorem bind {code : FtlCode D α} {rest : α → FtlCode D β}
    {post : β → FtlRam → UbiStore D → Prop} :
    Completes l (code >>= rest) post ram store ↔
      Completes l code (fun value ram' after => Completes l (rest value) post ram' after)
        ram store :=
  Code.spec_bind

theorem get {post : FtlRam → FtlRam → UbiStore D → Prop} :
    Completes l (MonadState.get : FtlCode D FtlRam) post ram store ↔ post ram ram store :=
  Code.spec_get.trans (and_iff_right trivial)

theorem modifies {change : FtlRam → FtlRam} {post : PUnit → FtlRam → UbiStore D → Prop} :
    Completes l (modify change : FtlCode D PUnit) post ram store ↔ post ⟨⟩ (change ram) store :=
  Code.spec_modify.trans (and_iff_right trivial)

theorem read {post : ReadAnswer (FtlPage D) → FtlRam → UbiStore D → Prop}
    {content : Page (FtlPage D)} (isBlock : block < l.capacity)
    (isPage : page < l.g.pagePerPhyBlock) (programmed : store.pages block page = some content) :
    Completes l (ubiRead block page) post ram store ↔
      post ⟨.success, content.main, content.spare⟩ ram store :=
  (spec_ubiRead_some isBlock isPage programmed).trans (and_iff_right trivial)

theorem write {main : FtlPage D} {spare : Option Spare} {async : Bool}
    {post : Status → FtlRam → UbiStore D → Prop} (isBlock : block < l.capacity)
    (isPage : page < l.g.pagePerPhyBlock) (blank : store.pages block page = none) :
    Completes l (ubiWrite block page main spare async) post ram store ↔
      post .success ram (store.write block page ⟨main, spare.getD .ones⟩) :=
  (spec_ubiWrite isBlock isPage blank).trans
    ((and_iff_right trivial).trans (and_iff_right trivial))

theorem erase {dieIndex : Nat} {post : Status → FtlRam → UbiStore D → Prop}
    (isBlock : block < l.capacity) :
    Completes l (ubiErase block dieIndex) post ram store ↔ post .success ram (store.erase block) :=
  (spec_ubiErase isBlock).trans ((and_iff_right trivial).trans (and_iff_right trivial))

/-- A poll has the next answer, and is ready when the answers are used up. -/
theorem readStatus {post : Status → FtlRam → UbiStore D → Prop} (isBlock : block < l.capacity) :
    Completes l (ubiReadStatus block) post ram store ↔
      post (store.polls.headD .success) ram { store with polls := store.polls.tail } := by
  obtain ⟨pages, history, polls⟩ := store
  have step : storeMachine l.g l.capacity ⟨pages, history, polls⟩ (.readStatus block) =
      .ok (polls.headD .success, ⟨pages, history, polls.tail⟩) := by
    simp only [storeMachine, isBlock, if_true]
    cases polls <;> rfl
  exact (Code.spec_perform_of_step step).trans
    ((and_iff_right trivial).trans (and_iff_right trivial))

theorem mono {code : FtlCode D α} {post post' : α → FtlRam → UbiStore D → Prop}
    (holds : Completes l code post ram store)
    (stronger : ∀ value ram' after, post value ram' after → post' value ram' after) :
    Completes l code post' ram store :=
  Code.spec_mono holds stronger fun _ => id

theorem exec {code : FtlCode D α} {post : α → FtlRam → UbiStore D → Prop}
    (holds : Completes l code post ram store) :
    ∃ value ram' after, (code.run ram).exec (storeMachine l.g l.capacity) store =
      .ok ((value, ram'), after) ∧ post value ram' after :=
  Code.exec_of_spec holds

theorem spec {code : FtlCode D α} {post : α → FtlRam → UbiStore D → Prop} {halts : Prop}
    (holds : Completes l code post ram store) :
    Code.spec (storeMachine l.g l.capacity) (fun _ => True) halts code post ram store := by
  obtain ⟨value, ram', after, run, met⟩ := holds.exec
  exact Code.spec_of_exec run met

end Completes

end Completes

/-! ## Words -/

namespace PmNode

variable {g : Geometry} {block page : Nat}

theorem setBlockPage_eq (small : (block * g.pagePerPhyBlock + page) * 4 + 1 < 2 ^ 32) :
    setBlockPage g block page = (block * g.pagePerPhyBlock + page) * 4 + 1 :=
  Nat.mod_eq_of_lt small

theorem block_setBlockPage (isPage : page < g.pagePerPhyBlock)
    (small : (block * g.pagePerPhyBlock + page) * 4 + 1 < 2 ^ 32) :
    PmNode.block g (setBlockPage g block page) = block := by
  rw [setBlockPage_eq small, PmNode.block]
  have quarter : ((block * g.pagePerPhyBlock + page) * 4 + 1) / 4 =
      block * g.pagePerPhyBlock + page := by omega
  rw [quarter, Nat.add_comm, Nat.add_mul_div_right _ _ g.pagePerPhyBlock_pos,
    Nat.div_eq_of_lt isPage, Nat.zero_add]

theorem page_setBlockPage (isPage : page < g.pagePerPhyBlock)
    (small : (block * g.pagePerPhyBlock + page) * 4 + 1 < 2 ^ 32) :
    PmNode.page g (setBlockPage g block page) = page := by
  rw [setBlockPage_eq small, PmNode.page]
  have quarter : ((block * g.pagePerPhyBlock + page) * 4 + 1) / 4 =
      block * g.pagePerPhyBlock + page := by omega
  rw [quarter, Nat.add_comm, Nat.add_mul_mod_self_right, Nat.mod_eq_of_lt isPage]

theorem setDirty_of_aligned {address : Nat} (aligned : address % 4 = 0) :
    setDirty address = address + 2 := by
  have split : address = (address / 4) <<< 2 := by
    rw [Nat.shiftLeft_eq]
    omega
  rw [setDirty, split, ← Nat.shiftLeft_add_eq_or_of_lt (by decide : 2 < 2 ^ 2)]

theorem setDirty_setDirty (word : Nat) : setDirty (setDirty word) = setDirty word := by
  rw [setDirty, setDirty, Nat.or_assoc, Nat.or_self]

theorem isCached_setBlockPage (g : Geometry) (block page : Nat) :
    isCached (setBlockPage g block page) = false := by
  unfold isCached setBlockPage
  exact decide_eq_false (by omega)

end PmNode

/-- The words of the layout hold a block and a page.  The UBI layer keeps some of the blocks
for itself. -/
structure Layout.Fits (l : Layout) : Prop where
  words : l.g.cfgLogBlockCount * l.g.pagePerPhyBlock * 4 ≤ 2 ^ 32
  blocks : l.capacity + 2 ≤ l.g.cfgLogBlockCount
  tables : 6 ≤ l.capacity

namespace Layout.Fits

variable {l : Layout} {block page : Nat}

theorem small (fits : l.Fits) (isBlock : block < l.capacity + 2)
    (isPage : page < l.g.pagePerPhyBlock) :
    (block * l.g.pagePerPhyBlock + page) * 4 + 1 < 2 ^ 32 := by
  have whole : (block + 1) * l.g.pagePerPhyBlock ≤
      l.g.cfgLogBlockCount * l.g.pagePerPhyBlock :=
    Nat.mul_le_mul_right _ (Nat.le_trans isBlock fits.blocks)
  have := fits.words
  rw [Nat.succ_mul] at whole
  omega

theorem block_word (fits : l.Fits) (isBlock : block < l.capacity + 2)
    (isPage : page < l.g.pagePerPhyBlock) :
    PmNode.block l.g (PmNode.setBlockPage l.g block page) = block :=
  PmNode.block_setBlockPage isPage (fits.small isBlock isPage)

theorem page_word (fits : l.Fits) (isBlock : block < l.capacity + 2)
    (isPage : page < l.g.pagePerPhyBlock) :
    PmNode.page l.g (PmNode.setBlockPage l.g block page) = page :=
  PmNode.page_setBlockPage isPage (fits.small isBlock isPage)

end Layout.Fits

/-! ## The cache -/

/-- The slot holds the node of a cluster. -/
def Registered (l : Layout) (ram : FtlRam) (i : Nat) : Prop :=
  i < pmtCacheCount l ∧ ram.pmCacheCluster i ≠ invalidCluster

/-- Whether a slot is registered can be computed. -/
instance (l : Layout) (ram : FtlRam) (i : Nat) : Decidable (Registered l ram i) :=
  inferInstanceAs (Decidable (_ ∧ _))

/-- The word of the cluster that is in a slot. -/
def slotWord (ram : FtlRam) (i : Nat) : Nat :=
  ram.rootTable.pageMappingNodes (ram.pmCacheCluster i)

section Cache

variable {l : Layout}

theorem slotOfCluster_some {ram : FtlRam} {cluster i : Nat}
    (found : slotOfCluster l ram cluster = some i) :
    i < pmtCacheCount l ∧ ram.pmCacheCluster i = cluster := by
  unfold slotOfCluster at found
  have holds := List.find?_some (p := fun i => decide (ram.pmCacheCluster i = cluster)) found
  exact ⟨List.mem_range.mp (List.mem_of_find?_eq_some found), of_decide_eq_true holds⟩

end Cache

end OpenNfm.Ftl
