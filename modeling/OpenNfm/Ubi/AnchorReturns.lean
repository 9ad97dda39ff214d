import OpenNfm.Mtd.Unreliable
import OpenNfm.Ubi.AnchorTermination
import OpenNfm.Ubi.TableLog

/-!
# What an anchor update does when it returns

On a device that fails by a pattern, an update touches blocks of the ring and the anchor's
own variables only, it never reports a bad block, and it leaves the place for the next
anchor blank.
-/

namespace OpenNfm

open OpenNfm.Program

variable {g : Geometry} {D : Type} {pattern : FailurePattern}

/-! ## Tables on the device -/

section Tables

variable {halts : Prop} {ram : UbiRam D} {state : Unreliable (UbiBuffer D)} {block page : Nat}

/-- A table is written to a blank page. -/
theorem Unreliable.spec_tableWrite {table : UbiBuffer D}
    {post : Status → UbiRam D → Unreliable (UbiBuffer D) → Prop}
    (isBlock : block < g.cfgLogBlockCount) (isPage : page < g.pagePerPhyBlock)
    (blank : state.nand block page = none) (whole : state.torn block page = false)
    (written : ∀ after, after.nand = state.nand.program block page (tablePage table) →
      after.torn = state.torn → after.count = state.count + 1 → post .success ram after)
    (failed : pattern state.count ≠ .done → ∀ after, ChangedOnly (· = block) state after →
      after.count = state.count + 1 → post .badblock ram after) :
    Code.spec (unreliableMachine g pattern) (fun _ => True) halts (tableWrite block page table)
      post ram state := by
  have programmed : unreliableMachine g pattern state (.program block page table (some ⟨0, 0⟩)) =
      .ok (.success, state.program g pattern block page (tablePage table)) := by
    simp only [unreliableMachine, isBlock, isPage, blank, whole, Option.isNone_none, and_self,
      if_true]
    rfl
  have waited : unreliableMachine g pattern (state.program g pattern block page (tablePage table))
      (.waitReady block) = .ok (if (state.program g pattern block page (tablePage table)).failedDie
        (Faulty.dieOf g block) then .badblock else .success,
        state.program g pattern block page (tablePage table)) := if_pos isBlock
  have changed := state.program_changed g pattern block page (tablePage table)
  rw [tableWrite, Code.spec_bind]
  refine (Code.spec_perform_of_step programmed).mpr ⟨trivial, trivial, ?_⟩
  rw [if_pos rfl]
  refine (Code.spec_perform_of_step waited).mpr ⟨trivial, trivial, ?_⟩
  unfold Unreliable.program at changed ⊢
  cases outcome : pattern state.count with
  | done =>
      simp only [Function.update_self, Bool.false_eq_true, if_false]
      exact written _ rfl rfl rfl
  | failed kept =>
      simp only [outcome, Function.update_self, if_true] at changed ⊢
      exact failed (by rw [outcome]; exact Outcome.noConfusion) _ changed rfl

/-- The page of a table is read. -/
theorem Unreliable.spec_tableRead {next : Nat} {newest : UbiBuffer D}
    {post : Status × Nat × UbiBuffer D → UbiRam D → Unreliable (UbiBuffer D) → Prop}
    (supported : g.Supported) (log : TableLog g state.nand block next newest)
    (meets : ∀ after, ChangedOnly (fun _ => False) state after → after.count = state.count →
      post (.success, next - 1, newest) ram after) :
    Code.spec (unreliableMachine g pattern) (fun _ => True) halts
      (tableRead g block (next - 1)) post ram state := by
  have isPage : next - 1 < g.pagePerPhyBlock := by
    have := log.pos
    have := log.le
    omega
  have asked : next - 1 ≠ invalidPage := (isPage.trans supported.pagesSmall).ne
  have answer : state.nand.answer block (next - 1) = ⟨.success, newest, ⟨0, 0⟩⟩ := by
    simp [Nand.answer, log.last, tablePage]
  have middle : (next - 1 + (next - 1)) / 2 = next - 1 := by omega
  simp only [tableRead, ne_eq, asked, not_false_eq_true, if_true, tableSearch, middle,
    not_true_eq_false, and_self, if_false, Code.spec_bind, Code.spec_assert, Code.spec_pure]
  refine ⟨trivial, fun _ => ⟨trivial, ?_⟩, fun wrong => absurd (.inl trivial) wrong⟩
  refine Unreliable.spec_mtdRead log.inRange isPage fun after changed count => ?_
  rw [answer, if_pos rfl, if_neg (show (0 : Nat) ≠ allOnes by decide)]
  exact ⟨trivial, meets after changed count⟩

end Tables

/-! ## The variables of the anchor -/

/-- The memory with the anchor at another place. -/
def UbiRam.withAnchor (ram : UbiRam D) (block page : Nat) (table : AnchorTable) : UbiRam D :=
  { ram with anchorBlock := block, anchorNextPage := page, anchorTable := table }

/-- The next anchor goes to a blank page of the ring, or to another block. -/
structure AnchorRoom (g : Geometry) (ram : UbiRam D) (state : Unreliable (UbiBuffer D)) :
    Prop where
  inRing : g.InRing ram.anchorBlock
  le : ram.anchorNextPage ≤ g.pagePerPhyBlock
  blank : ram.anchorNextPage ≠ g.pagePerPhyBlock →
    BlankFrom state ram.anchorBlock ram.anchorNextPage

theorem AnchorRoom.frame {ram ram' : UbiRam D} {state after : Unreliable (UbiBuffer D)}
    {inside : Nat → Prop} (room : AnchorRoom g ram state)
    (block : ram'.anchorBlock = ram.anchorBlock) (page : ram'.anchorNextPage = ram.anchorNextPage)
    (changed : ChangedOnly inside state after)
    (outside : ∀ block, g.InRing block → ¬ inside block) : AnchorRoom g ram' after where
  inRing := block ▸ room.inRing
  le := page ▸ room.le
  blank := by
    rw [block, page]
    exact fun notFull => (room.blank notFull).frame changed (outside _ room.inRing)

/-! ## The search -/

section Search

variable {halts : Prop} {ram : UbiRam D} {state : Unreliable (UbiBuffer D)}

theorem Unreliable.spec_anchorFindLoop {current rounds block : Nat}
    {post : Status × Nat → UbiRam D → Unreliable (UbiBuffer D) → Prop} (supported : g.Supported)
    (inRing : g.InRing current) (inRing' : g.InRing block)
    (enough : ringDistance g current block ≤ rounds)
    (meets : ∀ ret next table after, g.InRing next → (ret = .success → BlankFrom after next 0) →
      (ret ≠ .success → next = current) → ChangedOnly g.InRing state after →
      state.count ≤ after.count → post (ret, next) (ram.withBad table) after) :
    Code.spec (unreliableMachine g pattern) (fun _ => True) halts
      (anchorFindLoop g current rounds block) post ram state := by
  induction rounds generalizing block ram state with
  | zero => exact absurd (ringDistance_pos inRing' inRing) (Nat.not_lt.mpr enough)
  | succ rounds ih =>
      have next : (if block + 1 > g.anchorLastBlock then Geometry.anchorFirstBlock
          else block + 1) = g.ringNext block := rfl
      have step : ∀ ret table after, (ret = .success → BlankFrom after (g.ringNext block) 0) →
          ChangedOnly g.InRing state after → state.count ≤ after.count →
          Code.spec (unreliableMachine g pattern) (fun _ => True) halts
            (if ret ≠ .success ∧ g.ringNext block ≠ current then
              anchorFindLoop g current rounds (g.ringNext block)
            else pure (ret, g.ringNext block)) post (ram.withBad table) after := by
        intro ret table after blank changed count
        split
        · rename_i again
          have closer := ringDistance_next inRing inRing' again.2
          exact ih inRing'.next (by omega)
            fun ret' next' table' after' inRing'' blank' last' changed'
            count' => meets ret' next' table' after' inRing'' blank' last' (changed.trans changed')
              (count.trans count')
        · rename_i stop
          refine ⟨trivial, meets ret _ table after inRing'.next blank (fun failed => ?_)
            changed count⟩
          exact by_contra fun apart => stop ⟨failed, apart⟩
      have isBlock := inRing'.next.lt_blocks supported
      have wider : ∀ other, other = g.ringNext block → g.InRing other := by
        rintro other rfl
        exact inRing'.next
      simp only [anchorFindLoop, Code.spec_bind, next, anchorIsBadBlock, Code.spec_get,
        Code.spec_pure]
      refine ⟨trivial, trivial, ?_⟩
      split
      · rw [Code.spec_bind, Code.spec_pure]
        exact ⟨trivial, step .badblock ram.anchorTable.badBlockTable state
          (fun wrong => Status.noConfusion wrong) (.refl _ state) le_rfl⟩
      · simp only [Code.spec_bind]
        refine Unreliable.spec_mtdErase isBlock (fun after blank changed count => ?_)
          fun after changed count => ?_
        · rw [if_neg (not_not.mpr rfl), Code.spec_bind, Code.spec_pure]
          exact ⟨trivial, step .success ram.anchorTable.badBlockTable after (fun _ => blank)
            (changed.mono wider) (by omega)⟩
        · rw [if_pos (by decide)]
          simp only [Code.spec_bind, anchorLogBadBlock, Code.spec_modify, Code.spec_pure]
          exact ⟨trivial, trivial, step .badblock
            (logBadBlock g ram.anchorTable.badBlockTable (g.ringNext block)) after
            (fun wrong => Status.noConfusion wrong) (changed.mono wider) (by omega)⟩

/-- The search finds a blank block, or there is none but the current one. -/
theorem Unreliable.spec_anchorFindNextBlock {current : Nat}
    {post : Status × Nat → UbiRam D → Unreliable (UbiBuffer D) → Prop} (supported : g.Supported)
    (inRing : g.InRing current)
    (found : ∀ next table after, g.InRing next → next ≠ current → BlankFrom after next 0 →
      ChangedOnly g.InRing state after → state.count ≤ after.count →
      post (.success, next) (ram.withBad table) after)
    (none : ∀ table after, ChangedOnly g.InRing state after →
      post (.failure, current) (ram.withBad table) after) :
    Code.spec (unreliableMachine g pattern) (fun _ => True) halts (anchorFindNextBlock g current)
      post ram state := by
  rw [anchorFindNextBlock, Code.spec_bind]
  refine Unreliable.spec_anchorFindLoop supported inRing inRing
    ((ringDistance_le g inRing inRing).trans (Nat.le_succ _)) ?_
  intro ret next table after inRing' blank last changed count
  dsimp only
  split
  · rename_i apart
    obtain rfl : ret = .success := by_contra fun failed => apart (last failed)
    exact ⟨trivial, found next table after inRing' apart (blank rfl) changed count⟩
  · exact ⟨trivial, none table after changed⟩

end Search

/-! ## The update -/

section Update

variable {halts : Prop} {ram : UbiRam D} {state : Unreliable (UbiBuffer D)} {last : Nat}
  {post : Status → UbiRam D → Unreliable (UbiBuffer D) → Prop}

/-- From the given number of calls on, nothing fails. -/
def FailuresEnd (pattern : FailurePattern) (last : Nat) : Prop :=
  ∀ n, last ≤ n → pattern n = .done

/-- What holds when an update of the anchor returns. -/
structure AnchorUpdated (g : Geometry) (state : Unreliable (UbiBuffer D)) (ret : Status)
    (ram' : UbiRam D) (after : Unreliable (UbiBuffer D)) : Prop where
  status : ret ≠ .badblock
  room : AnchorRoom g ram' after
  changed : ChangedOnly g.InRing state after

theorem AnchorUpdated.after {middle after : Unreliable (UbiBuffer D)} {ret : Status}
    {ram' : UbiRam D} (updated : AnchorUpdated g middle ret ram' after)
    (changed : ChangedOnly g.InRing state middle) : AnchorUpdated g state ret ram' after :=
  ⟨updated.status, updated.room, changed.trans updated.changed⟩

theorem Unreliable.spec_anchorUpdateWrite {rounds : Nat} {reclaimed : Bool}
    (supported : g.Supported) (room : AnchorRoom g ram state)
    (notFull : ram.anchorNextPage ≠ g.pagePerPhyBlock)
    (previous : reclaimed = true → g.InRing ram.anchorTable.previousAnchorBlock ∧
      ram.anchorTable.previousAnchorBlock ≠ ram.anchorBlock)
    (meets : ∀ ret block page table after,
      AnchorUpdated g state ret (ram.withAnchor block page table) after →
      post ret (ram.withAnchor block page table) after)
    (again : pattern state.count ≠ .done → ∀ after, ChangedOnly g.InRing state after →
      after.count = state.count + 1 →
      Code.spec (unreliableMachine g pattern) (fun _ => True) halts
        (anchorUpdateLoop g rounds reclaimed) post
        { ram with anchorNextPage := g.pagePerPhyBlock } after) :
    Code.spec (unreliableMachine g pattern) (fun _ => True) halts
      (anchorUpdateWrite g rounds reclaimed) post ram state := by
  have isBlock := room.inRing.lt_blocks supported
  have isPage := lt_of_le_of_ne room.le notFull
  have here := room.blank notFull _ le_rfl
  have wider : ∀ {block}, g.InRing block → ∀ other, other = block → g.InRing other := by
    rintro block inRing other rfl
    exact inRing
  simp only [anchorUpdateWrite, Code.spec_bind, Code.spec_get]
  refine ⟨trivial, Unreliable.spec_tableWrite isBlock isPage here.1 here.2 ?_ ?_⟩
  · intro after written torn _
    have changed : ChangedOnly g.InRing state after := by
      refine ⟨fun block outside => ?_, fun block _ => congrFun torn block⟩
      rw [written]
      exact Function.update_of_ne (fun same : block = _ => outside (same ▸ room.inRing)) _ _
    have blank : BlankFrom after ram.anchorBlock (ram.anchorNextPage + 1) := by
      intro page behind
      rw [written, torn, Nand.program_otherPage _ _ _ (by omega)]
      exact room.blank notFull page (by omega)
    have roomAfter : ∀ final, ChangedOnly (· ≠ ram.anchorBlock) after final →
        AnchorRoom g (ram.withAnchor ram.anchorBlock (ram.anchorNextPage + 1) ram.anchorTable)
          final := fun final changed' =>
      ⟨room.inRing, isPage, fun _ => blank.frame changed' (not_not.mpr rfl)⟩
    rw [if_pos rfl]
    split
    · rename_i moved
      obtain ⟨inRing, apart⟩ := previous moved
      have done : ∀ final, ChangedOnly (· = ram.anchorTable.previousAnchorBlock) after final →
          post .success
            (ram.withAnchor ram.anchorBlock (ram.anchorNextPage + 1) ram.anchorTable) final :=
        fun final changed' => meets .success _ _ _ final ⟨by decide,
          roomAfter final (changed'.mono fun other same => same ▸ apart),
          changed.trans (changed'.mono (wider inRing))⟩
      rw [Code.spec_bind]
      refine Unreliable.spec_mtdErase (inRing.lt_blocks supported) (fun final _ changed' _ => ?_)
        fun final changed' _ => ?_
      · simp only [Code.spec_bind, Code.spec_modify, Code.spec_pure]
        exact ⟨trivial, trivial, done final changed'⟩
      · simp only [Code.spec_bind, Code.spec_modify, Code.spec_pure]
        exact ⟨trivial, trivial, done final changed'⟩
    · simp only [Code.spec_bind, Code.spec_modify, Code.spec_pure]
      exact ⟨trivial, trivial, meets .success ram.anchorBlock (ram.anchorNextPage + 1)
        ram.anchorTable after ⟨by decide, roomAfter after (.refl _ after), changed⟩⟩
  · intro failed after changed count
    simp only [reduceCtorEq, if_false, if_true, Code.spec_bind, Code.spec_modify]
    exact ⟨trivial, again failed after (changed.mono (wider room.inRing)) count⟩

/-- An update that goes on as long as programs fail.  It can run out of rounds only if
failures go on for as long. -/
theorem Unreliable.spec_anchorUpdateLoop {rounds : Nat} {reclaimed : Bool}
    (supported : g.Supported) (room : AnchorRoom g ram state)
    (start : reclaimed = true → ram.anchorNextPage = g.pagePerPhyBlock)
    (enough : FailuresEnd pattern last ∧ last - state.count < rounds ∨ halts)
    (meets : ∀ ret block page table after,
      AnchorUpdated g state ret (ram.withAnchor block page table) after →
      post ret (ram.withAnchor block page table) after) :
    Code.spec (unreliableMachine g pattern) (fun _ => True) halts
      (anchorUpdateLoop g rounds reclaimed) post ram state := by
  induction rounds generalizing reclaimed ram state with
  | zero => exact ⟨trivial, enough.resolve_left fun few => Nat.not_lt_zero _ few.2⟩
  | succ rounds ih =>
      have fewer : ∀ middle after : Unreliable (UbiBuffer D), state.count ≤ middle.count →
          pattern middle.count ≠ .done → after.count = middle.count + 1 →
          FailuresEnd pattern last ∧ last - after.count < rounds ∨ halts := by
        intro middle after le failed count
        refine enough.imp_left fun few => ⟨few.1, ?_⟩
        have before : middle.count < last := by
          by_contra behind
          exact failed (few.1 _ (Nat.le_of_not_lt behind))
        have := few.2
        omega
      have again : ∀ (ram : UbiRam D) (reclaimed : Bool) (after : Unreliable (UbiBuffer D)),
          g.InRing ram.anchorBlock →
          FailuresEnd pattern last ∧ last - after.count < rounds ∨ halts →
          ChangedOnly g.InRing state after →
          (∀ ret block page table final,
            AnchorUpdated g state ret (ram.withAnchor block page table) final →
            post ret (ram.withAnchor block page table) final) →
          Code.spec (unreliableMachine g pattern) (fun _ => True) halts
            (anchorUpdateLoop g rounds reclaimed) post
            { ram with anchorNextPage := g.pagePerPhyBlock } after := by
        intro ram reclaimed after inRing enough changed meets
        have ready : AnchorRoom g { ram with anchorNextPage := g.pagePerPhyBlock } after :=
          ⟨inRing, le_rfl, fun wrong => absurd rfl wrong⟩
        refine ih ready (fun _ => rfl) enough ?_
        exact fun ret block page table final updated =>
          meets ret block page table final (updated.after changed)
      simp only [anchorUpdateLoop, Code.spec_bind, Code.spec_get]
      refine ⟨trivial, ?_⟩
      by_cases full : ram.anchorNextPage = g.pagePerPhyBlock
      · simp only [full, if_true, Code.spec_bind, Code.spec_modify]
        refine ⟨trivial, Unreliable.spec_anchorFindNextBlock supported room.inRing ?_ ?_⟩
        · intro next table middle inRing apart blank changed count
          have write : Code.spec (unreliableMachine g pattern) (fun _ => True) halts
              (anchorUpdateWrite g rounds true) post
              { ram with
                anchorTable := { ram.anchorTable with
                  previousAnchorBlock := ram.anchorBlock, badBlockTable := table }
                anchorBlock := next, anchorNextPage := 0 } middle := by
            refine Unreliable.spec_anchorUpdateWrite supported
              ⟨inRing, Nat.zero_le _, fun _ => blank⟩ g.pagePerPhyBlock_pos.ne
              (fun _ => ⟨room.inRing, apart.symm⟩) ?_ ?_
            · exact fun ret block page table after updated =>
                meets ret block page table after (updated.after changed)
            · exact fun failed after changed' count' => again _ true after inRing
                (fewer middle after count failed count') (changed.trans changed')
                fun ret block page table final => meets ret block page table final
          rw [anchorUpdateWrite] at write
          simp only [Code.spec_bind, Code.spec_modify, Code.spec_pure, ne_eq, not_true_eq_false,
            if_false, if_true, UbiRam.withBad] at write ⊢
          exact ⟨trivial, trivial, write⟩
        · intro table after changed
          simp only [Code.spec_bind, Code.spec_pure, reduceCtorEq, if_false, ne_eq,
            not_false_eq_true, if_true]
          exact ⟨trivial, trivial, meets .failure ram.anchorBlock g.pagePerPhyBlock
            { ram.anchorTable with
              previousAnchorBlock := ram.anchorBlock, badBlockTable := table } after
            ⟨by decide, ⟨room.inRing, le_rfl, fun wrong => absurd rfl wrong⟩, changed⟩⟩
      · have notMoved : reclaimed = false := by
          cases reclaimed with
          | false => rfl
          | true => exact absurd (start rfl) full
        have write : Code.spec (unreliableMachine g pattern) (fun _ => True) halts
            (anchorUpdateWrite g rounds reclaimed) post ram state := by
          refine Unreliable.spec_anchorUpdateWrite supported room full
            (fun moved => absurd (notMoved.symm.trans moved) Bool.false_ne_true) meets ?_
          exact fun failed after changed count => again ram reclaimed after room.inRing
            (fewer state after le_rfl failed count) changed meets
        rw [anchorUpdateWrite] at write
        simp only [full, if_false, Code.spec_bind, Code.spec_pure, ne_eq, not_true_eq_false,
          Code.spec_get] at write ⊢
        exact ⟨trivial, write⟩

/-- Every call of `ANCHOR_Update` returns: from any place for the next anchor, and behind any
part of the pattern. -/
def AnchorReturns (g : Geometry) (pattern : FailurePattern) (fuel : Nat) (D : Type) : Prop :=
  ∀ (ram : UbiRam D) (state : Unreliable (UbiBuffer D)), AnchorRoom g ram state →
    ∃ ret ram' after, ((anchorUpdate g fuel).run ram).exec (unreliableMachine g pattern) state =
      .ok ((ret, ram'), after)

/-- Updates return if the failures end and there are rounds for all of them. -/
theorem anchorReturns_of_failuresEnd (supported : g.Supported) {fuel : Nat}
    (ends : FailuresEnd pattern last) (enough : last < fuel) :
    AnchorReturns g pattern fuel D := by
  intro ram state room
  have holds : Code.spec (unreliableMachine g pattern) (fun _ => True) False (anchorUpdate g fuel)
      (fun _ _ _ => True) ram state :=
    Unreliable.spec_anchorUpdateLoop supported room (fun wrong => absurd wrong Bool.false_ne_true)
      (.inl ⟨ends, (Nat.sub_le _ _).trans_lt enough⟩) fun _ _ _ _ _ _ => trivial
  obtain ⟨ret, ram', after, run, _⟩ := Code.exec_of_spec holds
  exact ⟨ret, ram', after, run⟩

/-- What is known of an update that returns. -/
theorem AnchorReturns.spec {fuel : Nat} (returns : AnchorReturns g pattern fuel D)
    (supported : g.Supported) (room : AnchorRoom g ram state)
    (meets : ∀ ret block page table after,
      AnchorUpdated g state ret (ram.withAnchor block page table) after →
      post ret (ram.withAnchor block page table) after) :
    Code.spec (unreliableMachine g pattern) (fun _ => True) halts (anchorUpdate g fuel) post ram
      state := by
  have enough : FailuresEnd pattern 0 ∧ 0 - state.count < fuel ∨ True := .inr trivial
  have onReturn : Code.spec (unreliableMachine g pattern) (fun _ => True) True
      (anchorUpdate g fuel) post ram state :=
    Unreliable.spec_anchorUpdateLoop supported room (fun wrong => absurd wrong Bool.false_ne_true)
      enough meets
  obtain ⟨ret, ram', after, run⟩ := returns ram state room
  exact Code.spec_of_exec run (Code.post_of_spec onReturn run)

end Update

end OpenNfm
