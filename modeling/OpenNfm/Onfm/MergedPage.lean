import OpenNfm.Onfm.FailingStore

/-!
# Merging sectors into a page

Sectors of one page are put into the write buffer, in any order and some of them more than
once, and `BUF_GetPage` hands the page out.  The missing sectors are read back.  When that
read fails the page is handed out all the same, with what the read has left in the buffer.
-/

namespace OpenNfm

open OpenNfm.Program OpenNfm.Buf

section MergedPage

variable {g : Geometry} {S : Type} {pageCount page : Nat}

/-! ## One page -/

/-- Put the sectors, and get the page. -/
def collectPage (g : Geometry) (puts : List (Nat × S)) : Onfm S (Nat × Option Nat) := do
  puts.forM fun put => putSector g put.1 put.2
  getPage g

/-- The sectors after the puts: the last put counts. -/
def putAll (puts : List (Nat × S)) (image : Nat → S) : Nat → S :=
  puts.foldl (fun image put => Function.update image put.1 put.2) image

/-- Every sector of the page is put. -/
def PutsWholePage (g : Geometry) (page : Nat) (puts : List (Nat × S)) : Prop :=
  ∀ i < g.sectorPerMpp, ∃ put ∈ puts, put.1 = page * g.sectorPerMpp + i

/-- Whether the sectors cover the page can be computed. -/
instance (page : Nat) (puts : List (Nat × S)) : Decidable (PutsWholePage g page puts) :=
  inferInstanceAs (Decidable (∀ i < g.sectorPerMpp, ∃ put ∈ puts,
    put.1 = page * g.sectorPerMpp + i))

/-- The state of the buffers between two pages: the write buffer is empty, and other buffers
are owned by the FTL. -/
structure BufIdle (g : Geometry) (ram : OnfmRam S) (owned : List Nat) (buffer : Nat) : Prop where
  write : ram.writeBuffer = some buffer
  merge : ram.mergeBuffer = none
  owns : PoolOwns g ram (buffer :: owned)
  start : ram.bufStartAddr = invalidLsaddr
  stop : ram.bufEndAddr = invalidLsaddr
  idle : ∀ i < g.sectorPerMpp, ram.sectorWritten i = false

theorem BufIdle.collects {ram : OnfmRam S} {store : FailingStore S} {buffer : Nat}
    (idle : BufIdle g ram (store.held ++ store.lost) buffer) :
    Collects g pageCount ram store.pages (store.image g) (store.held ++ store.lost) buffer
      none where
  write := idle.write
  merge := idle.merge
  owns := idle.owns
  start := idle.start
  stop := idle.stop
  inRange page impossible := absurd impossible.symm (Option.some_ne_none page)
  idle _ := idle.idle
  holds sector := by simp [FailingStore.image]

/-- The sectors outside the puts stay. -/
theorem putAll_of_not_put {puts : List (Nat × S)} {image : Nat → S} {sector : Nat}
    (away : ∀ put ∈ puts, put.1 ≠ sector) : putAll puts image sector = image sector := by
  induction puts generalizing image with
  | nil => rfl
  | cons put rest ih =>
      have others := fun other inside => away other (List.mem_cons_of_mem put inside)
      have differs : sector ≠ put.1 := (away put List.mem_cons_self).symm
      rw [putAll, List.foldl_cons, ← putAll, ih others, Function.update_of_ne differs]

variable {faults : FtlFaults S} {ram : OnfmRam S} {store : FailingStore S} {buffer : Nat}

/-- The put sectors are collected, and marked as written. -/
theorem wp_putSectors {openPage : Option Nat} {owned : List Nat} {image : Nat → S}
    {puts : List (Nat × S)} {post : PUnit → OnfmRam S → FailingStore S → Prop}
    (collects : Collects g pageCount ram store.pages image owned buffer openPage)
    (isOpen : openPage = none ∨ openPage = some page)
    (inPage : ∀ put ∈ puts, put.1 / g.sectorPerMpp = page) (inRange : page < pageCount)
    (small : pageCount * g.sectorPerMpp ≤ allOnes)
    (meets : ∀ ram', Collects g pageCount ram' store.pages (putAll puts image) owned buffer
        (if puts = [] then openPage else some page) →
      (∀ i < g.sectorPerMpp, ram'.sectorWritten i = true ↔
        ram.sectorWritten i = true ∨ ∃ put ∈ puts, put.1 = page * g.sectorPerMpp + i) →
      post ⟨⟩ ram' store) :
    Code.wp (failingMachine g pageCount faults) (fun _ => True)
      (puts.forM fun put => putSector g put.1 put.2) post ram store := by
  induction puts generalizing openPage image ram with
  | nil => exact ⟨trivial, meets ram collects fun i _ => by simp⟩
  | cons put rest ih =>
      change Code.wp _ _ (putSector g put.1 put.2 >>= fun _ =>
        rest.forM fun put => putSector g put.1 put.2) _ _ _
      rw [Code.wp_bind]
      have here := inPage put List.mem_cons_self
      refine collects.wp_putSector isOpen here inRange small trivial
        fun ram₁ collects₁ _ written => ?_
      refine ih collects₁ (.inr rfl)
        (fun other inside => inPage other (List.mem_cons_of_mem _ inside))
        fun ram₂ collects₂ written₂ => meets ram₂ ?_ fun i inside => ?_
      · rw [if_neg (List.cons_ne_nil put rest)]
        rw [ite_self] at collects₂
        exact collects₂
      · obtain ⟨lower, upper, offset⟩ := page_bounds here
        rw [written₂ i inside, written]
        by_cases same : i = put.1 % g.sectorPerMpp
        · have isPut : put.1 = page * g.sectorPerMpp + i := by omega
          rw [← same, Function.update_self]
          exact iff_of_true (.inl rfl) (.inr ⟨put, List.mem_cons_self, isPut⟩)
        · have notPut : put.1 ≠ page * g.sectorPerMpp + i := by omega
          rw [Function.update_of_ne same]
          simp [notPut]

/-! ## The page that is handed out -/

/-- A page is handed out that has the last put data in the sectors that were put and the old
content in the others.  Afterwards no sector is marked as written, and another buffer, in
nobody's hands, is the write buffer. -/
def HandsOutMerged (g : Geometry) (pageCount : Nat) (faults : FtlFaults S) (page : Nat)
    (puts : List (Nat × S)) (ram : OnfmRam S) (store : FailingStore S) : Prop :=
  ∃ full ram' store',
    ((collectPage g puts).run ram).exec (failingMachine g pageCount faults) store =
      .ok (((page, some full), ram'), store') ∧
    (∀ i < g.sectorPerMpp,
      ram'.pbPool full i = putAll puts (store.image g) (page * g.sectorPerMpp + i)) ∧
    ∃ next, BufIdle g ram' (full :: (store'.held ++ store'.lost)) next

/-- The page is handed out whatever becomes of the read. -/
theorem exec_collectPage (faults : FtlFaults S) {puts : List (Nat × S)}
    (idle : BufIdle g ram (store.held ++ store.lost) buffer)
    (room : (store.held ++ store.lost).length + 1 < g.bufferCount)
    (small : pageCount * g.sectorPerMpp ≤ allOnes) (inRange : page < pageCount)
    (some : puts ≠ []) (inPage : ∀ put ∈ puts, put.1 / g.sectorPerMpp = page) :
    ∃ full ram' store',
      ((collectPage g puts).run ram).exec (failingMachine g pageCount faults) store =
        .ok (((page, .some full), ram'), store') ∧
      (∀ i < g.sectorPerMpp, ram'.pbPool full i =
        if PutsWholePage g page puts ∨ faults.read store.calls = .success then
          putAll puts (store.image g) (page * g.sectorPerMpp + i)
        else faults.leaves store.calls i) ∧
      ∃ next, BufIdle g ram' (full :: (store'.held ++ store'.lost)) next := by
  have run : Code.wp (failingMachine g pageCount faults) (fun _ => True) (collectPage g puts)
      (fun result ram' store' => ∃ full, result = (page, .some full) ∧
        (∀ i < g.sectorPerMpp, ram'.pbPool full i =
          if PutsWholePage g page puts ∨ faults.read store.calls = .success then
            putAll puts (store.image g) (page * g.sectorPerMpp + i)
          else faults.leaves store.calls i) ∧
        ∃ next, BufIdle g ram' (full :: (store'.held ++ store'.lost)) next) ram store := by
    rw [collectPage, Code.wp_bind]
    refine wp_putSectors idle.collects (.inl rfl) inPage inRange small
      fun ram₁ collects written => ?_
    rw [if_neg some] at collects
    have whole : AllWritten g ram₁ ↔ PutsWholePage g page puts := by
      refine forall₂_congr fun i inside => ?_
      rw [written i inside, idle.idle i inside, Bool.false_eq_true, false_or]
    have handsOut : ∀ {ram' : OnfmRam S} {content : Nat → S} {owned : List Nat} {full : Nat},
        HandedOut g ram' content owned full → ∃ next, BufIdle g ram' (full :: owned) next := by
      intro ram' content owned full out
      obtain ⟨next, isNext, owns⟩ := out.next
      exact ⟨next, isNext, out.merge, owns, out.start, out.stop, out.idle⟩
    have nodup := (List.nodup_cons.mp collects.owns.nodup).2
    refine collects.wp_getPage room (FailingStore.read_perm nodup) small
      (fun _ => if_pos inRange) trivial trivial (fun all ram' full out _ => ?_)
      (fun missing ram' full out _ => ?_)
    · refine ⟨full, rfl, fun i inside => ?_, handsOut out⟩
      rw [out.content i inside, if_pos (.inl (whole.mp all)), collects.image_eq inside,
        if_pos (all i inside)]
    · refine ⟨full, rfl, fun i inside => ?_, handsOut out⟩
      rw [out.content i inside, mergedPage, FailingStore.readContent]
      by_cases success : faults.read store.calls = .success
      · rw [if_pos success, if_pos success, if_pos (.inr success), collects.image_eq inside, merged]
        simp only [inside, decide_true, Bool.and_true]
      · rw [if_neg success, if_neg success, if_neg]
        exact fun right => right.elim (fun put => missing (whole.mpr put)) success
  obtain ⟨⟨result, ram'⟩, store', exec, full, rfl, content, next⟩ := Prog.exec_of_wp run
  exact ⟨full, ram', store', exec, content, next⟩

/-- The page is right, whatever a read that fails leaves in its buffer, exactly if all sectors
are put or the old page can be read. -/
theorem handsOutMerged_iff [Nontrivial S] {puts : List (Nat × S)}
    (idle : BufIdle g ram (store.held ++ store.lost) buffer)
    (room : (store.held ++ store.lost).length + 1 < g.bufferCount)
    (small : pageCount * g.sectorPerMpp ≤ allOnes) (inRange : page < pageCount)
    (some : puts ≠ []) (inPage : ∀ put ∈ puts, put.1 / g.sectorPerMpp = page) :
    (∀ leaves, HandsOutMerged g pageCount { faults with leaves := leaves } page puts ram store) ↔
      PutsWholePage g page puts ∨ faults.read store.calls = .success := by
  have runs := fun leaves => exec_collectPage { faults with leaves := leaves } idle room small
    inRange some inPage
  constructor
  · intro right
    by_contra wrong
    have missing : ∃ i < g.sectorPerMpp, ∀ put ∈ puts, put.1 ≠ page * g.sectorPerMpp + i := by
      simpa only [PutsWholePage, not_forall, not_exists, not_and, exists_prop] using
        (not_or.mp wrong).1
    obtain ⟨i, inside, away⟩ := missing
    obtain ⟨other, differs⟩ := exists_ne (store.image g (page * g.sectorPerMpp + i))
    obtain ⟨full, ram', store', exec, content, -⟩ := right fun _ _ => other
    obtain ⟨full', ram₂, store₂, exec', content', -⟩ := runs fun _ _ => other
    rw [exec] at exec'
    cases exec'
    have left := content' i inside
    rw [if_neg wrong, content i inside, putAll_of_not_put away] at left
    exact differs left.symm
  · intro known leaves
    obtain ⟨full, ram', store', exec, content, next⟩ := runs leaves
    exact ⟨full, ram', store', exec, fun i inside => (content i inside).trans (if_pos known), next⟩

/-! ## A read that fails -/

/-- The static variables behind a mount: buffer 0 is the write buffer. -/
def mountedOnfm : OnfmRam Nat where
  pbPool _ _ := 0
  pbPoolUsed buffer := buffer = 0
  sectorWritten _ := false
  writeBuffer := some 0
  mergeBuffer := none
  bufStartAddr := invalidLsaddr
  bufEndAddr := invalidLsaddr
  onfmReadBuffer _ := 0
  readBufferStartSector := invalidLsaddr
  startingSector := invalidLsaddr

/-- Pages that hold their numbers. -/
def numberedStore : FailingStore Nat := ⟨fun page _ => page, [], [], 0, []⟩

theorem bufIdle_mountedOnfm :
    BufIdle simNand mountedOnfm (numberedStore.held ++ numberedStore.lost) 0 where
  write := rfl
  merge := rfl
  owns := ⟨by decide, by decide, by decide⟩
  start := rfl
  stop := rfl
  idle _ _ := rfl

/-- An FTL without faults. -/
def FtlFaults.none :
    FtlFaults Nat := ⟨fun _ => .success, fun _ => .success, fun _ _ => 0, fun _ => []⟩

/-- An FTL that cannot read. -/
def FtlFaults.unreadable : FtlFaults Nat := { FtlFaults.none with read := fun _ => .failure }

/-- Two sectors are put, one of them twice, and merged into page 3. -/
theorem handsOutMerged_mounted :
    FtlFaults.none.read numberedStore.calls = .success ∧
      ∀ leaves, HandsOutMerged simNand 4 { FtlFaults.none with leaves := leaves } 3
        [(50, 7), (48, 8), (50, 9)] mountedOnfm numberedStore :=
  ⟨rfl, (handsOutMerged_iff bufIdle_mountedOnfm (by decide) (by decide) (by decide) (by decide)
    (by decide)).mpr (.inr rfl)⟩

/-- If page 3 cannot be read, it is handed out with neither the sector that was put nor its
old content. -/
theorem getPage_hands_out_unread :
    BufIdle simNand mountedOnfm (numberedStore.held ++ numberedStore.lost) 0 ∧
      ¬ (∀ leaves, HandsOutMerged simNand 4 { FtlFaults.unreadable with leaves := leaves } 3
        [(50, 7)] mountedOnfm numberedStore) ∧
      ∃ full ram' store',
        ((collectPage simNand [(50, 7)]).run mountedOnfm).exec
          (failingMachine simNand 4 .unreadable) numberedStore =
            .ok (((3, some full), ram'), store') ∧
        ∀ i < simNand.sectorPerMpp, ram'.pbPool full i = 0 := by
  obtain ⟨full, ram', store', exec, content, -⟩ := exec_collectPage .unreadable bufIdle_mountedOnfm
    (by decide) (show 4 * simNand.sectorPerMpp ≤ allOnes by decide) (by decide)
    (List.cons_ne_nil (50, 7) [])
    (show ∀ put ∈ [(50, 7)], put.1 / simNand.sectorPerMpp = 3 by decide)
  have unread : ∀ i < simNand.sectorPerMpp, ram'.pbPool full i = 0 := fun i inside =>
    (content i inside).trans (if_neg (by decide))
  refine ⟨bufIdle_mountedOnfm, fun right => ?_, full, ram', store', exec, unread⟩
  obtain ⟨full', ram₂, store₂, exec', merged, -⟩ := right fun _ _ => 0
  have same : ({ FtlFaults.unreadable with leaves := fun _ _ => 0 } : FtlFaults Nat) =
      .unreadable := rfl
  rw [same, exec] at exec'
  cases exec'
  have lost := (unread 2 (by decide)).symm.trans (merged 2 (by decide))
  exact absurd lost (by decide)

end MergedPage

end OpenNfm
