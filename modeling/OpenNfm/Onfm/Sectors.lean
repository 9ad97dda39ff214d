import Mathlib.Data.List.Nodup
import OpenNfm.Buf.WriteBuffer
import OpenNfm.Onfm.Api

/-!
# Single sectors

What the functions of the sector layer do to the image of the store: the sectors
as they read when the collected ones count.  `WriteReady` describes the writing
side with its open page, `CacheFresh` the page that the last read has left.
-/

namespace OpenNfm

open OpenNfm.Program OpenNfm.Buf

variable {g : Geometry} {S : Type} {pageCount : Nat} {ram : OnfmRam S} {store : PageStore S}
  {image : Nat → S} {openPage : Option Nat}

/-! ## Buffers that come back -/

/-- The buffers that are kept and the others are all buffers. -/
theorem filter_append_kept_perm {kept offered : List Nat} (sub : kept.Sublist offered)
    (nodup : offered.Nodup) :
    ((offered.filter fun buffer => buffer ∉ kept) ++ kept).Perm offered := by
  have apart : List.Disjoint (offered.filter fun buffer => buffer ∉ kept) kept := by
    intro buffer released isKept
    have outside := (List.mem_filter.mp released).2
    simp [isKept] at outside
  refine (List.perm_ext_iff_of_nodup
    (List.Nodup.append (nodup.filter _) (nodup.sublist sub) apart) nodup).mpr ?_
  intro buffer
  rw [List.mem_append]
  constructor
  · rintro (released | isKept)
    · exact List.mem_of_mem_filter released
    · exact sub.mem isKept
  · intro offered
    by_cases isKept : buffer ∈ kept
    · exact .inr isKept
    · exact .inl (List.mem_filter.mpr ⟨offered, by simpa using isKept⟩)

namespace PageStore

theorem released_perm (store : PageStore S) (source : PageSource)
    (nodup : (store.offered source).Nodup) :
    (store.released g source ++ store.kept g source).Perm (store.offered source) :=
  filter_append_kept_perm ((List.take_sublist _ _).trans List.filter_sublist) nodup

theorem kept_length_le (store : PageStore S) (source : PageSource) :
    (store.kept g source).length ≤ g.totalDieCount :=
  List.length_take_le _ _

end PageStore

/-- A page write changes the store and the marks of the pool. -/
theorem wp_ftlWrite (others : List Nat) {page : Nat} {source : PageSource} {content : Nat → S}
    {post : Status → OnfmRam S → PageStore S → Prop} (inRange : page < pageCount)
    (owns : PoolOwns g ram (others ++ store.offered source))
    (meets : ∀ used,
      PoolOwns g { ram with pbPoolUsed := used } (others ++ store.kept g source) →
      post .success { ram with pbPoolUsed := used } (store.write g page source content)) :
    Code.wp (storeMachine g pageCount) (fun _ => True) (ftlWrite g page source content) post ram
      store := by
  have nodup : (store.offered source).Nodup := List.Nodup.of_append_right owns.nodup
  have perm : (store.released g source ++ (others ++ store.kept g source)).Perm
      (others ++ store.offered source) :=
    (List.perm_append_comm_assoc _ _ _).trans
      ((store.released_perm source nodup).append_left others)
  simp only [ftlWrite, Code.wp_bind]
  rw [wp_pageWrite inRange]
  refine ⟨trivial, trivial, wp_freeAll (owns.perm perm) trivial fun used owns' => ?_⟩
  exact ⟨trivial, meets used owns'⟩

/-! ## Writing sectors -/

/-- Between two sectors of one call: the open page is being collected. -/
structure WriteReady (g : Geometry) (pageCount : Nat) (ram : OnfmRam S) (store : PageStore S)
    (image : Nat → S) (openPage : Option Nat) : Prop where
  buffer : ∃ buffer, BufReady g pageCount ram store image buffer openPage
  starting : ram.startingSector = openStart g openPage

/-- The sector may come next: it starts a run, or it continues the open page, or
it is the first sector of the page behind. -/
def Follows (g : Geometry) (openPage : Option Nat) (addr : Nat) : Prop :=
  openPage = none ∨ openPage = some (addr / g.sectorPerMpp) ∨
    ∃ before, openPage = some before ∧ addr = (before + 1) * g.sectorPerMpp

theorem follows_succ (g : Geometry) (addr : Nat) :
    Follows g (some (addr / g.sectorPerMpp)) (addr + 1) := by
  have pos := g.sectorPerMpp_pos
  by_cases last : g.sectorPerMpp ∣ addr + 1
  · refine .inr (.inr ⟨_, rfl, ?_⟩)
    rw [← Nat.succ_div_of_dvd last]
    exact (Nat.div_mul_cancel last).symm
  · refine .inr (.inl ?_)
    rw [Nat.succ_div_of_not_dvd last]

/-- The collecting does not depend on the variable that `onfm_write_sector` keeps. -/
theorem Buf.BufReady.setStarting {buffer starting : Nat}
    (ready : BufReady g pageCount ram store image buffer openPage) :
    BufReady g pageCount { ram with startingSector := starting } store image buffer openPage where
  write := ready.write
  merge := ready.merge
  owns := ready.owns.congr rfl
  few := ready.few
  start := ready.start
  stop := ready.stop
  inRange := ready.inRange
  idle := ready.idle
  holds := ready.holds

/-- The open page goes to the store, and the next buffer is empty. -/
theorem Buf.BufReady.flushed {page full buffer next : Nat} {ram' : OnfmRam S} {used : Nat → Bool}
    (ready : BufReady g pageCount ram store image buffer (some page))
    (out : PageOut g ram' store image page full) (isNext : ram'.writeBuffer = some next)
    (owns : PoolOwns g { ram' with pbPoolUsed := used } (next :: store.kept g (.pool full))) :
    BufReady g pageCount { ram' with pbPoolUsed := used }
      (store.write g page (.pool full) (ram'.pbPool full)) image next none := by
  refine
    { write := isNext
      merge := out.merge
      owns := owns
      few := store.kept_length_le _
      start := out.start
      stop := out.stop
      inRange := fun other impossible => by simp at impossible
      idle := fun _ => out.idle
      holds := fun sector => ?_ }
  have pos := g.sectorPerMpp_pos
  have old := ready.holds sector
  simp only [reduceCtorEq, false_and, if_false, PageStore.write]
  by_cases same : sector / g.sectorPerMpp = page
  · rw [same, Function.update_self, out.content _ (Nat.mod_lt sector pos), ← same,
      Nat.mul_comm, Nat.div_add_mod]
  · have closed : some page ≠ some (sector / g.sectorPerMpp) :=
      fun equal => same (Option.some.inj equal).symm
    rw [Function.update_of_ne same, old]
    simp only [closed, false_and, if_false]

/-- Hand the open page out and write it. -/
theorem wp_getPage_ftlWrite {α : Type} {page buffer : Nat}
    {rest : Status → Onfm S α} {continue' : Nat × Option Nat → Onfm S α}
    {post : α → OnfmRam S → PageStore S → Prop}
    (ready : BufReady g pageCount ram store image buffer (some page))
    (small : pageCount * g.sectorPerMpp ≤ allOnes)
    (isContinue : ∀ full, continue' (page, some full) = (do
      let ram ← get
      let ret ← ftlWrite g page (.pool full) (ram.pbPool full)
      rest ret))
    (meets : ∀ ram' store' next, BufReady g pageCount ram' store' image next none →
      SameOnfm ram ram' →
      Code.wp (storeMachine g pageCount) (fun _ => True) (rest .success) post ram' store') :
    Code.wp (storeMachine g pageCount) (fun _ => True) (Buf.getPage g >>= continue') post ram
      store := by
  rw [Code.wp_bind]
  refine wp_getPage ready small trivial fun ram' full out same => ?_
  obtain ⟨next, isNext, owns⟩ := out.next
  rw [isContinue full]
  simp only [Code.wp_bind, Code.wp_get]
  refine ⟨trivial, wp_ftlWrite [next] (ready.inRange page rfl) owns
    fun used owns' => ?_⟩
  exact meets _ _ next (ready.flushed out isNext owns')
    ⟨same.onfmReadBuffer, same.readBufferStartSector, same.startingSector⟩

theorem wp_onfmWriteSector {addr : Nat} {sector : S}
    {post : Int → OnfmRam S → PageStore S → Prop}
    (ready : WriteReady g pageCount ram store image openPage) (follows : Follows g openPage addr)
    (inRange : addr / g.sectorPerMpp < pageCount) (small : pageCount * g.sectorPerMpp ≤ allOnes)
    (meets : ∀ ram' store', WriteReady g pageCount ram' store' (Function.update image addr sector)
        (some (addr / g.sectorPerMpp)) →
      ram'.readBufferStartSector = ram.readBufferStartSector → post 0 ram' store') :
    Code.wp (storeMachine g pageCount) (fun _ => True) (onfmWriteSector g addr (some sector)) post
      ram store := by
  obtain ⟨⟨buffer, buf⟩, starting⟩ := ready
  have proper : ∀ page < pageCount, page * g.sectorPerMpp ≠ invalidLsaddr := by
    intro page isPage
    have := page_end isPage small
    omega
  simp only [onfmWriteSector, Code.wp_bind, Code.wp_get, starting]
  refine ⟨trivial, ?_⟩
  rcases follows with rfl | rfl | ⟨before, rfl, atStart⟩
  · simp only [openStart, if_true, Code.wp_bind, Code.wp_modify]
    refine ⟨trivial, wp_putSector buf.setStarting (.inl rfl) rfl inRange small trivial
      fun ram' collected same => ?_⟩
    exact ⟨trivial, trivial, meets ram' store ⟨⟨buffer, collected⟩, same.startingSector⟩
      same.readBufferStartSector⟩
  · obtain ⟨lower, upper, -⟩ := page_bounds (rfl : addr / g.sectorPerMpp = _)
    have inside : addr / g.sectorPerMpp * g.sectorPerMpp ≤ addr ∧
        addr < g.behindPage (addr / g.sectorPerMpp * g.sectorPerMpp) := by
      have pos := g.sectorPerMpp_pos
      rw [behindPage_eq inRange small, Nat.succ_mul]
      omega
    simp only [openStart, proper _ inRange, if_false, inside, and_self, decide_true, Code.wp_bind]
    refine wp_putSector buf (.inr rfl) rfl inRange small trivial fun ram' collected same => ?_
    exact ⟨trivial, trivial, meets ram' store
      ⟨⟨buffer, collected⟩, same.startingSector.trans starting⟩ same.readBufferStartSector⟩
  · have isNext : addr = g.behindPage (before * g.sectorPerMpp) := by
      rw [behindPage_eq (buf.inRange before rfl) small, atStart]
    have outside : ¬ addr < g.behindPage (before * g.sectorPerMpp) := by
      rw [← isNext]
      exact Nat.lt_irrefl _
    simp only [openStart, proper _ (buf.inRange before rfl), if_false, outside, and_false,
      decide_false]
    rw [Code.wp_bind, Code.wp_assert]
    refine ⟨.inr (starting ▸ isNext), trivial, ?_⟩
    refine wp_getPage_ftlWrite buf small (fun full => rfl) fun ram' store' next empty same => ?_
    simp only [if_true, Code.wp_bind, Code.wp_modify]
    refine ⟨trivial, wp_putSector empty.setStarting (.inl rfl) rfl inRange small trivial
      fun ram₂ collected same' => ?_⟩
    exact ⟨trivial, trivial, meets ram₂ store' ⟨⟨next, collected⟩, same'.startingSector⟩
      (same'.readBufferStartSector.trans same.readBufferStartSector)⟩

/-- Without a sector: the open page goes to the store. -/
theorem wp_onfmWriteSector_flush {post : Int → OnfmRam S → PageStore S → Prop}
    (ready : WriteReady g pageCount ram store image openPage)
    (small : pageCount * g.sectorPerMpp ≤ allOnes)
    (meets : ∀ ram' store', WriteReady g pageCount ram' store' image none →
      ram'.readBufferStartSector = ram.readBufferStartSector → post 0 ram' store') :
    Code.wp (storeMachine g pageCount) (fun _ => True) (onfmWriteSector g invalidLsaddr none) post
      ram store := by
  obtain ⟨⟨buffer, buf⟩, starting⟩ := ready
  simp only [onfmWriteSector, Code.wp_bind, Code.wp_get, starting]
  refine ⟨trivial, ?_⟩
  cases openPage with
  | none =>
      simp only [openStart, if_true]
      exact ⟨trivial, meets ram store ⟨⟨buffer, buf⟩, starting⟩ rfl⟩
  | some page =>
      have proper : page * g.sectorPerMpp ≠ invalidLsaddr := by
        have := page_end (buf.inRange page rfl) small
        omega
      simp only [openStart, proper, if_false]
      rw [Code.wp_bind, Code.wp_assert]
      refine ⟨.inl rfl, trivial, ?_⟩
      refine wp_getPage_ftlWrite buf small (fun full => rfl) fun ram' store' next empty same => ?_
      simp only [if_true, Code.wp_bind, Code.wp_modify, Code.wp_assert]
      exact ⟨trivial, trivial, trivial, trivial, trivial, meets _ store'
        ⟨⟨next, empty.setStarting⟩, rfl⟩ same.readBufferStartSector⟩

/-! ## Reading sectors -/

/-- The read cache is empty, or it holds a page as its sectors read. -/
def CacheFresh (g : Geometry) (pageCount : Nat) (ram : OnfmRam S) (image : Nat → S) : Prop :=
  ram.readBufferStartSector = invalidLsaddr ∨
    ∃ page < pageCount, ram.readBufferStartSector = page * g.sectorPerMpp ∧
      ∀ i < g.sectorPerMpp, ram.onfmReadBuffer i = image (page * g.sectorPerMpp + i)

/-- Between two calls: no page is open, and the cache is fresh. -/
structure OnfmReady (g : Geometry) (pageCount : Nat) (ram : OnfmRam S) (store : PageStore S)
    (image : Nat → S) : Prop where
  writes : WriteReady g pageCount ram store image none
  cache : CacheFresh g pageCount ram image

/-- Without an open page, the sectors read as the store has them. -/
theorem WriteReady.image_eq (ready : WriteReady g pageCount ram store image none)
    (sector : Nat) :
    image sector = store.pages (sector / g.sectorPerMpp) (sector % g.sectorPerMpp) := by
  obtain ⟨buffer, buf⟩ := ready.buffer
  have holds := buf.holds sector
  simpa only [reduceCtorEq, false_and, if_false] using holds

theorem WriteReady.image_page {page i : Nat}
    (ready : WriteReady g pageCount ram store image none) (inside : i < g.sectorPerMpp) :
    image (page * g.sectorPerMpp + i) = store.pages page i := by
  have pos := g.sectorPerMpp_pos
  rw [ready.image_eq, Nat.add_comm, Nat.add_mul_div_right _ _ pos, Nat.div_eq_of_lt inside,
    Nat.zero_add, Nat.add_mul_mod_self_right, Nat.mod_eq_of_lt inside]

/-- Reading changes the cache only. -/
theorem WriteReady.setCache {content : Nat → S} {start : Nat}
    (ready : WriteReady g pageCount ram store image none) :
    WriteReady g pageCount
      { ram with onfmReadBuffer := content, readBufferStartSector := start } store image none := by
  obtain ⟨⟨buffer, buf⟩, starting⟩ := ready
  exact
    ⟨⟨buffer, { buf with owns := buf.owns.congr rfl }⟩, starting⟩

theorem wp_onfmReadSector {addr : Nat} {post : Int × Option S → OnfmRam S → PageStore S → Prop}
    (ready : OnfmReady g pageCount ram store image) (inRange : addr / g.sectorPerMpp < pageCount)
    (small : pageCount * g.sectorPerMpp ≤ allOnes)
    (meets : ∀ ram', OnfmReady g pageCount ram' store image →
      post (0, some (image addr)) ram' store) :
    Code.wp (storeMachine g pageCount) (fun _ => True) (onfmReadSector g addr) post ram store := by
  have pos := g.sectorPerMpp_pos
  have inStore : addr < pageCount * g.sectorPerMpp := (Nat.div_lt_iff_lt_mul pos).mp inRange
  simp only [onfmReadSector, Code.wp_bind, Code.wp_get]
  refine ⟨trivial, ?_⟩
  by_cases hit : ram.readBufferStartSector ≤ addr ∧
      addr < g.behindPage ram.readBufferStartSector
  · simp only [hit, and_self, if_true, Code.wp_bind, Code.wp_pure, Code.wp_get]
    have cached : ram.onfmReadBuffer (addr - ram.readBufferStartSector) = image addr := by
      rcases ready.cache with empty | ⟨page, isPage, start, content⟩
      · rw [empty] at hit
        exact absurd (inStore.trans_le small) hit.1.not_gt
      · rw [start, behindPage_eq isPage small, Nat.succ_mul] at hit
        rw [start, content _ (by omega), Nat.add_sub_of_le hit.1]
    rw [cached]
    exact ⟨trivial, trivial, trivial, meets ram ready⟩
  · obtain ⟨lower, -, offset⟩ := page_bounds (rfl : addr / g.sectorPerMpp = _)
    have isSector : store.pages (addr / g.sectorPerMpp) (addr % g.sectorPerMpp) = image addr :=
      (ready.writes.image_eq addr).symm
    simp only [hit, if_false]
    rw [Code.wp_bind, wp_storeRead inRange]
    simp only [if_true, Code.wp_bind, Code.wp_modify, Code.wp_pure, Code.wp_get, offset, isSector]
    refine ⟨trivial, trivial, trivial, trivial, trivial, trivial, meets _
      ⟨ready.writes.setCache, .inr ⟨_, inRange, rfl, ?_⟩⟩⟩
    exact fun i inside => (ready.writes.image_page inside).symm

end OpenNfm
