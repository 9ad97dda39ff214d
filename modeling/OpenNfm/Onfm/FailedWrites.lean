import OpenNfm.Onfm.MergedPage
import OpenNfm.Onfm.Refinement

/-!
# Writes behind a failed write

When `FTL_Write` fails in the middle of `ONFM_Write`, the buffers start anew but the variable
`starting_sector` of `onfm_write_sector` keeps the page that failed.  A later write is in order
if it begins in that page, or if it goes past the buffers; any other one runs into an assertion.
Each failed write may also cost the pool a buffer.
-/

namespace OpenNfm

open OpenNfm.Program OpenNfm.Buf

section FailedWrites

variable {g : Geometry} {S : Type} {pageCount : Nat} {faults : FtlFaults S}

/-! ## Between two calls -/

/-- Between two calls no page is collected.  The start of a page whose write has failed may be
left behind. -/
structure BetweenCalls (g : Geometry) (pageCount : Nat) (ram : OnfmRam S)
    (store : FailingStore S) : Prop where
  collects : ∃ buffer, Collects g pageCount ram store.pages (store.image g)
    (store.held ++ store.lost) buffer none
  few : store.held.length ≤ g.totalDieCount
  starting : ram.startingSector = invalidLsaddr ∨
    ∃ page < pageCount, ram.startingSector = page * g.sectorPerMpp
  cache : CacheFresh g pageCount ram (store.image g)

/-- While a range is written: sectors outside of it read as in `base`, and so far no page has
failed. -/
structure Writing (g : Geometry) (pageCount : Nat) (range : Nat → Prop) (base : Nat → S)
    (asked : List (Nat × Status)) (ram : OnfmRam S) (store : FailingStore S) (image : Nat → S)
    (openPage : Option Nat) : Prop where
  collects : ∃ buffer, Collects g pageCount ram store.pages image (store.held ++ store.lost)
    buffer openPage
  few : store.held.length ≤ g.totalDieCount
  room : store.lost.length ≤ g.totalDieCount
  cache : ram.readBufferStartSector = invalidLsaddr
  covered : ∀ page, openPage = some page → ∃ sector, range sector ∧ sector / g.sectorPerMpp = page
  image : ∀ sector, ¬ range sector → image sector = base sector
  stored : ∀ sector, ¬ range sector → store.image g sector = base sector
  asked : ∃ new, store.asked = new ++ asked ∧ ∀ entry ∈ new,
    (∃ sector, range sector ∧ sector / g.sectorPerMpp = entry.1) ∧ entry.2 = .success

/-- A page of the range has failed. -/
structure Stopped (g : Geometry) (pageCount : Nat) (range : Nat → Prop) (base : Nat → S)
    (asked : List (Nat × Status)) (ram : OnfmRam S) (store : FailingStore S) : Prop where
  between : BetweenCalls g pageCount ram store
  stored : ∀ sector, ¬ range sector → store.image g sector = base sector
  asked : ∃ new, store.asked = new ++ asked ∧
    (∀ entry ∈ new, ∃ sector, range sector ∧ sector / g.sectorPerMpp = entry.1) ∧
    ∃ entry ∈ new, entry.2 ≠ .success

variable {range : Nat → Prop} {base image : Nat → S} {asked : List (Nat × Status)}
  {ram : OnfmRam S} {store : FailingStore S} {openPage : Option Nat}

/-- The sectors behind a page write that was stored or not. -/
theorem FailingStore.image_write {page : Nat} {source : PageSource} {content : Nat → S}
    (sector : Nat) : (store.write g faults page source content).image g sector =
      if (faults.write store.calls).stored = true ∧ sector / g.sectorPerMpp = page then
        content (sector % g.sectorPerMpp)
      else store.image g sector := by
  unfold image write
  by_cases stored : (faults.write store.calls).stored = true
  · by_cases same : sector / g.sectorPerMpp = page
    · simp [stored, same]
    · simp [stored, same]
  · simp [stored]

/-- A sector outside the open page reads as the store has it. -/
theorem Buf.Collects.image_of_closed {page sector buffer : Nat} {owned : List Nat}
    (collects : Collects g pageCount ram store.pages image owned buffer (some page))
    (closed : sector / g.sectorPerMpp ≠ page) : image sector = store.image g sector := by
  have holds := collects.holds sector
  have other : some page ≠ some (sector / g.sectorPerMpp) :=
    fun equal => closed (Option.some.inj equal).symm
  rwa [if_neg fun isOpen => other isOpen.1] at holds

/-- The buffers behind a page write. -/
theorem Buf.HandedOut.collects (pageCount : Nat) {full next : Nat} {content : Nat → S}
    {owned : List Nat} {used : Nat → Bool} (out : HandedOut g ram content owned full)
    (isNext : ram.writeBuffer = some next)
    (owns : PoolOwns g { ram with pbPoolUsed := used } (next :: (store.held ++ store.lost))) :
    Collects g pageCount { ram with pbPoolUsed := used } store.pages (store.image g)
      (store.held ++ store.lost) next none where
  write := isNext
  merge := out.merge
  owns := owns
  start := out.start
  stop := out.stop
  inRange page impossible := absurd impossible.symm (Option.some_ne_none page)
  idle _ := out.idle
  holds sector := by simp [FailingStore.image]

/-- The page in a buffer goes to the FTL, which may fail. -/
theorem Writing.wp_write {α : Type} {page full : Nat} {content : Nat → S} {rest : Status → Onfm S α}
    {store₁ : FailingStore S} {ram₁ : OnfmRam S} {post : α → OnfmRam S → FailingStore S → Prop}
    (writing : Writing g pageCount range base asked ram store image (some page))
    (out : HandedOut g ram₁ content (store₁.held ++ store₁.lost) full)
    (holds : ∀ i < g.sectorPerMpp, content i = image (page * g.sectorPerMpp + i))
    (same : SameOnfm ram ram₁) (pages : store₁.pages = store.pages)
    (lost : store₁.lost = store.lost) (noneAsked : store₁.asked = store.asked)
    (inRange : page < pageCount)
    (succeeds : ∀ ram' store', Writing g pageCount range base asked ram' store' image none →
      ram'.startingSector = ram.startingSector →
      Code.wp (failingMachine g pageCount faults) (fun _ => True) (rest .success) post ram' store')
    (fails : ∀ status ram' store', status ≠ .success →
      Stopped g pageCount range base asked { ram' with startingSector := invalidLsaddr } store' →
      ram'.startingSector = ram.startingSector →
      Code.wp (failingMachine g pageCount faults) (fun _ => True) (rest status) post ram' store') :
    Code.wp (failingMachine g pageCount faults) (fun _ => True) (do
      let ram ← get
      let ret ← ftlWrite g page (.pool full) (ram.pbPool full)
      rest ret) post ram₁ store₁ := by
  obtain ⟨next, isNext, owns⟩ := out.next
  obtain ⟨buffer, collects⟩ := writing.collects
  have pos := g.sectorPerMpp_pos
  have isPage : ∀ sector, sector / g.sectorPerMpp = page →
      page * g.sectorPerMpp + sector % g.sectorPerMpp = sector := by
    rintro sector rfl
    exact Nat.div_add_mod' sector g.sectorPerMpp
  have sameImage : store₁.image g = store.image g := by
    funext sector
    rw [FailingStore.image, pages, FailingStore.image]
  have stored : ∀ sector, ¬ range sector →
      (store₁.write g faults page (.pool full) (ram₁.pbPool full)).image g sector =
        base sector := by
    intro sector outside
    rw [FailingStore.image_write, sameImage]
    split
    · rename_i here
      have offset := Nat.mod_lt sector pos
      rw [out.content _ offset, holds _ offset, isPage sector here.2]
      exact writing.image sector outside
    · exact writing.stored sector outside
  simp only [Code.wp_bind, Code.wp_get]
  refine ⟨trivial, wp_failingWrite [next] inRange owns fun used owns' => ?_⟩
  have after := out.collects pageCount isNext owns'
  obtain ⟨new, isNew, covers⟩ := writing.asked
  obtain ⟨last, inside, onPage⟩ := writing.covered page rfl
  have askedNow : (store₁.write g faults page (.pool full) (ram₁.pbPool full)).asked =
      ((page, (faults.write store₁.calls).status) :: new) ++ asked := by
    rw [FailingStore.write, noneAsked, isNew]
    rfl
  by_cases success : (faults.write store₁.calls).status = .success
  · obtain ⟨isStored, isKept⟩ := (faults.write store₁.calls).done success
    have images : image = (store₁.write g faults page (.pool full) (ram₁.pbPool full)).image g := by
      funext sector
      rw [FailingStore.image_write, sameImage]
      by_cases here : sector / g.sectorPerMpp = page
      · have offset := Nat.mod_lt sector pos
        rw [if_pos ⟨isStored, here⟩, out.content _ offset, holds _ offset, isPage sector here]
      · rw [if_neg fun both => here both.2]
        exact collects.image_of_closed here
    rw [success]
    refine succeeds _ _ ?_ same.startingSector
    exact
      { collects := ⟨next, images ▸ after⟩
        few := FailingStore.keeps_length_le _
        room := by
          simp only [FailingStore.write, isKept, if_true, lost]
          exact writing.room
        cache := same.readBufferStartSector.trans writing.cache
        covered := fun other impossible => absurd impossible.symm (Option.some_ne_none other)
        image := writing.image
        stored := stored
        asked := by
          refine ⟨_, askedNow, fun entry inNew => ?_⟩
          rcases List.mem_cons.mp inNew with rfl | inNew
          · exact ⟨⟨last, inside, onPage⟩, success⟩
          · exact covers entry inNew }
  · refine fails _ _ _ success ?_ same.startingSector
    refine ⟨⟨⟨next, ?_⟩, FailingStore.keeps_length_le _, .inl rfl, .inl ?_⟩, stored, ?_⟩
    · exact after.setOnfm rfl rfl rfl rfl rfl rfl rfl
    · exact same.readBufferStartSector.trans writing.cache
    · refine ⟨_, askedNow, fun entry inNew => ?_, _, List.mem_cons_self, success⟩
      rcases List.mem_cons.mp inNew with rfl | inNew
      · exact ⟨last, inside, onPage⟩
      · exact (covers entry inNew).1

/-- The open page goes to the FTL, which may fail. -/
theorem Writing.wp_flush {α : Type} {page : Nat} {rest : Status → Onfm S α}
    {continue' : Nat × Option Nat → Onfm S α} {post : α → OnfmRam S → FailingStore S → Prop}
    (reads : ∀ n, faults.read n = .success)
    (writing : Writing g pageCount range base asked ram store image (some page))
    (small : pageCount * g.sectorPerMpp ≤ allOnes)
    (isContinue : ∀ full, continue' (page, some full) = (do
      let ram ← get
      let ret ← ftlWrite g page (.pool full) (ram.pbPool full)
      rest ret))
    (succeeds : ∀ ram' store', Writing g pageCount range base asked ram' store' image none →
      ram'.startingSector = ram.startingSector →
      Code.wp (failingMachine g pageCount faults) (fun _ => True) (rest .success) post ram' store')
    (fails : ∀ status ram' store', status ≠ .success →
      Stopped g pageCount range base asked { ram' with startingSector := invalidLsaddr } store' →
      ram'.startingSector = ram.startingSector →
      Code.wp (failingMachine g pageCount faults) (fun _ => True) (rest status) post ram' store') :
    Code.wp (failingMachine g pageCount faults) (fun _ => True) (Buf.getPage g >>= continue') post
      ram store := by
  obtain ⟨buffer, collects⟩ := writing.collects
  have inRange := collects.inRange page rfl
  have nodup := (List.nodup_cons.mp collects.owns.nodup).2
  have room : (store.held ++ store.lost).length + 1 < g.bufferCount := by
    have held := writing.few
    have lost := writing.room
    rw [List.length_append]
    unfold Geometry.bufferCount
    omega
  rw [Code.wp_bind]
  refine collects.wp_getPage room (FailingStore.read_perm nodup) small (fun _ => if_pos inRange)
    trivial trivial (fun all ram₁ full out same => ?_) (fun _ ram₁ full out same => ?_)
  · rw [isContinue full]
    refine writing.wp_write out (fun i inside => ?_) same rfl rfl rfl inRange succeeds fails
    rw [collects.image_eq inside, if_pos (all i inside)]
  · rw [isContinue full]
    refine writing.wp_write out (fun i inside => ?_) same rfl rfl rfl inRange succeeds fails
    rw [mergedPage, if_pos (reads _), FailingStore.readContent, if_pos (reads _),
      collects.image_eq inside, merged]
    simp only [inside, decide_true, Bool.and_true]

/-! ## Single sectors -/

/-- The variable `starting_sector` agrees with the open page, or no page is open and it was left
behind by a failed write of the page of the sector. -/
def StartsAt (g : Geometry) (starting : Nat) (openPage : Option Nat) (addr : Nat) : Prop :=
  starting = openStart g openPage ∨
    openPage = none ∧ starting = addr / g.sectorPerMpp * g.sectorPerMpp

/-- One more sector is collected. -/
theorem Writing.wp_putSector {addr : Nat} {sector : S}
    {post : Unit → OnfmRam S → FailingStore S → Prop}
    (writing : Writing g pageCount range base asked ram store image openPage)
    (isOpen : openPage = none ∨ openPage = some (addr / g.sectorPerMpp)) (inside : range addr)
    (inRange : addr / g.sectorPerMpp < pageCount) (small : pageCount * g.sectorPerMpp ≤ allOnes)
    (meets : ∀ ram', Writing g pageCount range base asked ram' store
      (Function.update image addr sector) (some (addr / g.sectorPerMpp)) →
      ram'.startingSector = ram.startingSector → post () ram' store) :
    Code.wp (failingMachine g pageCount faults) (fun _ => True) (putSector g addr sector) post ram
      store := by
  obtain ⟨buffer, collects⟩ := writing.collects
  refine collects.wp_putSector isOpen rfl inRange small trivial fun ram' collects' same _ =>
    meets ram' ?_ same.startingSector
  exact
    { collects := ⟨buffer, collects'⟩
      few := writing.few
      room := writing.room
      cache := same.readBufferStartSector.trans writing.cache
      covered := fun page isPage => ⟨addr, inside, Option.some.inj isPage⟩
      image := fun other outside => by
        have differs : other ≠ addr := fun same => outside (same ▸ inside)
        rw [Function.update_of_ne differs]
        exact writing.image other outside
      stored := writing.stored
      asked := writing.asked }

theorem Writing.setStarting {starting : Nat}
    (writing : Writing g pageCount range base asked ram store image openPage) :
    Writing g pageCount range base asked { ram with startingSector := starting } store image
      openPage := by
  obtain ⟨buffer, collects⟩ := writing.collects
  exact { writing with collects := ⟨buffer, collects.setOnfm rfl rfl rfl rfl rfl rfl rfl⟩ }

theorem Stopped.setStarting {page starting : Nat} (inRange : page < pageCount)
    (isStart : starting = page * g.sectorPerMpp)
    (stopped : Stopped g pageCount range base asked
      { ram with startingSector := invalidLsaddr } store) :
    Stopped g pageCount range base asked { ram with startingSector := starting } store := by
  obtain ⟨⟨⟨buffer, collects⟩, few, -, cache⟩, stored, asked⟩ := stopped
  exact ⟨⟨⟨buffer, collects.setOnfm rfl rfl rfl rfl rfl rfl rfl⟩, few,
    .inr ⟨page, inRange, isStart⟩, cache⟩, stored, asked⟩

/-- One sector of the range: it is collected, or the page before it fails. -/
theorem Writing.wp_onfmWriteSector {addr : Nat} {sector : S}
    {post : Int → OnfmRam S → FailingStore S → Prop} (reads : ∀ n, faults.read n = .success)
    (writing : Writing g pageCount range base asked ram store image openPage)
    (starts : StartsAt g ram.startingSector openPage addr) (follows : Follows g openPage addr)
    (inside : range addr) (inRange : addr / g.sectorPerMpp < pageCount)
    (small : pageCount * g.sectorPerMpp ≤ allOnes)
    (succeeds : ∀ ram' store', Writing g pageCount range base asked ram' store'
        (Function.update image addr sector) (some (addr / g.sectorPerMpp)) →
      ram'.startingSector = addr / g.sectorPerMpp * g.sectorPerMpp → post 0 ram' store')
    (fails : ∀ ram' store', Stopped g pageCount range base asked ram' store' →
      post (-1) ram' store') :
    Code.wp (failingMachine g pageCount faults) (fun _ => True)
      (onfmWriteSector g addr (some sector)) post ram store := by
  have proper : ∀ page < pageCount, page * g.sectorPerMpp ≠ invalidLsaddr := by
    intro page isPage
    have := page_end isPage small
    omega
  obtain ⟨lower, upper, -⟩ := page_bounds (rfl : addr / g.sectorPerMpp = _)
  have inPage : addr / g.sectorPerMpp * g.sectorPerMpp ≤ addr ∧
      addr < g.behindPage (addr / g.sectorPerMpp * g.sectorPerMpp) := by
    have pos := g.sectorPerMpp_pos
    rw [behindPage_eq inRange small, Nat.succ_mul]
    omega
  -- the sector is in the page that the variable names
  have joins : ram.startingSector = addr / g.sectorPerMpp * g.sectorPerMpp →
      openPage = none ∨ openPage = some (addr / g.sectorPerMpp) →
      Code.wp (failingMachine g pageCount faults) (fun _ => True)
        (onfmWriteSector g addr (some sector)) post ram store := by
    intro starting isOpen
    simp only [onfmWriteSector, Code.wp_bind, Code.wp_get, starting, proper _ inRange, if_false,
      inPage, and_self, decide_true]
    refine ⟨trivial, writing.wp_putSector isOpen inside inRange small fun ram' writing' same => ?_⟩
    exact ⟨trivial, trivial, succeeds ram' store writing' (same.trans starting)⟩
  rcases follows with rfl | rfl | ⟨before, rfl, atStart⟩
  · rcases starts with starting | ⟨-, starting⟩
    · simp only [onfmWriteSector, Code.wp_bind, Code.wp_get, starting, openStart, if_true,
        Code.wp_modify]
      refine ⟨trivial, trivial, writing.setStarting.wp_putSector (.inl rfl) inside inRange small
        fun ram' writing' same => ?_⟩
      exact ⟨trivial, trivial, succeeds ram' store writing' same⟩
    · exact joins starting (.inl rfl)
  · have starting : ram.startingSector = addr / g.sectorPerMpp * g.sectorPerMpp :=
      starts.elim id fun wrong => absurd wrong.1 (Option.some_ne_none _)
    exact joins starting (.inr rfl)
  · obtain ⟨buffer, collects⟩ := writing.collects
    have isBefore := collects.inRange before rfl
    have starting : ram.startingSector = before * g.sectorPerMpp :=
      starts.elim id fun wrong => absurd wrong.1 (Option.some_ne_none _)
    have isNext : addr = g.behindPage (before * g.sectorPerMpp) := by
      rw [behindPage_eq isBefore small, atStart]
    have outside : ¬ addr < g.behindPage (before * g.sectorPerMpp) := by
      rw [← isNext]
      exact Nat.lt_irrefl _
    simp only [onfmWriteSector, Code.wp_bind, Code.wp_get, starting]
    refine ⟨trivial, ?_⟩
    simp only [proper _ isBefore, if_false, outside, and_false, decide_false]
    rw [Code.wp_bind, Code.wp_assert]
    refine ⟨.inr (starting ▸ isNext), trivial, ?_⟩
    refine writing.wp_flush reads small (fun full => rfl) (fun ram' store' writing' same => ?_)
      fun status ram' store' failed stopped same => ?_
    · simp only [if_true, Code.wp_bind, Code.wp_modify]
      refine ⟨trivial, writing'.setStarting.wp_putSector (.inl rfl) inside inRange small
        fun ram₂ writing₂ same₂ => ?_⟩
      exact ⟨trivial, trivial, succeeds ram₂ store' writing₂ same₂⟩
    · simp only [failed, if_false, Code.wp_bind, Code.wp_pure]
      refine ⟨trivial, trivial, fails ram' store' ?_⟩
      exact stopped.setStarting isBefore (same.trans starting)

/-- The flush behind the last sector. -/
theorem Writing.wp_onfmWriteSector_flush {post : Int → OnfmRam S → FailingStore S → Prop}
    (reads : ∀ n, faults.read n = .success)
    (writing : Writing g pageCount range base asked ram store image openPage)
    (starts : ram.startingSector = openStart g openPage)
    (small : pageCount * g.sectorPerMpp ≤ allOnes)
    (succeeds : ∀ ram' store', Writing g pageCount range base asked ram' store' image none →
      ram'.startingSector = invalidLsaddr → post 0 ram' store')
    (fails : ∀ ram' store', Stopped g pageCount range base asked ram' store' →
      post (-1) ram' store') :
    Code.wp (failingMachine g pageCount faults) (fun _ => True)
      (onfmWriteSector g invalidLsaddr none) post ram store := by
  simp only [onfmWriteSector, Code.wp_bind, Code.wp_get, starts]
  refine ⟨trivial, ?_⟩
  cases openPage with
  | none =>
      simp only [openStart, if_true]
      exact ⟨trivial, succeeds ram store writing starts⟩
  | some page =>
      obtain ⟨buffer, collects⟩ := writing.collects
      have inRange := collects.inRange page rfl
      have proper : page * g.sectorPerMpp ≠ invalidLsaddr := by
        have := page_end inRange small
        omega
      simp only [openStart, proper, if_false]
      rw [Code.wp_bind, Code.wp_assert]
      refine ⟨.inl rfl, trivial, ?_⟩
      refine writing.wp_flush reads small (fun full => rfl) (fun ram' store' writing' same => ?_)
        fun status ram' store' failed stopped same => ?_
      · simp only [if_true, Code.wp_bind, Code.wp_modify, Code.wp_assert]
        exact ⟨trivial, trivial, trivial, trivial, trivial,
          succeeds _ store' writing'.setStarting rfl⟩
      · simp only [failed, if_false, Code.wp_bind, Code.wp_pure]
        refine ⟨trivial, trivial, fails ram' store' ?_⟩
        exact stopped.setStarting inRange (same.trans starts)

/-! ## Ranges -/

/-- The sectors of the range, up to the first page that fails. -/
theorem Writing.wp_onfmWriteSectors {addr start count : Nat} {data : Nat → S}
    {post : Int → OnfmRam S → FailingStore S → Prop} (reads : ∀ n, faults.read n = .success)
    (writing : Writing g pageCount range base asked ram store image openPage)
    (starts : ram.startingSector = openStart g openPage ∨
      0 < count ∧ StartsAt g ram.startingSector openPage (addr + start))
    (follows : Follows g openPage (addr + start))
    (inside : ∀ i < count, range (addr + start + i))
    (inRange : addr + start + count ≤ pageCount * g.sectorPerMpp)
    (small : pageCount * g.sectorPerMpp ≤ allOnes)
    (succeeds : ∀ ram' store' openPage', Writing g pageCount range base asked ram' store'
        (putSectors image (addr + start) count fun i => data (start + i)) openPage' →
      ram'.startingSector = openStart g openPage' → post 0 ram' store')
    (fails : ∀ ram' store', Stopped g pageCount range base asked ram' store' →
      post (-1) ram' store') :
    Code.wp (failingMachine g pageCount faults) (fun _ => True)
      (onfmWriteSectors g addr data (List.range' start count)) post ram store := by
  induction count generalizing start ram store image openPage with
  | zero =>
      have isStart := starts.elim id fun impossible => absurd impossible.1 (Nat.lt_irrefl 0)
      refine ⟨trivial, succeeds ram store openPage ?_ isStart⟩
      rw [putSectors_zero]
      exact writing
  | succ count ih =>
      have isPage : (addr + start) / g.sectorPerMpp < pageCount :=
        (Nat.div_lt_iff_lt_mul g.sectorPerMpp_pos).mpr (by omega)
      simp only [List.range'_succ, onfmWriteSectors, Code.wp_bind]
      refine writing.wp_onfmWriteSector reads (starts.elim .inl And.right) follows
        (inside 0 (Nat.succ_pos count)) isPage small (fun ram' store' writing' isStart => ?_)
        fun ram' store' stopped => ?_
      · rw [if_pos rfl]
        refine ih writing' (.inl isStart) (follows_succ g _) (fun i isSector => ?_) (by omega)
          fun ram₂ store₂ openPage₂ writing₂ isStart₂ => ?_
        · have same : addr + (start + 1) + i = addr + start + (i + 1) := by omega
          rw [same]
          exact inside (i + 1) (Nat.succ_lt_succ isSector)
        · refine succeeds ram₂ store₂ openPage₂ ?_ isStart₂
          rw [putSectors_succ]
          simpa only [Nat.add_zero, Nat.add_assoc, Nat.add_comm 1] using writing₂
      · exact ⟨trivial, fails ram' store' stopped⟩

/-! ## Calls -/

/-- The sectors of a call. -/
def InCall (addr count : Nat) (sector : Nat) : Prop := addr ≤ sector ∧ sector < addr + count

/-- What a call of `ONFM_Write` does.  Pages that the FTL was to write are pages of the range.
It returns -1 if one of them has failed; otherwise the range reads as written.  Sectors outside
of the range read as before. -/
structure WriteEffect (g : Geometry) (addr count : Nat) (data : Nat → S)
    (before after : FailingStore S) (ret : Int) : Prop where
  asked : ∃ new, after.asked = new ++ before.asked ∧
    (∀ entry ∈ new, ∃ sector, InCall addr count sector ∧ sector / g.sectorPerMpp = entry.1) ∧
    ((ret = 0 ∧ ∀ entry ∈ new, entry.2 = .success) ∨
      ret = -1 ∧ ∃ entry ∈ new, entry.2 ≠ .success)
  written : ret = 0 → ∀ i < count, after.image g (addr + i) = data i
  outside : ∀ sector, ¬ InCall addr count sector → after.image g sector = before.image g sector

/-- A write that is in order: it goes past the buffers; or a failed write has left nothing
behind; or it begins in the page that a failed write has left.  The buffers serve it as long as
no more than half of the pool has been lost. -/
def AcceptsWrite (g : Geometry) (ram : OnfmRam S) (store : FailingStore S) (addr count : Nat) :
    Prop :=
  (addr % g.sectorPerMpp = 0 ∧ count = g.sectorPerMpp) ∨
    (count = 0 ∧ ram.startingSector = invalidLsaddr) ∨
    (0 < count ∧ store.lost.length ≤ g.totalDieCount ∧
      (ram.startingSector = invalidLsaddr ∨
        ram.startingSector = addr / g.sectorPerMpp * g.sectorPerMpp))

/-- Whether a write is accepted can be computed. -/
instance (ram : OnfmRam S) (store : FailingStore S) (addr count : Nat) :
    Decidable (AcceptsWrite g ram store addr count) :=
  inferInstanceAs (Decidable (_ ∨ _ ∨ _))

/-- A sector of a page. -/
theorem FailingStore.image_page (page : Nat) {i : Nat} (inside : i < g.sectorPerMpp) :
    store.image g (page * g.sectorPerMpp + i) = store.pages page i := by
  have pos := g.sectorPerMpp_pos
  rw [FailingStore.image, Nat.add_comm, Nat.add_mul_div_right _ _ pos, Nat.div_eq_of_lt inside,
    Nat.zero_add, Nat.add_mul_mod_self_right, Nat.mod_eq_of_lt inside]

theorem putSectors_inside {addr count i : Nat} (image data : Nat → S) (inside : i < count) :
    putSectors image addr count data (addr + i) = data i := by
  rw [putSectors, if_pos (by omega), Nat.add_sub_cancel_left]

/-- A page of the host goes past the buffers. -/
theorem BetweenCalls.wp_direct {page : Nat} {data : Nat → S}
    {post : Int → OnfmRam S → FailingStore S → Prop} (between : BetweenCalls g pageCount ram store)
    (noCache : ram.readBufferStartSector = invalidLsaddr) (inRange : page < pageCount)
    (meets : ∀ ret ram' store', BetweenCalls g pageCount ram' store' →
      WriteEffect g (page * g.sectorPerMpp) g.sectorPerMpp data store store' ret →
      post ret ram' store') :
    Code.wp (failingMachine g pageCount faults) (fun _ => True) (do
      let status ← ftlWrite g page .host data
      pure (if status = .success then 0 else -1)) post ram store := by
  obtain ⟨⟨buffer, collects⟩, few, starting, -⟩ := between
  have pos := g.sectorPerMpp_pos
  have isRange : ∀ sector, InCall (page * g.sectorPerMpp) g.sectorPerMpp sector ↔
      sector / g.sectorPerMpp = page := by
    intro sector
    rw [Nat.div_eq_iff pos, InCall]
    omega
  rw [Code.wp_bind]
  refine wp_failingWrite [buffer] inRange collects.owns fun used owns => ⟨trivial, ?_⟩
  refine meets _ _ _ ⟨⟨buffer, ?_⟩, FailingStore.keeps_length_le _, starting, .inl noCache⟩ ?_
  · exact { collects with owns := owns, holds := fun sector => by simp [FailingStore.image] }
  · refine ⟨⟨[_], rfl, ?_, ?_⟩, ?_, ?_⟩
    · rintro entry inside
      rw [List.mem_singleton.mp inside]
      exact ⟨page * g.sectorPerMpp, (isRange _).mpr (Nat.mul_div_cancel _ pos),
        Nat.mul_div_cancel _ pos⟩
    · by_cases success : (faults.write store.calls).status = .success
      · exact .inl ⟨if_pos success, fun entry inside => by
          rw [List.mem_singleton.mp inside, success]⟩
      · exact .inr ⟨if_neg success, _, List.mem_singleton_self _, success⟩
    · intro succeeds i inside
      have success : (faults.write store.calls).status = .success := by
        by_contra failed
        rw [if_neg failed] at succeeds
        exact absurd succeeds (show ¬ (-1 : Int) = 0 by decide)
      have isPage : (page * g.sectorPerMpp + i) / g.sectorPerMpp = page :=
        (isRange _).mp ⟨Nat.le_add_right _ _, Nat.add_lt_add_left inside _⟩
      rw [FailingStore.image_write, if_pos ⟨((faults.write store.calls).done success).1, isPage⟩,
        Nat.add_comm, Nat.add_mul_mod_self_right, Nat.mod_eq_of_lt inside]
    · intro sector outside
      rw [FailingStore.image_write, if_neg fun both => outside ((isRange sector).mpr both.2)]

/-- A call of `ONFM_Write` that is in order. -/
theorem BetweenCalls.wp_onfmWrite {addr count : Nat} {data : Nat → S}
    {post : Int → OnfmRam S → FailingStore S → Prop} (reads : ∀ n, faults.read n = .success)
    (between : BetweenCalls g pageCount ram store)
    (accepts : AcceptsWrite g ram store addr count)
    (inRange : addr + count ≤ pageCount * g.sectorPerMpp)
    (small : pageCount * g.sectorPerMpp ≤ allOnes)
    (meets : ∀ ret ram' store', BetweenCalls g pageCount ram' store' →
      WriteEffect g addr count data store store' ret → post ret ram' store') :
    Code.wp (failingMachine g pageCount faults) (fun _ => True) (onfmWrite g addr count data) post
      ram store := by
  have pos := g.sectorPerMpp_pos
  obtain ⟨⟨buffer, collects⟩, few, starting, -⟩ := between
  have collects' : Collects g pageCount { ram with readBufferStartSector := invalidLsaddr }
      store.pages (store.image g) (store.held ++ store.lost) buffer none :=
    collects.setOnfm rfl rfl rfl rfl rfl rfl rfl
  have between' : BetweenCalls g pageCount { ram with readBufferStartSector := invalidLsaddr }
      store := ⟨⟨buffer, collects'⟩, few, starting, .inl rfl⟩
  simp only [onfmWrite, Code.wp_bind, Code.wp_modify]
  refine ⟨trivial, ?_⟩
  by_cases direct : addr % g.sectorPerMpp = 0 ∧ count = g.sectorPerMpp
  · obtain ⟨aligned, rfl⟩ := direct
    have isStart : addr / g.sectorPerMpp * g.sectorPerMpp = addr :=
      Nat.div_mul_cancel (Nat.dvd_of_mod_eq_zero aligned)
    have isPage : addr / g.sectorPerMpp < pageCount :=
      (Nat.div_lt_iff_lt_mul pos).mpr (by omega)
    simp only [aligned, true_and, if_true]
    refine between'.wp_direct rfl isPage fun ret ram' store' after effect => ?_
    exact meets ret ram' store' after (isStart ▸ effect)
  · simp only [direct, if_false, List.range_eq_range', Code.wp_bind]
    rcases accepts with direct' | ⟨rfl, noStart⟩ | ⟨some, room, starts⟩
    · exact absurd direct' direct
    · rw [noStart] at between'
      simp only [List.range'_zero, onfmWriteSectors, Code.wp_pure, if_true, onfmWriteSector,
        Code.wp_bind, Code.wp_get, noStart]
      refine ⟨trivial, trivial, trivial, trivial, meets 0 _ store between' ?_⟩
      exact ⟨⟨[], rfl, by simp, .inl ⟨rfl, by simp⟩⟩, fun _ i impossible =>
        absurd impossible (Nat.not_lt_zero i), fun _ _ => rfl⟩
    · have writing : Writing g pageCount (InCall addr count) (store.image g) store.asked
          { ram with readBufferStartSector := invalidLsaddr } store (store.image g) none :=
        { collects := ⟨buffer, collects'⟩
          few := few
          room := room
          cache := rfl
          covered := fun page impossible => absurd impossible.symm (Option.some_ne_none page)
          image := fun _ _ => rfl
          stored := fun _ _ => rfl
          asked := ⟨[], rfl, by simp⟩ }
      have stops : ∀ ram' store', Stopped g pageCount (InCall addr count) (store.image g)
          store.asked ram' store' → post (-1) ram' store' := by
        rintro ram' store' ⟨after, stored, new, isNew, covers, fails⟩
        exact meets (-1) ram' store' after ⟨⟨new, isNew, covers, .inr ⟨rfl, fails⟩⟩,
          fun impossible => absurd impossible (by decide), stored⟩
      refine writing.wp_onfmWriteSectors reads ?_ (.inl rfl) (fun i inside => ?_) inRange small
        (fun ram' store' openPage writing' isStart => ?_)
        fun ram' store' stopped => ⟨trivial, stops ram' store' stopped⟩
      · exact starts.elim .inl fun stale => .inr ⟨some, .inr ⟨rfl, stale⟩⟩
      · exact ⟨Nat.le_add_right _ _, Nat.add_lt_add_left inside _⟩
      · rw [if_pos rfl]
        refine writing'.wp_onfmWriteSector_flush reads isStart small
          (fun ram₂ store₂ writing₂ noStart => ?_) stops
        obtain ⟨⟨last, collects₂⟩, few₂, -, cache₂, -, -, stored₂, new, isNew, covers⟩ := writing₂
        have images : store₂.image g = putSectors (store.image g) addr count data := by
          funext sector
          have holds := collects₂.holds sector
          simp only [Nat.add_zero, Nat.zero_add, reduceCtorEq, false_and, if_false] at holds
          exact holds.symm
        have collected : Collects g pageCount ram₂ store₂.pages (store₂.image g)
            (store₂.held ++ store₂.lost) last none := by
          simpa only [Nat.add_zero, Nat.zero_add, images] using collects₂
        refine meets 0 ram₂ store₂ ⟨⟨last, collected⟩, few₂, .inl noStart, .inl cache₂⟩ ?_
        refine ⟨⟨new, isNew, fun entry inside => (covers entry inside).1,
          .inl ⟨rfl, fun entry inside => (covers entry inside).2⟩⟩, fun _ i inside => ?_, stored₂⟩
        rw [images, putSectors_inside _ _ inside]

/-! ## Reads -/

/-- Neither a page has changed nor was one to be written. -/
structure SamePages (store store' : FailingStore S) : Prop where
  pages : store'.pages = store.pages
  asked : store'.asked = store.asked

theorem SamePages.image_eq {store' : FailingStore S} (same : SamePages store store') :
    store'.image g = store.image g := by
  funext sector
  rw [FailingStore.image, same.pages, FailingStore.image]

theorem BetweenCalls.setCache {content : Nat → S} {start : Nat}
    (between : BetweenCalls g pageCount ram store)
    (fresh : CacheFresh g pageCount
      { ram with onfmReadBuffer := content, readBufferStartSector := start } (store.image g)) :
    BetweenCalls g pageCount { ram with onfmReadBuffer := content, readBufferStartSector := start }
      store := by
  obtain ⟨⟨buffer, collects⟩, few, starting, -⟩ := between
  exact ⟨⟨buffer, collects.setOnfm rfl rfl rfl rfl rfl rfl rfl⟩, few, starting, fresh⟩

theorem BetweenCalls.wp_ftlRead {page : Nat} {post : Status × (Nat → S) → OnfmRam S →
      FailingStore S → Prop} (reads : ∀ n, faults.read n = .success)
    (between : BetweenCalls g pageCount ram store) (inRange : page < pageCount)
    (meets : ∀ used, BetweenCalls g pageCount { ram with pbPoolUsed := used }
        (store.read g faults) →
      post (.success, store.pages page) { ram with pbPoolUsed := used } (store.read g faults)) :
    Code.wp (failingMachine g pageCount faults) (fun _ => True) (ftlRead g page) post ram
      store := by
  obtain ⟨⟨buffer, collects⟩, few, starting, cache⟩ := between
  refine wp_failingRead [buffer] inRange collects.owns fun used owns => ?_
  rw [FailingStore.readContent, reads, if_pos rfl]
  exact meets used ⟨⟨buffer, { collects with owns := owns }⟩, FailingStore.keeps_length_le _,
    starting, cache⟩

theorem BetweenCalls.wp_onfmReadSector {addr : Nat}
    {post : Int × Option S → OnfmRam S → FailingStore S → Prop}
    (reads : ∀ n, faults.read n = .success) (between : BetweenCalls g pageCount ram store)
    (inRange : addr / g.sectorPerMpp < pageCount) (small : pageCount * g.sectorPerMpp ≤ allOnes)
    (meets : ∀ ram' store', BetweenCalls g pageCount ram' store' → SamePages store store' →
      post (0, some (store.image g addr)) ram' store') :
    Code.wp (failingMachine g pageCount faults) (fun _ => True) (onfmReadSector g addr) post ram
      store := by
  have inStore : addr < pageCount * g.sectorPerMpp :=
    (Nat.div_lt_iff_lt_mul g.sectorPerMpp_pos).mp inRange
  simp only [onfmReadSector, Code.wp_bind, Code.wp_get]
  refine ⟨trivial, ?_⟩
  by_cases hit : ram.readBufferStartSector ≤ addr ∧
      addr < g.behindPage ram.readBufferStartSector
  · simp only [hit, and_self, if_true, Code.wp_bind, Code.wp_pure, Code.wp_get]
    have cached : ram.onfmReadBuffer (addr - ram.readBufferStartSector) = store.image g addr := by
      rcases between.cache with empty | ⟨page, isPage, start, content⟩
      · rw [empty] at hit
        exact absurd (inStore.trans_le small) hit.1.not_gt
      · rw [start, behindPage_eq isPage small, Nat.succ_mul] at hit
        rw [start, content _ (by omega), Nat.add_sub_of_le hit.1]
    rw [cached]
    exact ⟨trivial, trivial, trivial, meets ram store between ⟨rfl, rfl⟩⟩
  · obtain ⟨lower, -, offset⟩ := page_bounds (rfl : addr / g.sectorPerMpp = _)
    simp only [hit, if_false]
    rw [Code.wp_bind]
    refine between.wp_ftlRead reads inRange fun used between' => ?_
    simp only [if_true, Code.wp_bind, Code.wp_modify, Code.wp_pure, Code.wp_get, offset]
    refine ⟨trivial, trivial, trivial, trivial, trivial,
      meets _ _ (between'.setCache (.inr ⟨_, inRange, rfl, ?_⟩)) ⟨rfl, rfl⟩⟩
    exact fun i inside => (FailingStore.image_page _ inside).symm

theorem BetweenCalls.wp_onfmReadSectors {addr start count : Nat} {data : Nat → S}
    {post : Int × (Nat → S) → OnfmRam S → FailingStore S → Prop}
    (reads : ∀ n, faults.read n = .success) (between : BetweenCalls g pageCount ram store)
    (inRange : addr + start + count ≤ pageCount * g.sectorPerMpp)
    (small : pageCount * g.sectorPerMpp ≤ allOnes) (isImage : store.image g = image)
    (meets : ∀ ram' store', BetweenCalls g pageCount ram' store' → SamePages store store' →
      post (0, takeSectors image addr (start + count) data) ram' store') :
    Code.wp (failingMachine g pageCount faults) (fun _ => True)
      (onfmReadSectors g addr (List.range' start count) 0 (takeSectors image addr start data)) post
      ram store := by
  induction count generalizing start ram store with
  | zero => exact ⟨trivial, meets ram store between ⟨rfl, rfl⟩⟩
  | succ count ih =>
      have isPage : (addr + start) / g.sectorPerMpp < pageCount :=
        (Nat.div_lt_iff_lt_mul g.sectorPerMpp_pos).mpr (by omega)
      simp only [List.range'_succ, onfmReadSectors, if_true, Code.wp_bind]
      refine between.wp_onfmReadSector reads isPage small fun ram' store' between' same => ?_
      simp only [isImage, ← takeSectors_succ]
      refine ih between' (by omega) (same.image_eq.trans isImage)
        fun ram₂ store₂ between₂ same₂ => ?_
      have total : start + 1 + count = start + (count + 1) := by omega
      rw [total]
      exact meets ram₂ store₂ between₂
        ⟨same₂.pages.trans same.pages, same₂.asked.trans same.asked⟩

/-- A call of `ONFM_Read` reads the sectors as the store has them. -/
theorem BetweenCalls.wp_onfmRead {addr count : Nat} {data : Nat → S}
    {post : Int × (Nat → S) → OnfmRam S → FailingStore S → Prop}
    (reads : ∀ n, faults.read n = .success) (between : BetweenCalls g pageCount ram store)
    (inRange : addr + count ≤ pageCount * g.sectorPerMpp)
    (small : pageCount * g.sectorPerMpp ≤ allOnes)
    (meets : ∀ ram' store', BetweenCalls g pageCount ram' store' → SamePages store store' →
      post (0, takeSectors (store.image g) addr count data) ram' store') :
    Code.wp (failingMachine g pageCount faults) (fun _ => True) (onfmRead g addr count data) post
      ram store := by
  have pos := g.sectorPerMpp_pos
  by_cases direct : addr % g.sectorPerMpp = 0 ∧ count = g.sectorPerMpp
  · obtain ⟨aligned, rfl⟩ := direct
    have isPage : addr / g.sectorPerMpp < pageCount :=
      (Nat.div_lt_iff_lt_mul pos).mpr (by omega)
    have isStart : addr / g.sectorPerMpp * g.sectorPerMpp = addr :=
      Nat.div_mul_cancel (Nat.dvd_of_mod_eq_zero aligned)
    have filled : (fun i => if i < g.sectorPerMpp then store.pages (addr / g.sectorPerMpp) i
        else data i) = takeSectors (store.image g) addr g.sectorPerMpp data := by
      funext i
      unfold takeSectors
      split
      · rename_i inside
        have content : store.image g (addr / g.sectorPerMpp * g.sectorPerMpp + i) =
            store.pages (addr / g.sectorPerMpp) i := FailingStore.image_page _ inside
        rw [← content, isStart]
      · rfl
    simp only [onfmRead, aligned, true_and, if_true]
    rw [Code.wp_bind]
    simp only [Code.wp_bind]
    refine between.wp_ftlRead reads isPage fun used between' => ?_
    simp only [if_true, Code.wp_pure, Code.wp_assert, filled]
    exact ⟨trivial, trivial, trivial, trivial, meets _ _ between' ⟨rfl, rfl⟩⟩
  · simp only [onfmRead, direct, if_false, List.range_eq_range']
    rw [Code.wp_bind]
    have start : data = takeSectors (store.image g) addr 0 data :=
      (takeSectors_zero _ addr data).symm
    nth_rewrite 1 [start]
    refine between.wp_onfmReadSectors reads inRange small rfl fun ram' store' between' same => ?_
    rw [Nat.zero_add]
    simp only [Code.wp_bind, Code.wp_assert, Code.wp_pure]
    exact ⟨trivial, trivial, trivial, meets ram' store' between' same⟩

/-! ## Behind a failed write -/

/-- Without an open page there is nothing to hand out. -/
theorem run_getPage_closed (closed : ram.bufStartAddr = invalidLsaddr) :
    (Buf.getPage g).run ram = .halt .assertion := by
  rw [Buf.getPage, Code.run_get_bind]
  exact Code.run_bind_of_halt (Code.run_assert_of_not fun isOpen => isOpen closed)

/-- A page was left behind, and the sector is not in it. -/
theorem run_onfmWriteSector_left {addr : Nat} {sector : Option S}
    (closed : ram.bufStartAddr = invalidLsaddr) (left : ram.startingSector ≠ invalidLsaddr)
    (other : sector = none ∨
      ¬ (ram.startingSector ≤ addr ∧ addr < g.behindPage ram.startingSector)) :
    (onfmWriteSector g addr sector).run ram = .halt .assertion := by
  have flushes : ∀ {α : Type} {condition : Prop} [Decidable condition]
      {rest : Nat × Option Nat → Onfm S α},
      (do
        Code.assert condition
        let result ← Buf.getPage g
        rest result : Onfm S α).run ram = .halt .assertion := by
    intro α condition _ rest
    by_cases passes : condition
    · have passed : Code.assert condition = (pure () : Onfm S Unit) := if_pos passes
      rw [passed, pure_bind]
      exact Code.run_bind_of_halt (run_getPage_closed closed)
    · exact Code.run_bind_of_halt (Code.run_assert_of_not passes)
  rw [onfmWriteSector, Code.run_get_bind]
  dsimp only
  rw [if_neg left]
  cases sector with
  | none => exact flushes
  | some sector =>
      have outside := other.resolve_left (Option.some_ne_none sector)
      rw [decide_eq_false outside]
      exact flushes

/-- Through the buffers, no write is in order but one that begins in the page left behind. -/
theorem BetweenCalls.exec_poisoned {addr count : Nat} {data : Nat → S}
    (between : BetweenCalls g pageCount ram store) (left : ram.startingSector ≠ invalidLsaddr)
    (small : pageCount * g.sectorPerMpp ≤ allOnes)
    (buffered : ¬ (addr % g.sectorPerMpp = 0 ∧ count = g.sectorPerMpp))
    (other : 0 < count → ram.startingSector ≠ addr / g.sectorPerMpp * g.sectorPerMpp) :
    ((onfmWrite g addr count data).run ram).exec (failingMachine g pageCount faults) store =
      .error .assertion := by
  have closed : ram.bufStartAddr = invalidLsaddr := by
    obtain ⟨⟨buffer, collects⟩, -⟩ := between
    exact collects.start
  obtain ⟨page, isPage, start⟩ := between.starting.resolve_left left
  have stops : (onfmWrite g addr count data).run ram = .halt .assertion := by
    show ((if addr % g.sectorPerMpp = 0 ∧ count = g.sectorPerMpp then _ else _ : Onfm S Int)).run
      { ram with readBufferStartSector := invalidLsaddr } = _
    rw [if_neg buffered]
    cases count with
    | zero =>
        show (onfmWriteSector g invalidLsaddr none).run _ = _
        exact run_onfmWriteSector_left closed left (.inl rfl)
    | succ count =>
        rw [List.range_succ_eq_map]
        refine Code.run_bind_of_halt (Code.run_bind_of_halt
          (run_onfmWriteSector_left closed left (.inr ?_)))
        rintro ⟨lower, upper⟩
        refine other (Nat.succ_pos count) ?_
        dsimp only at lower upper
        rw [start, behindPage_eq isPage small] at upper
        rw [start] at lower ⊢
        exact congrArg (· * g.sectorPerMpp) (Nat.div_eq_of_lt_le lower upper).symm
  rw [stops]
  rfl

/-! ## Runs -/

/-- A mount. -/
theorem wp_mountFailing {post : Unit → OnfmRam S → FailingStore S → Prop}
    (starting : ram.startingSector = invalidLsaddr) (noHeld : store.held = [])
    (noLost : store.lost = [])
    (meets : ∀ ram', BetweenCalls g pageCount ram' store → post () ram' store) :
    Code.wp (failingMachine g pageCount faults) (fun _ => True) (onfmMount g) post ram store := by
  have few : ([] : List Nat).length < g.bufferCount := by
    unfold Geometry.bufferCount
    exact Nat.succ_pos _
  simp only [onfmMount, Buf.init, Code.wp_bind, Code.wp_modify]
  refine ⟨trivial, trivial, wp_allocate ⟨List.nodup_nil, by simp, ?_⟩ few trivial
    fun buffer owns => ?_⟩
  · intro other inPool
    simp [inPool]
  · refine ⟨trivial, meets _ ⟨⟨buffer, ?_⟩, ?_, .inl starting, .inl rfl⟩⟩
    · exact
        { write := rfl
          merge := rfl
          owns := by
            rw [noHeld, noLost]
            exact owns.congr rfl
          start := rfl
          stop := rfl
          inRange := fun page impossible => by simp at impossible
          idle := fun _ i inside => by simp [inside]
          holds := fun sector => by simp [FailingStore.image] }
    · rw [noHeld]
      exact Nat.zero_le _

/-- The states between the calls of a run: a mount, and then reads, and writes that are in
order. -/
inductive FailingRun (g : Geometry) (pageCount : Nat) (faults : FtlFaults S) :
    OnfmRam S → FailingStore S → Prop
  | mount {ram ram' : OnfmRam S} {store store' : FailingStore S}
      (starting : ram.startingSector = invalidLsaddr) (noHeld : store.held = [])
      (noLost : store.lost = [])
      (exec : ((onfmMount g).run ram).exec (failingMachine g pageCount faults) store =
        .ok (((), ram'), store')) : FailingRun g pageCount faults ram' store'
  | write {ram ram' : OnfmRam S} {store store' : FailingStore S} {addr count : Nat}
      {data : Nat → S} {ret : Int} (earlier : FailingRun g pageCount faults ram store)
      (accepts : AcceptsWrite g ram store addr count)
      (inRange : addr + count ≤ pageCount * g.sectorPerMpp)
      (exec : ((onfmWrite g addr count data).run ram).exec (failingMachine g pageCount faults)
        store = .ok ((ret, ram'), store')) : FailingRun g pageCount faults ram' store'
  | read {ram ram' : OnfmRam S} {store store' : FailingStore S} {addr count : Nat}
      {data : Nat → S} {answer : Int × (Nat → S)}
        (earlier : FailingRun g pageCount faults ram store)
      (inRange : addr + count ≤ pageCount * g.sectorPerMpp)
      (exec : ((onfmRead g addr count data).run ram).exec (failingMachine g pageCount faults)
        store = .ok ((answer, ram'), store')) : FailingRun g pageCount faults ram' store'

theorem FailingRun.between (reads : ∀ n, faults.read n = .success)
    (small : pageCount * g.sectorPerMpp ≤ allOnes) (run : FailingRun g pageCount faults ram store) :
    BetweenCalls g pageCount ram store := by
  induction run with
  | mount starting noHeld noLost exec =>
      have mounts : Code.wp (failingMachine g pageCount faults) (fun _ => True) (onfmMount g)
          (fun _ => BetweenCalls g pageCount) _ _ :=
        wp_mountFailing starting noHeld noLost fun _ after => after
      have after := Code.post_of_wp mounts exec
      exact after
  | @write _ _ _ _ addr count data _ earlier accepts inRange exec between =>
      have writes : Code.wp (failingMachine g pageCount faults) (fun _ => True)
          (onfmWrite g addr count data) (fun _ => BetweenCalls g pageCount) _ _ :=
        between.wp_onfmWrite reads accepts inRange small fun _ _ _ after _ => after
      have after := Code.post_of_wp writes exec
      exact after
  | @read _ _ _ _ addr count data _ earlier inRange exec between =>
      have readsRange : Code.wp (failingMachine g pageCount faults) (fun _ => True)
          (onfmRead g addr count data) (fun _ => BetweenCalls g pageCount) _ _ :=
        between.wp_onfmRead reads inRange small fun _ _ after _ => after
      have after := Code.post_of_wp readsRange exec
      exact after

/-- In every run whose writes are in order, while the FTL reads but may fail to write: the next
write that is in order meets no assertion, has the FTL write pages of its range only, and
returns -1 exactly if one of them failed; when it returns 0 its range reads as written, and no
other sector changes.  Reads answer with the sectors as they are.  A write through the buffers
that does not begin in the page left behind meets an assertion. -/
theorem failingRun_write (reads : ∀ n, faults.read n = .success)
    (small : pageCount * g.sectorPerMpp ≤ allOnes) (run : FailingRun g pageCount faults ram store) :
    (∀ addr count data, AcceptsWrite g ram store addr count →
      addr + count ≤ pageCount * g.sectorPerMpp →
      ∃ ret ram' store', ((onfmWrite g addr count data).run ram).exec
          (failingMachine g pageCount faults) store = .ok ((ret, ram'), store') ∧
        WriteEffect g addr count data store store' ret) ∧
      (∀ addr count data, addr + count ≤ pageCount * g.sectorPerMpp →
        ∃ ram' store', ((onfmRead g addr count data).run ram).exec
            (failingMachine g pageCount faults) store =
              .ok (((0, takeSectors (store.image g) addr count data), ram'), store') ∧
          SamePages store store') ∧
      ∀ addr count data, ram.startingSector ≠ invalidLsaddr →
        ¬ (addr % g.sectorPerMpp = 0 ∧ count = g.sectorPerMpp) →
        (0 < count → ram.startingSector ≠ addr / g.sectorPerMpp * g.sectorPerMpp) →
        ((onfmWrite g addr count data).run ram).exec (failingMachine g pageCount faults) store =
          .error .assertion := by
  have between := run.between reads small
  refine ⟨?_, ?_, fun addr count data left buffered other =>
    between.exec_poisoned left small buffered other⟩
  · intro addr count data accepts inRange
    have writes : Code.wp (failingMachine g pageCount faults) (fun _ => True)
        (onfmWrite g addr count data)
        (fun ret _ store' => WriteEffect g addr count data store store' ret) ram store :=
      between.wp_onfmWrite reads accepts inRange small fun _ _ _ _ effect => effect
    obtain ⟨⟨ret, ram'⟩, store', exec, effect⟩ := Prog.exec_of_wp writes
    exact ⟨ret, ram', store', exec, effect⟩
  · intro addr count data inRange
    have readsRange : Code.wp (failingMachine g pageCount faults) (fun _ => True)
        (onfmRead g addr count data) (fun answer _ store' =>
          answer = (0, takeSectors (store.image g) addr count data) ∧ SamePages store store') ram
        store := between.wp_onfmRead reads inRange small fun _ _ _ same => ⟨rfl, same⟩
    obtain ⟨⟨answer, ram'⟩, store', exec, rfl, same⟩ := Prog.exec_of_wp readsRange
    exact ⟨ram', store', exec, same⟩

/-! ## A write behind a failed one -/

/-- A write that fails: nothing is stored, and the buffer is lost. -/
def WriteOutcome.failure : WriteOutcome :=
  ⟨.failure, false, false, fun impossible => Status.noConfusion impossible⟩

/-- An FTL that fails in call 1. -/
def FtlFaults.oneWrite : FtlFaults Nat :=
  { FtlFaults.none with write := fun n => if n = 1 then .failure else .success }

/-- Behind a mount the write of sectors 0 and 1 fails.  It leaves the start of page 0, and one
buffer is lost; the write of two sectors of page 2 runs into an assertion. -/
theorem exec_failedWrite :
    ∃ (ram ram' : OnfmRam Nat) (store store' : FailingStore Nat),
      FailingRun simNand 4 .oneWrite ram store ∧ AcceptsWrite simNand ram store 0 2 ∧
        ((onfmWrite simNand 0 2 fun _ => 7).run ram).exec (failingMachine simNand 4 .oneWrite)
          store = .ok ((-1, ram'), store') ∧
        ram'.startingSector = 0 ∧ store'.lost.length = 1 ∧
        ((onfmWrite simNand 32 2 fun _ => 7).run ram').exec (failingMachine simNand 4 .oneWrite)
          store' = .error .assertion := by
  have run : Code.returns (((onfmMount simNand).run mountedOnfm).exec
      (failingMachine simNand 4 .oneWrite) numberedStore) (fun _ ram store =>
        decide (AcceptsWrite simNand ram store 0 2) &&
        Code.returns (((onfmWrite simNand 0 2 fun _ => 7).run ram).exec
          (failingMachine simNand 4 .oneWrite) store) fun ret ram' store' =>
        decide (ret = -1 ∧ ram'.startingSector = 0 ∧ store'.lost.length = 1) &&
        decide (Code.halted (((onfmWrite simNand 32 2 fun _ => 7).run ram').exec
          (failingMachine simNand 4 .oneWrite) store') = some .assertion)) = true := by
    set_option maxRecDepth 100000 in decide +kernel
  obtain ⟨_, ram, store, mount, test⟩ := Code.returns_iff.mp run
  obtain ⟨accepts, test⟩ := Bool.and_eq_true_iff.mp test
  obtain ⟨_, ram', store', write, test⟩ := Code.returns_iff.mp test
  obtain ⟨facts, stops⟩ := Bool.and_eq_true_iff.mp test
  obtain ⟨rfl, isStart, lost⟩ := of_decide_eq_true facts
  exact ⟨ram, ram', store, store', .mount rfl rfl rfl mount, of_decide_eq_true accepts, write,
    isStart, lost, Code.halted_eq_some.mp (of_decide_eq_true stops)⟩

/-- The page of the failed write is written again, and then other sectors. -/
theorem failingRun_write_again :
    ∃ (ram : OnfmRam Nat) (store : FailingStore Nat),
      ram.startingSector = 0 ∧ store.lost.length = 1 ∧
        ∃ ret ram' store', ((onfmWrite simNand 3 20 fun i => i).run ram).exec
            (failingMachine simNand 4 .oneWrite) store = .ok ((ret, ram'), store') ∧
          WriteEffect simNand 3 20 (fun i => i) store store' ret := by
  obtain ⟨before, ram, store, after, run, accepts, write, isStart, lost, -⟩ := exec_failedWrite
  have failed : FailingRun simNand 4 .oneWrite ram after :=
    .write run accepts (show 0 + 2 ≤ 4 * simNand.sectorPerMpp by decide) write
  refine ⟨ram, after, isStart, lost, (failingRun_write (fun _ => rfl)
    (show 4 * simNand.sectorPerMpp ≤ allOnes by decide) failed).1 3 20 (fun i => i) ?_
    (show 3 + 20 ≤ 4 * simNand.sectorPerMpp by decide)⟩
  exact .inr (.inr ⟨by decide, lost.trans_le (by decide), .inr isStart⟩)

/-- A write behind a failed one runs into an assertion. -/
theorem failedWrite_poisons :
    ∃ (ram ram' : OnfmRam Nat) (store store' : FailingStore Nat),
      FailingRun simNand 4 .oneWrite ram store ∧
        ((onfmWrite simNand 0 2 fun _ => 7).run ram).exec (failingMachine simNand 4 .oneWrite)
          store = .ok ((-1, ram'), store') ∧ FailingRun simNand 4 .oneWrite ram' store' ∧
        32 + 2 ≤ 4 * simNand.sectorPerMpp ∧
        ((onfmWrite simNand 32 2 fun _ => 7).run ram').exec (failingMachine simNand 4 .oneWrite)
          store' = .error .assertion ∧
        ¬ ∃ ret ram₂ store₂, ((onfmWrite simNand 32 2 fun _ => 7).run ram').exec
            (failingMachine simNand 4 .oneWrite) store' = .ok ((ret, ram₂), store₂) ∧
          WriteEffect simNand 32 2 (fun _ => 7) store' store₂ ret := by
  obtain ⟨ram, ram', store, store', run, accepts, write, -, -, stops⟩ := exec_failedWrite
  refine ⟨ram, ram', store, store', run, write,
    .write run accepts (show 0 + 2 ≤ 4 * simNand.sectorPerMpp by decide) write, by
      decide, stops, ?_⟩
  rintro ⟨ret, ram₂, store₂, returns, -⟩
  rw [stops] at returns
  cases returns

end FailedWrites

end OpenNfm
