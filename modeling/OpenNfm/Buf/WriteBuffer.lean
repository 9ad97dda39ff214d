import Mathlib.Data.List.Perm.Subperm
import OpenNfm.Buf.Buffers

/-!
# The write buffer over a page store

The pool marks as used exactly the buffers that have an owner.  `BufReady` adds
the collected sectors to the pages of the store; `image` is what the sectors
read when the collected ones count.
-/

namespace OpenNfm.Buf

open OpenNfm.Program

variable {g : Geometry} {S : Type}

/-! ## The pool -/

/-- The buffers marked as used are those of the list, each owned once. -/
structure PoolOwns (g : Geometry) (ram : OnfmRam S) (owned : List Nat) : Prop where
  nodup : owned.Nodup
  inPool : ∀ buffer ∈ owned, buffer < g.bufferCount
  used : ∀ buffer < g.bufferCount, ram.pbPoolUsed buffer = true ↔ buffer ∈ owned

theorem PoolOwns.perm {ram : OnfmRam S} {owned owned' : List Nat} (owns : PoolOwns g ram owned)
    (perm : owned'.Perm owned) : PoolOwns g ram owned' where
  nodup := perm.nodup_iff.mpr owns.nodup
  inPool buffer inside := owns.inPool buffer (perm.mem_iff.mp inside)
  used buffer inPool := (owns.used buffer inPool).trans perm.mem_iff.symm

theorem PoolOwns.congr {ram ram' : OnfmRam S} {owned : List Nat} (owns : PoolOwns g ram owned)
    (same : ram'.pbPoolUsed = ram.pbPoolUsed) : PoolOwns g ram' owned where
  nodup := owns.nodup
  inPool := owns.inPool
  used buffer inPool := same ▸ owns.used buffer inPool

theorem half_bufferCount (g : Geometry) :
    g.bufferCount = g.bufferCount / 2 + g.bufferCount / 2 := by
  unfold Geometry.bufferCount
  omega

theorem allocateFrom_some {used : Nat → Bool} {indices : List Nat} {buffer : Nat}
    (inside : ∀ i ∈ indices, i < g.bufferCount / 2)
    (found : allocateFrom g used indices = some buffer) :
    buffer < g.bufferCount ∧ used buffer = false := by
  induction indices with
  | nil => simp [allocateFrom] at found
  | cons i rest ih =>
      have half := half_bufferCount g
      have isIndex := inside i List.mem_cons_self
      simp only [allocateFrom] at found
      split at found
      · rename_i unused
        obtain rfl := Option.some.inj found
        exact ⟨by omega, unused⟩
      · split at found
        · rename_i unused
          obtain rfl := Option.some.inj found
          exact ⟨by omega, unused⟩
        · exact ih (fun other h => inside other (List.mem_cons_of_mem _ h)) found

theorem allocateFrom_none {used : Nat → Bool} {indices : List Nat}
    (failed : allocateFrom g used indices = none) :
    ∀ i ∈ indices, used i = true ∧ used (i + g.bufferCount / 2) = true := by
  induction indices with
  | nil => simp
  | cons i rest ih =>
      simp only [allocateFrom] at failed
      split at failed
      · simp at failed
      · rename_i first
        split at failed
        · simp at failed
        · rename_i second
          intro other inside
          rcases List.mem_cons.mp inside with rfl | inside
          · exact ⟨by simpa using first, by simpa using second⟩
          · exact ih failed other inside

/-- A pool with fewer owners than buffers has an unused buffer. -/
theorem PoolOwns.allocateFrom_ne_none {ram : OnfmRam S} {owned : List Nat}
    (owns : PoolOwns g ram owned) (few : owned.length < g.bufferCount) :
    allocateFrom g ram.pbPoolUsed (List.range (g.bufferCount / 2)) ≠ none := by
  intro failed
  have half := half_bufferCount g
  have full : List.range g.bufferCount ⊆ owned := by
    intro buffer inside
    have inPool := List.mem_range.mp inside
    rw [← owns.used buffer inPool]
    by_cases low : buffer < g.bufferCount / 2
    · exact (allocateFrom_none failed buffer (List.mem_range.mpr low)).1
    · have upper := (allocateFrom_none failed (buffer - g.bufferCount / 2)
        (List.mem_range.mpr (by omega))).2
      rwa [Nat.sub_add_cancel (Nat.le_of_not_lt low)] at upper
  have length := (List.nodup_range.subperm full).length_le
  rw [List.length_range] at length
  omega

/-! ### Functions of the pool

They do not depend on the FTL behind them. -/

section Specs

variable {E : Type} {machine : Machine (FtlOp S) (FtlAns S) E} {crash : E → Prop}
  {ram : OnfmRam S} {state : E} {owned : List Nat}

theorem wp_allocate {post : Option Nat → OnfmRam S → E → Prop}
    (owns : PoolOwns g ram owned) (few : owned.length < g.bufferCount) (safe : crash state)
    (meets : ∀ buffer,
      PoolOwns g { ram with pbPoolUsed := Function.update ram.pbPoolUsed buffer true }
        (buffer :: owned) →
      post (some buffer)
        { ram with pbPoolUsed := Function.update ram.pbPoolUsed buffer true } state) :
    Code.wp machine crash (allocate g) post ram state := by
  obtain ⟨buffer, found⟩ := Option.ne_none_iff_exists'.mp (owns.allocateFrom_ne_none few)
  obtain ⟨inPool, unused⟩ := allocateFrom_some (fun i h => List.mem_range.mp h) found
  have fresh : buffer ∉ owned := by
    rw [← owns.used buffer inPool, unused]
    exact Bool.false_ne_true
  simp only [allocate, Code.wp_bind, Code.wp_get, found, Code.wp_modify, Code.wp_pure]
  refine ⟨safe, safe, safe, meets buffer ⟨List.nodup_cons.mpr ⟨fresh, owns.nodup⟩, ?_, ?_⟩⟩
  · intro other inside
    rcases List.mem_cons.mp inside with rfl | inside
    · exact inPool
    · exact owns.inPool other inside
  · intro other otherInPool
    by_cases same : other = buffer
    · simp [same]
    · simp only [Function.update_of_ne same, List.mem_cons, same, false_or]
      exact owns.used other otherInPool

theorem wp_free {buffer : Nat} {post : Unit → OnfmRam S → E → Prop}
    (owns : PoolOwns g ram owned) (inside : buffer ∈ owned) (safe : crash state)
    (meets : PoolOwns g { ram with pbPoolUsed := Function.update ram.pbPoolUsed buffer false }
        (owned.erase buffer) →
      post () { ram with pbPoolUsed := Function.update ram.pbPoolUsed buffer false } state) :
    Code.wp machine crash (free g buffer) post ram state := by
  have inPool := owns.inPool buffer inside
  simp only [free, inPool, if_true, Code.wp_bind, Code.wp_get, Code.wp_assert, Code.wp_modify]
  refine ⟨safe, (owns.used buffer inPool).mpr inside, safe, safe, meets ⟨?_, ?_, ?_⟩⟩
  · exact owns.nodup.erase buffer
  · exact fun other remains => owns.inPool other (List.mem_of_mem_erase remains)
  · intro other otherInPool
    rw [owns.nodup.mem_erase_iff]
    by_cases same : other = buffer
    · simp [same]
    · simp only [Function.update_of_ne same, ne_eq, same, not_false_eq_true, true_and]
      exact owns.used other otherInPool

/-- Releasing a list of buffers changes nothing but their marks. -/
theorem wp_freeAll {released kept : List Nat}
    {post : PUnit → OnfmRam S → E → Prop}
    (owns : PoolOwns g ram (released ++ kept)) (safe : crash state)
    (meets : ∀ used, PoolOwns g { ram with pbPoolUsed := used } kept →
      post ⟨⟩ { ram with pbPoolUsed := used } state) :
    Code.wp machine crash (released.forM (free g)) post ram state := by
  induction released generalizing ram with
  | nil => exact ⟨safe, meets ram.pbPoolUsed owns⟩
  | cons buffer rest ih =>
      change Code.wp _ _ (free g buffer >>= fun _ => rest.forM (free g)) _ _ _
      rw [Code.wp_bind]
      refine wp_free owns List.mem_cons_self safe fun remains => ?_
      rw [List.cons_append, List.erase_cons_head] at remains
      exact ih remains meets

/-- A read of the FTL may hand back some of the buffers that it holds. -/
theorem wp_ftlRead (others : List Nat) {held kept released : List Nat} {page : Nat} {ret : Status}
    {content : Nat → S} {after : E} {post : Status × (Nat → S) → OnfmRam S → E → Prop}
    (owns : PoolOwns g ram (others ++ held)) (back : (released ++ kept).Perm held)
    (step : machine state (.read page) = .ok ((ret, content, released), after))
    (safe : crash state) (safeAfter : crash after)
    (meets : ∀ used, PoolOwns g { ram with pbPoolUsed := used } (others ++ kept) →
      post (ret, content) { ram with pbPoolUsed := used } after) :
    Code.wp machine crash (ftlRead g page) post ram state := by
  have perm : (released ++ (others ++ kept)).Perm (others ++ held) :=
    (List.perm_append_comm_assoc _ _ _).trans (back.append_left others)
  simp only [ftlRead, Code.wp_bind]
  rw [Code.wp_perform_of_step step]
  refine ⟨safe, safeAfter, wp_freeAll (owns.perm perm) safeAfter fun used owns' => ?_⟩
  exact ⟨safeAfter, meets used owns'⟩

end Specs

/-! ## Collecting the sectors of a page -/

/-- The page whose sectors are being collected, as a start address. -/
def openStart (g : Geometry) : Option Nat → Nat
  | some page => page * g.sectorPerMpp
  | none => invalidLsaddr

/-- The last sector of that page. -/
def openStop (g : Geometry) : Option Nat → Nat
  | some page => page * g.sectorPerMpp + (g.sectorPerMpp - 1)
  | none => invalidLsaddr

/-- The write buffer collects the sectors of the open page, over pages of which other buffers
of the pool are `owned`.  Each sector reads as `image`: as collected, or as it is in the
pages. -/
structure Collects (g : Geometry) (pageCount : Nat) (ram : OnfmRam S) (pages : Nat → Nat → S)
    (image : Nat → S) (owned : List Nat) (buffer : Nat) (openPage : Option Nat) : Prop where
  write : ram.writeBuffer = some buffer
  merge : ram.mergeBuffer = none
  owns : PoolOwns g ram (buffer :: owned)
  start : ram.bufStartAddr = openStart g openPage
  stop : ram.bufEndAddr = openStop g openPage
  inRange : ∀ page, openPage = some page → page < pageCount
  idle : openPage = none → ∀ i < g.sectorPerMpp, ram.sectorWritten i = false
  holds : ∀ sector, image sector =
    if openPage = some (sector / g.sectorPerMpp) ∧
        ram.sectorWritten (sector % g.sectorPerMpp) = true then
      ram.pbPool buffer (sector % g.sectorPerMpp)
    else pages (sector / g.sectorPerMpp) (sector % g.sectorPerMpp)

/-- The write buffer collects the sectors of the open page.  Each sector reads as
`image`: as collected, or as the store has it. -/
structure BufReady (g : Geometry) (pageCount : Nat) (ram : OnfmRam S) (store : PageStore S)
    (image : Nat → S) (buffer : Nat) (openPage : Option Nat) : Prop where
  write : ram.writeBuffer = some buffer
  merge : ram.mergeBuffer = none
  owns : PoolOwns g ram (buffer :: store.held)
  few : store.held.length ≤ g.totalDieCount
  start : ram.bufStartAddr = openStart g openPage
  stop : ram.bufEndAddr = openStop g openPage
  inRange : ∀ page, openPage = some page → page < pageCount
  idle : openPage = none → ∀ i < g.sectorPerMpp, ram.sectorWritten i = false
  holds : ∀ sector, image sector =
    if openPage = some (sector / g.sectorPerMpp) ∧
        ram.sectorWritten (sector % g.sectorPerMpp) = true then
      ram.pbPool buffer (sector % g.sectorPerMpp)
    else store.pages (sector / g.sectorPerMpp) (sector % g.sectorPerMpp)

theorem BufReady.collects {pageCount buffer : Nat} {ram : OnfmRam S} {store : PageStore S}
    {image : Nat → S} {openPage : Option Nat}
    (ready : BufReady g pageCount ram store image buffer openPage) :
    Collects g pageCount ram store.pages image store.held buffer openPage :=
  { ready with }

theorem Collects.bufReady {pageCount buffer : Nat} {ram : OnfmRam S} {store : PageStore S}
    {image : Nat → S} {openPage : Option Nat}
    (collects : Collects g pageCount ram store.pages image store.held buffer openPage)
    (few : store.held.length ≤ g.totalDieCount) :
    BufReady g pageCount ram store image buffer openPage :=
  { collects with few := few }

/-- The functions of the write buffer leave the static variables of `onfm.c`
alone. -/
structure SameOnfm (ram ram' : OnfmRam S) : Prop where
  onfmReadBuffer : ram'.onfmReadBuffer = ram.onfmReadBuffer
  readBufferStartSector : ram'.readBufferStartSector = ram.readBufferStartSector
  startingSector : ram'.startingSector = ram.startingSector

theorem few_owned {owned : List Nat} {count : Nat} (few : owned.length ≤ g.totalDieCount)
    (more : count ≤ 2) : owned.length + count ≤ g.bufferCount - 1 := by
  have pos := g.totalDieCount_pos
  unfold Geometry.bufferCount
  omega

/-- The start of a page and the page of an address. -/
theorem startOf_eq {addr page : Nat} (inPage : addr / g.sectorPerMpp = page) :
    startOf g addr = page * g.sectorPerMpp := by
  rw [startOf, inPage]

theorem page_bounds {addr page : Nat} (inPage : addr / g.sectorPerMpp = page) :
    page * g.sectorPerMpp ≤ addr ∧ addr ≤ page * g.sectorPerMpp + (g.sectorPerMpp - 1) ∧
      addr - page * g.sectorPerMpp = addr % g.sectorPerMpp := by
  have pos := g.sectorPerMpp_pos
  have split := Nat.div_add_mod addr g.sectorPerMpp
  have lt := Nat.mod_lt addr pos
  rw [inPage, Nat.mul_comm] at split
  omega

theorem page_end {page pageCount : Nat} (inRange : page < pageCount)
    (small : pageCount * g.sectorPerMpp ≤ allOnes) :
    page * g.sectorPerMpp + (g.sectorPerMpp - 1) < invalidLsaddr := by
  have pos := g.sectorPerMpp_pos
  have next : (page + 1) * g.sectorPerMpp ≤ pageCount * g.sectorPerMpp :=
    Nat.mul_le_mul_right _ inRange
  rw [Nat.succ_mul] at next
  unfold invalidLsaddr
  omega

theorem behindPage_eq {page pageCount : Nat} (inRange : page < pageCount)
    (small : pageCount * g.sectorPerMpp ≤ allOnes) :
    g.behindPage (page * g.sectorPerMpp) = (page + 1) * g.sectorPerMpp := by
  have last := page_end inRange small
  have pos := g.sectorPerMpp_pos
  unfold invalidLsaddr allOnes at last
  rw [Geometry.behindPage, Nat.succ_mul, Nat.mod_eq_of_lt (by omega)]

section Specs

variable {E : Type} {machine : Machine (FtlOp S) (FtlAns S) E} {crash : E → Prop} {state : E}
  {pageCount : Nat} {ram : OnfmRam S} {pages : Nat → Nat → S} {image : Nat → S} {owned : List Nat}
  {buffer : Nat} {openPage : Option Nat}

/-- The collecting does not depend on the variables of `onfm.c`. -/
theorem Collects.setOnfm {ram' : OnfmRam S}
    (collects : Collects g pageCount ram pages image owned buffer openPage)
    (pool : ram'.pbPool = ram.pbPool) (used : ram'.pbPoolUsed = ram.pbPoolUsed)
    (written : ram'.sectorWritten = ram.sectorWritten)
    (write : ram'.writeBuffer = ram.writeBuffer) (merge : ram'.mergeBuffer = ram.mergeBuffer)
    (start : ram'.bufStartAddr = ram.bufStartAddr) (stop : ram'.bufEndAddr = ram.bufEndAddr) :
    Collects g pageCount ram' pages image owned buffer openPage where
  write := write.trans collects.write
  merge := merge.trans collects.merge
  owns := collects.owns.congr used
  start := start.trans collects.start
  stop := stop.trans collects.stop
  inRange := collects.inRange
  idle isClosed := written ▸ collects.idle isClosed
  holds sector := by
    rw [written, pool]
    exact collects.holds sector

/-- Collecting one more sector. -/
theorem Collects.collect {page addr : Nat} (sector : S)
    (collects : Collects g pageCount ram pages image owned buffer openPage)
    (isOpen : openPage = none ∨ openPage = some page) (inPage : addr / g.sectorPerMpp = page)
    (inRange : page < pageCount) :
    Collects g pageCount
      { ram with
        bufStartAddr := page * g.sectorPerMpp
        bufEndAddr := page * g.sectorPerMpp + (g.sectorPerMpp - 1)
        pbPool := Function.update ram.pbPool buffer
          (Function.update (ram.pbPool buffer) (addr % g.sectorPerMpp) sector)
        sectorWritten := Function.update ram.sectorWritten (addr % g.sectorPerMpp) true }
      pages (Function.update image addr sector) owned buffer (some page) := by
  refine
    { write := collects.write
      merge := collects.merge
      owns := collects.owns.congr rfl
      start := rfl
      stop := rfl
      inRange := fun other same => Option.some.inj same ▸ inRange
      idle := fun impossible => by simp at impossible
      holds := fun other => ?_ }
  have pos := g.sectorPerMpp_pos
  have old := collects.holds other
  by_cases same : other = addr
  · subst same
    simp [inPage]
  · rw [Function.update_of_ne same]
    by_cases samePage : other / g.sectorPerMpp = page
    · have differ : other % g.sectorPerMpp ≠ addr % g.sectorPerMpp := by
        intro equal
        apply same
        rw [← Nat.div_add_mod other g.sectorPerMpp, ← Nat.div_add_mod addr g.sectorPerMpp,
          samePage, inPage, equal]
      simp only [samePage, true_and, Function.update_of_ne differ, Function.update_self]
      rw [samePage] at old
      rcases isOpen with idle | isOpen
      · have unwritten := collects.idle idle _ (Nat.mod_lt other pos)
        simp only [idle, reduceCtorEq, false_and, if_false] at old
        simp [unwritten, old]
      · simpa only [isOpen, true_and] using old
    · have closed : openPage ≠ some (other / g.sectorPerMpp) := by
        rcases isOpen with idle | isOpen
        · simp [idle]
        · rw [isOpen]
          exact fun equal => samePage (Option.some.inj equal).symm
      have closed' : some page ≠ some (other / g.sectorPerMpp) :=
        fun equal => samePage (Option.some.inj equal).symm
      simp only [closed, false_and, if_false] at old
      simp only [closed', false_and, if_false, old]

theorem Collects.wp_putSector {page addr : Nat} {sector : S}
    {post : Unit → OnfmRam S → E → Prop}
    (collects : Collects g pageCount ram pages image owned buffer openPage)
    (isOpen : openPage = none ∨ openPage = some page) (inPage : addr / g.sectorPerMpp = page)
    (inRange : page < pageCount) (small : pageCount * g.sectorPerMpp ≤ allOnes)
    (safe : crash state)
    (meets : ∀ ram', Collects g pageCount ram' pages (Function.update image addr sector) owned
        buffer (some page) → SameOnfm ram ram' →
      ram'.sectorWritten = Function.update ram.sectorWritten (addr % g.sectorPerMpp) true →
      post () ram' state) :
    Code.wp machine crash (putSector g addr sector) post ram state := by
  obtain ⟨lower, upper, offset⟩ := page_bounds inPage
  have proper := (page_end inRange small).ne
  have collected := collects.collect sector isOpen inPage inRange
  simp only [putSector, Code.wp_bind, Code.wp_get, collects.write]
  refine ⟨safe, ?_⟩
  rcases isOpen with idle | isOpen
  · have stop : ram.bufEndAddr = invalidLsaddr := by
      rw [collects.stop, idle]
      rfl
    simp only [stop, if_true, Code.wp_bind, Code.wp_modify, Code.wp_get, Code.wp_assert,
      startOf_eq inPage, offset]
    exact ⟨safe, safe, ⟨lower, upper⟩, safe, safe, meets _ collected ⟨rfl, rfl, rfl⟩ rfl⟩
  · have stop : ram.bufEndAddr = page * g.sectorPerMpp + (g.sectorPerMpp - 1) := by
      rw [collects.stop, isOpen]
      rfl
    have start : ram.bufStartAddr = page * g.sectorPerMpp := by
      rw [collects.start, isOpen]
      rfl
    simp only [stop, proper, if_false, Code.wp_bind, Code.wp_modify, Code.wp_get,
      Code.wp_assert, start, offset]
    exact ⟨safe, ⟨lower, upper⟩, safe, safe, meets _ collected ⟨rfl, rfl, rfl⟩ rfl⟩

/-! ## Handing out the page -/

/-- The buffer `full` holds this page, and another buffer is ready for the sectors that
follow. -/
structure HandedOut (g : Geometry) (ram : OnfmRam S) (content : Nat → S) (owned : List Nat)
    (full : Nat) : Prop where
  content : ∀ i < g.sectorPerMpp, ram.pbPool full i = content i
  start : ram.bufStartAddr = invalidLsaddr
  stop : ram.bufEndAddr = invalidLsaddr
  idle : ∀ i < g.sectorPerMpp, ram.sectorWritten i = false
  merge : ram.mergeBuffer = none
  next : ∃ next, ram.writeBuffer = some next ∧ PoolOwns g ram (next :: full :: owned)

/-- A sector of the open page. -/
theorem Collects.image_eq {page i : Nat}
    (collects : Collects g pageCount ram pages image owned buffer (some page))
    (inside : i < g.sectorPerMpp) :
    image (page * g.sectorPerMpp + i) =
      if ram.sectorWritten i = true then ram.pbPool buffer i else pages page i := by
  have pos := g.sectorPerMpp_pos
  have isPage : (page * g.sectorPerMpp + i) / g.sectorPerMpp = page := by
    rw [Nat.add_comm, Nat.add_mul_div_right _ _ pos, Nat.div_eq_of_lt inside, Nat.zero_add]
  have isOffset : (page * g.sectorPerMpp + i) % g.sectorPerMpp = i := by
    rw [Nat.add_comm, Nat.add_mul_mod_self_right, Nat.mod_eq_of_lt inside]
  rw [collects.holds, isPage, isOffset]
  simp only [true_and]

/-- What is in the buffer that the sectors were merged in: if the read of the old page failed,
it is what the read has left there. -/
def mergedPage (g : Geometry) (written : Nat → Bool) (ret : Status) (new old : Nat → S) :
    Nat → S :=
  if ret = .success then merged g written new old else old

theorem Collects.wp_mergePage {page : Nat} {kept released : List Nat} {ret : Status}
    {old : Nat → S} {after : E} {post : Option Nat → OnfmRam S → E → Prop}
    (collects : Collects g pageCount ram pages image owned buffer openPage)
    (few : owned.length + 1 < g.bufferCount) (back : (released ++ kept).Perm owned)
    (step : machine state (.read page) = .ok ((ret, old, released), after))
    (safe : crash state) (safeAfter : crash after)
    (meets : ∀ ram' full,
      ram'.pbPool full = mergedPage g ram.sectorWritten ret (ram.pbPool buffer) old →
      PoolOwns g ram' (full :: kept) → ram'.writeBuffer = none → ram'.mergeBuffer = none →
      SameOnfm ram ram' → post (some full) ram' after) :
    Code.wp machine crash (mergePage g page) post ram state := by
  simp only [mergePage, Code.wp_bind, Code.wp_get, Code.wp_assert]
  refine ⟨safe, collects.merge, safe, wp_allocate collects.owns few safe fun full owns => ?_⟩
  have apart : buffer ≠ full := by
    have distinct := (List.nodup_cons.mp owns.nodup).1
    rintro rfl
    exact distinct List.mem_cons_self
  simp only [collects.write]
  rw [Code.wp_bind]
  refine wp_ftlRead [full, buffer] (owns.congr rfl) back step safe safeAfter fun used owns' => ?_
  have rest : ([full, buffer] ++ kept).erase buffer = full :: kept := by
    rw [List.cons_append, List.erase_cons_tail (by simpa using apart.symm), List.singleton_append,
      List.erase_cons_head]
  by_cases success : ret = .success
  · simp only [success, if_true, Code.wp_bind, Code.wp_modify]
    refine ⟨safeAfter, safeAfter, wp_free (owns'.congr rfl)
      (List.mem_cons_of_mem _ List.mem_cons_self) safeAfter fun remains => ?_⟩
    rw [rest] at remains
    refine ⟨safeAfter, safeAfter, meets _ full ?_ (remains.congr rfl) rfl rfl ⟨rfl, rfl, rfl⟩⟩
    simp only [Function.update_self, Function.update_of_ne apart, mergedPage, success, if_true]
  · simp only [success, if_false, Code.wp_bind, Code.wp_modify]
    refine ⟨safeAfter, wp_free (owns'.congr rfl)
      (List.mem_cons_of_mem _ List.mem_cons_self) safeAfter fun remains => ?_⟩
    rw [rest] at remains
    refine ⟨safeAfter, safeAfter, meets _ full ?_ (remains.congr rfl) rfl rfl ⟨rfl, rfl, rfl⟩⟩
    simp only [Function.update_self, mergedPage, success, if_false]

/-- All sectors of the page were put. -/
def AllWritten (g : Geometry) (ram : OnfmRam S) : Prop :=
  ∀ i < g.sectorPerMpp, ram.sectorWritten i = true

theorem needMerge_iff : (List.range g.sectorPerMpp).any (fun i => !ram.sectorWritten i) = true ↔
    ¬ AllWritten g ram := by
  simp only [AllWritten, List.any_eq_true, List.mem_range, Bool.not_eq_true', not_forall,
    Bool.not_eq_true, exists_prop]

/-- The end of `BUF_GetPage`, once the page is in a buffer. -/
def getPageEnd (g : Geometry) (pageAddr : Nat) (buffer : Option Nat) :
    Onfm S (Nat × Option Nat) := do
  modify fun ram =>
    { ram with
      bufStartAddr := invalidLsaddr
      bufEndAddr := invalidLsaddr
      sectorWritten := fun i => if i < g.sectorPerMpp then false else ram.sectorWritten i }
  let ram ← get
  if ram.writeBuffer = none then do
    let next ← allocate g
    modify fun ram => { ram with writeBuffer := next }
  pure (pageAddr, buffer)

theorem wp_getPageEnd {page full : Nat} {content : Nat → S} {owned : List Nat}
    {post : Nat × Option Nat → OnfmRam S → E → Prop} (few : owned.length + 1 < g.bufferCount)
    (holds : ∀ i < g.sectorPerMpp, ram.pbPool full i = content i)
    (owns : PoolOwns g ram (full :: owned)) (noWrite : ram.writeBuffer = none)
    (noMerge : ram.mergeBuffer = none) (safe : crash state)
    (meets : ∀ ram', HandedOut g ram' content owned full → SameOnfm ram ram' →
      post (page, some full) ram' state) :
    Code.wp machine crash (getPageEnd g page (some full)) post ram state := by
  simp only [getPageEnd, Code.wp_bind, Code.wp_modify, Code.wp_get, noWrite, if_true]
  refine ⟨safe, safe, wp_allocate (owns.congr rfl) few safe fun next owns' => ?_⟩
  simp only [Code.wp_pure]
  refine ⟨safe, safe, meets _ ?_ ⟨rfl, rfl, rfl⟩⟩
  exact
    { content := holds
      start := rfl
      stop := rfl
      idle := fun i inside => by simp [inside]
      merge := noMerge
      next := ⟨next, rfl, owns'.congr rfl⟩ }

theorem getPage_eq : (getPage g : Onfm S (Nat × Option Nat)) = (do
    let ram ← get
    Code.assert (ram.bufStartAddr ≠ invalidLsaddr)
    let buffer ←
      if (List.range g.sectorPerMpp).any fun i => !ram.sectorWritten i then
        mergePage g (ram.bufStartAddr / g.sectorPerMpp)
      else do
        modify fun ram => { ram with writeBuffer := none }
        pure ram.writeBuffer
    getPageEnd g (ram.bufStartAddr / g.sectorPerMpp) buffer) :=
  rfl

/-- What `BUF_GetPage` needs of the read of the old page, if it is read at all. -/
theorem Collects.wp_getPage {page : Nat} {kept released : List Nat} {ret : Status}
    {old : Nat → S} {after : E} {post : Nat × Option Nat → OnfmRam S → E → Prop}
    (collects : Collects g pageCount ram pages image owned buffer (some page))
    (few : owned.length + 1 < g.bufferCount) (back : (released ++ kept).Perm owned)
    (small : pageCount * g.sectorPerMpp ≤ allOnes)
    (step : ¬ AllWritten g ram → machine state (.read page) = .ok ((ret, old, released), after))
    (safe : crash state) (safeAfter : crash after)
    (full : AllWritten g ram → ∀ ram' full, HandedOut g ram' (ram.pbPool buffer) owned full →
      SameOnfm ram ram' → post (page, some full) ram' state)
    (merged : ¬ AllWritten g ram → ∀ ram' full,
      HandedOut g ram' (mergedPage g ram.sectorWritten ret (ram.pbPool buffer) old) kept full →
      SameOnfm ram ram' → post (page, some full) ram' after) :
    Code.wp machine crash (getPage g) post ram state := by
  have pos := g.sectorPerMpp_pos
  have start : ram.bufStartAddr = page * g.sectorPerMpp := collects.start
  have proper : page * g.sectorPerMpp ≠ invalidLsaddr := by
    have := page_end (collects.inRange page rfl) small
    omega
  have isPage : page * g.sectorPerMpp / g.sectorPerMpp = page := Nat.mul_div_cancel _ pos
  rw [getPage_eq]
  simp only [Code.wp_bind, Code.wp_get, start, isPage, Code.wp_assert]
  refine ⟨safe, proper, safe, ?_⟩
  by_cases written : AllWritten g ram
  · rw [if_neg (fun need => needMerge_iff.mp need written), Code.wp_bind, Code.wp_modify,
      collects.write]
    refine ⟨safe, wp_getPageEnd few (fun _ _ => rfl) (collects.owns.congr rfl) rfl collects.merge
      safe fun ram' out same => ?_⟩
    exact full written ram' buffer out
      ⟨same.onfmReadBuffer, same.readBufferStartSector, same.startingSector⟩
  · have keptLength : kept.length ≤ owned.length := by
      rw [← back.length_eq, List.length_append]
      exact Nat.le_add_left _ _
    rw [if_pos (needMerge_iff.mpr written), Code.wp_bind]
    refine collects.wp_mergePage few back (step written) safe safeAfter
      fun ram₁ full content owns noWrite noMerge same => ?_
    refine wp_getPageEnd (by omega) (fun i _ => congrFun content i) owns noWrite noMerge safeAfter
      fun ram' out same' => ?_
    exact merged written ram' full out ⟨same'.onfmReadBuffer.trans same.onfmReadBuffer,
      same'.readBufferStartSector.trans same.readBufferStartSector,
      same'.startingSector.trans same.startingSector⟩

end Specs

/-! ## Over a store that succeeds -/

section Store

variable {pageCount : Nat} {crash : PageStore S → Prop} {ram : OnfmRam S} {store : PageStore S}
  {image : Nat → S} {buffer : Nat} {openPage : Option Nat}

/-- The store hands no buffer back when it is read. -/
theorem wp_storeRead {page : Nat} {post : Status × (Nat → S) → OnfmRam S → PageStore S → Prop}
    (inRange : page < pageCount) :
    Code.wp (storeMachine g pageCount) crash (ftlRead g page) post ram store ↔
      crash store ∧ post (.success, store.pages page) ram store := by
  simp only [ftlRead, Code.wp_bind]
  rw [wp_pageRead inRange]
  change crash store ∧ crash store ∧ crash store ∧ post (.success, store.pages page) ram store ↔ _
  rw [← and_assoc, and_self, ← and_assoc, and_self]

theorem wp_putSector {page addr : Nat} {sector : S}
    {post : Unit → OnfmRam S → PageStore S → Prop}
    (ready : BufReady g pageCount ram store image buffer openPage)
    (isOpen : openPage = none ∨ openPage = some page) (inPage : addr / g.sectorPerMpp = page)
    (inRange : page < pageCount) (small : pageCount * g.sectorPerMpp ≤ allOnes)
    (safe : crash store)
    (meets : ∀ ram', BufReady g pageCount ram' store (Function.update image addr sector) buffer
        (some page) → SameOnfm ram ram' → post () ram' store) :
    Code.wp (storeMachine g pageCount) crash (putSector g addr sector) post ram store :=
  ready.collects.wp_putSector isOpen inPage inRange small safe
    fun ram' collects same _ => meets ram' (collects.bufReady ready.few) same

/-- The buffer `full` holds the page as its sectors read, and another buffer is
ready for the sectors that follow. -/
abbrev PageOut (g : Geometry) (ram : OnfmRam S) (store : PageStore S) (image : Nat → S)
    (page full : Nat) : Prop :=
  HandedOut g ram (fun i => image (page * g.sectorPerMpp + i)) store.held full

theorem wp_getPage {page : Nat} {post : Nat × Option Nat → OnfmRam S → PageStore S → Prop}
    (ready : BufReady g pageCount ram store image buffer (some page))
    (small : pageCount * g.sectorPerMpp ≤ allOnes) (safe : crash store)
    (meets : ∀ ram' full, PageOut g ram' store image page full → SameOnfm ram ram' →
      post (page, some full) ram' store) :
    Code.wp (storeMachine g pageCount) crash (getPage g) post ram store := by
  have few := few_owned ready.few (show 2 ≤ 2 from le_rfl)
  have collects := ready.collects
  have step : storeMachine g pageCount store (.read page) =
      .ok ((.success, store.pages page, []), store) := if_pos (ready.inRange page rfl)
  have outOf : ∀ {ram' : OnfmRam S} {content : Nat → S} {full : Nat},
      HandedOut g ram' content store.held full →
      (∀ i < g.sectorPerMpp, content i = image (page * g.sectorPerMpp + i)) →
      PageOut g ram' store image page full := fun out same =>
    { out with content := fun i inside => (out.content i inside).trans (same i inside) }
  refine collects.wp_getPage (by omega) (List.Perm.refl _) small (fun _ => step) safe safe
    (fun written ram' full out same => ?_) (fun _ ram' full out same => ?_)
  · refine meets ram' full (outOf out fun i inside => ?_) same
    rw [collects.image_eq inside, if_pos (written i inside)]
  · refine meets ram' full (outOf out fun i inside => ?_) same
    rw [collects.image_eq inside, mergedPage, if_pos rfl, merged]
    simp only [inside, decide_true, Bool.and_true]

end Store

end OpenNfm.Buf
