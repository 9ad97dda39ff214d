import Mathlib.Algebra.Ring.Nat
import OpenNfm.Onfm.Sectors

/-!
# The sector layer as a flat array of sectors

What a sector reads is the data of the last write that covers it.  `sectorArray`
says so in terms of the history alone.  Every session of reads and writes over a
correct page store answers accordingly, whether a range goes through the buffers
or past them, and leaves the store and the read cache up to date.
-/

namespace OpenNfm

open OpenNfm.Program OpenNfm.Buf

variable {g : Geometry} {S : Type}

/-! ## Calls and histories -/

/-- The calls of a session.  A read gets the memory it fills. -/
inductive OnfmCall (S : Type) where
  | write (sectorAddr sectorCount : Nat) (sectorData : Nat → S)
  | read (sectorAddr sectorCount : Nat) (sectorData : Nat → S)

/-- What a call answers: its result, and for a read the memory of the caller. -/
inductive OnfmAnswer (S : Type) where
  | written (ret : Int)
  | filled (ret : Int) (sectorData : Nat → S)

/-- An array of sectors with a range of it replaced. -/
def putSectors (image : Nat → S) (addr count : Nat) (data : Nat → S) : Nat → S :=
  fun sector => if addr ≤ sector ∧ sector < addr + count then data (sector - addr)
    else image sector

/-- Memory with its first sectors read from an array. -/
def takeSectors (image : Nat → S) (addr count : Nat) (data : Nat → S) : Nat → S :=
  fun i => if i < count then image (addr + i) else data i

/-- What the last write that covers each sector has written.  The newest call
comes first. -/
def sectorArray [Zero S] : List (OnfmCall S) → Nat → S
  | [] => fun _ => 0
  | .write addr count data :: earlier => putSectors (sectorArray earlier) addr count data
  | .read _ _ _ :: earlier => sectorArray earlier

/-- The range of the call is inside the capacity. -/
def OnfmCall.Fits (capacity : Nat) : OnfmCall S → Prop
  | .write addr count _ => addr + count ≤ capacity
  | .read addr count _ => addr + count ≤ capacity

/-- The answer of a flat array. -/
def OnfmCall.answer [Zero S] (earlier : List (OnfmCall S)) : OnfmCall S → OnfmAnswer S
  | .write _ _ _ => .written 0
  | .read addr count data => .filled 0 (takeSectors (sectorArray earlier) addr count data)

/-- The answers of an array of sectors to a list of calls behind earlier ones. -/
def onfmAnswers [Zero S] : List (OnfmCall S) → List (OnfmCall S) → List (OnfmAnswer S)
  | _, [] => []
  | earlier, call :: rest => call.answer earlier :: onfmAnswers (call :: earlier) rest

/-- One more call at the end. -/
theorem onfmAnswers_concat [Zero S] (earlier calls : List (OnfmCall S)) (call : OnfmCall S) :
    onfmAnswers earlier (calls ++ [call]) =
      onfmAnswers earlier calls ++ [call.answer (calls.reverse ++ earlier)] := by
  induction calls generalizing earlier with
  | nil => rfl
  | cons first rest ih =>
      rw [List.cons_append, onfmAnswers, ih, onfmAnswers, List.cons_append, List.reverse_cons,
        List.append_assoc, List.singleton_append]

section Session

variable (g)

/-- A call, as the code answers it. -/
def onfmCall : OnfmCall S → Onfm S (OnfmAnswer S)
  | .write addr count data => do
      let ret ← onfmWrite g addr count data
      pure (.written ret)
  | .read addr count data => do
      let (ret, data) ← onfmRead g addr count data
      pure (.filled ret data)

/-- A list of calls, as the code answers them. -/
def onfmCalls : List (OnfmCall S) → Onfm S (List (OnfmAnswer S))
  | [] => pure []
  | call :: rest => do
      let answer ← onfmCall g call
      let answers ← onfmCalls rest
      pure (answer :: answers)

/-- Mount, and then the calls. -/
def onfmSession (calls : List (OnfmCall S)) : Onfm S (List (OnfmAnswer S)) := do
  onfmMount g
  onfmCalls g calls

end Session

/-! ## Ranges of sectors -/

theorem putSectors_zero (image : Nat → S) (addr : Nat) (data : Nat → S) :
    putSectors image addr 0 data = image := by
  funext sector
  exact if_neg (by omega)

/-- A range is its first sector and the range behind it. -/
theorem putSectors_succ (image : Nat → S) (addr count : Nat) (data : Nat → S) :
    putSectors image addr (count + 1) data =
      putSectors (Function.update image addr (data 0)) (addr + 1) count
        (fun i => data (i + 1)) := by
  funext sector
  unfold putSectors
  by_cases first : sector = addr
  · have before : ¬ (addr + 1 ≤ addr ∧ addr < addr + 1 + count) := by omega
    have inside : addr ≤ addr ∧ addr < addr + (count + 1) := by omega
    rw [first, if_pos inside, if_neg before, Function.update_self, Nat.sub_self]
  · rw [Function.update_of_ne first]
    by_cases inside : addr + 1 ≤ sector ∧ sector < addr + 1 + count
    · have same : sector - (addr + 1) + 1 = sector - addr := by omega
      rw [if_pos inside, if_pos (by omega)]
      exact congrArg data same.symm
    · rw [if_neg inside, if_neg (by omega)]

theorem takeSectors_zero (image : Nat → S) (addr : Nat) (data : Nat → S) :
    takeSectors image addr 0 data = data := by
  funext i
  exact if_neg (Nat.not_lt_zero i)

/-- A range is the range before its last sector and that sector. -/
theorem takeSectors_succ (image : Nat → S) (addr count : Nat) (data : Nat → S) :
    takeSectors image addr (count + 1) data =
      Function.update (takeSectors image addr count data) count (image (addr + count)) := by
  funext i
  unfold takeSectors
  by_cases last : i = count
  · rw [last, Function.update_self, if_pos (Nat.lt_succ_self count)]
  · rw [Function.update_of_ne last]
    by_cases inside : i < count
    · rw [if_pos inside, if_pos (by omega)]
    · rw [if_neg inside, if_neg (by omega)]

section Specs

variable {pageCount : Nat} {ram : OnfmRam S} {store : PageStore S} {image : Nat → S}
  {openPage : Option Nat}

theorem wp_onfmWriteSectors {addr start count : Nat} {data : Nat → S}
    {post : Int → OnfmRam S → PageStore S → Prop}
    (ready : WriteReady g pageCount ram store image openPage)
    (follows : Follows g openPage (addr + start))
    (inRange : addr + start + count ≤ pageCount * g.sectorPerMpp)
    (small : pageCount * g.sectorPerMpp ≤ allOnes)
    (meets : ∀ ram' store' openPage', WriteReady g pageCount ram' store'
        (putSectors image (addr + start) count fun i => data (start + i)) openPage' →
      ram'.readBufferStartSector = ram.readBufferStartSector → post 0 ram' store') :
    Code.wp (storeMachine g pageCount) (fun _ => True)
      (onfmWriteSectors g addr data (List.range' start count)) post ram store := by
  induction count generalizing start image ram store openPage with
  | zero =>
      refine ⟨trivial, meets ram store openPage ?_ rfl⟩
      rw [putSectors_zero]
      exact ready
  | succ count ih =>
      have isPage : (addr + start) / g.sectorPerMpp < pageCount :=
        (Nat.div_lt_iff_lt_mul g.sectorPerMpp_pos).mpr (by omega)
      simp only [List.range'_succ, onfmWriteSectors, Code.wp_bind]
      refine wp_onfmWriteSector ready follows isPage small fun ram' store' ready' same => ?_
      rw [if_pos rfl]
      refine ih ready' (follows_succ g _) (by omega) fun ram₂ store₂ openPage₂ ready₂ same₂ => ?_
      refine meets ram₂ store₂ openPage₂ ?_ (same₂.trans same)
      rw [putSectors_succ]
      simpa only [Nat.add_zero, Nat.add_assoc, Nat.add_comm 1] using ready₂

theorem wp_onfmReadSectors {addr start count : Nat} {data : Nat → S}
    {post : Int × (Nat → S) → OnfmRam S → PageStore S → Prop}
    (ready : OnfmReady g pageCount ram store image)
    (inRange : addr + start + count ≤ pageCount * g.sectorPerMpp)
    (small : pageCount * g.sectorPerMpp ≤ allOnes)
    (meets : ∀ ram', OnfmReady g pageCount ram' store image →
      post (0, takeSectors image addr (start + count) data) ram' store) :
    Code.wp (storeMachine g pageCount) (fun _ => True)
      (onfmReadSectors g addr (List.range' start count) 0 (takeSectors image addr start data)) post
      ram store := by
  induction count generalizing start ram with
  | zero => exact ⟨trivial, meets ram ready⟩
  | succ count ih =>
      have isPage : (addr + start) / g.sectorPerMpp < pageCount :=
        (Nat.div_lt_iff_lt_mul g.sectorPerMpp_pos).mpr (by omega)
      simp only [List.range'_succ, onfmReadSectors, if_true, Code.wp_bind]
      refine wp_onfmReadSector ready isPage small fun ram' ready' => ?_
      simp only [← takeSectors_succ]
      refine ih ready' (by omega) fun ram₂ ready₂ => ?_
      have same : start + 1 + count = start + (count + 1) := by omega
      rw [same]
      exact meets ram₂ ready₂

/-- A whole page of the host goes to the store while nothing is collected. -/
theorem Buf.BufReady.written {addr buffer : Nat} {data : Nat → S} {used : Nat → Bool}
    (ready : BufReady g pageCount ram store image buffer none)
    (aligned : addr % g.sectorPerMpp = 0)
    (owns : PoolOwns g { ram with pbPoolUsed := used } (buffer :: store.kept g .host)) :
    BufReady g pageCount { ram with pbPoolUsed := used }
      (store.write g (addr / g.sectorPerMpp) .host data)
      (putSectors image addr g.sectorPerMpp data) buffer none := by
  refine
    { write := ready.write
      merge := ready.merge
      owns := owns
      few := store.kept_length_le _
      start := ready.start
      stop := ready.stop
      inRange := ready.inRange
      idle := ready.idle
      holds := fun sector => ?_ }
  have pos := g.sectorPerMpp_pos
  have old := ready.holds sector
  have isStart : addr / g.sectorPerMpp * g.sectorPerMpp = addr :=
    Nat.div_mul_cancel (Nat.dvd_of_mod_eq_zero aligned)
  have split := Nat.div_add_mod' sector g.sectorPerMpp
  have lt := Nat.mod_lt sector pos
  simp only [reduceCtorEq, false_and, if_false, PageStore.write] at old ⊢
  by_cases same : sector / g.sectorPerMpp = addr / g.sectorPerMpp
  · rw [same, isStart] at split
    have offset : sector - addr = sector % g.sectorPerMpp := by omega
    rw [same, Function.update_self, putSectors, if_pos (by omega), offset]
  · have outside : ¬ (addr ≤ sector ∧ sector < addr + g.sectorPerMpp) := by
      rintro ⟨lower, upper⟩
      apply same
      refine Nat.div_eq_of_lt_le (isStart.symm ▸ lower) ?_
      rwa [Nat.succ_mul, isStart]
    rw [Function.update_of_ne same, putSectors, if_neg outside, old]

/-- A call of `ONFM_Read` leaves the array as it is. -/
theorem wp_onfmRead {addr count : Nat} {data : Nat → S}
    {post : Int × (Nat → S) → OnfmRam S → PageStore S → Prop}
    (ready : OnfmReady g pageCount ram store image)
    (inRange : addr + count ≤ pageCount * g.sectorPerMpp)
    (small : pageCount * g.sectorPerMpp ≤ allOnes)
    (meets : ∀ ram', OnfmReady g pageCount ram' store image →
      post (0, takeSectors image addr count data) ram' store) :
    Code.wp (storeMachine g pageCount) (fun _ => True) (onfmRead g addr count data) post ram
      store := by
  have pos := g.sectorPerMpp_pos
  by_cases direct : addr % g.sectorPerMpp = 0 ∧ count = g.sectorPerMpp
  · obtain ⟨aligned, rfl⟩ := direct
    have isPage : addr / g.sectorPerMpp < pageCount :=
      (Nat.div_lt_iff_lt_mul pos).mpr (by omega)
    have isStart : addr / g.sectorPerMpp * g.sectorPerMpp = addr :=
      Nat.div_mul_cancel (Nat.dvd_of_mod_eq_zero aligned)
    have filled : (fun i => if i < g.sectorPerMpp then store.pages (addr / g.sectorPerMpp) i
        else data i) = takeSectors image addr g.sectorPerMpp data := by
      funext i
      unfold takeSectors
      split
      · rename_i inside
        have content : image (addr / g.sectorPerMpp * g.sectorPerMpp + i) =
            store.pages (addr / g.sectorPerMpp) i := ready.writes.image_page inside
        rw [← content, isStart]
      · rfl
    simp only [onfmRead, aligned, true_and, if_true]
    rw [Code.wp_bind, wp_storeRead isPage]
    simp only [if_true, Code.wp_bind, Code.wp_pure, Code.wp_assert, filled]
    exact ⟨trivial, trivial, trivial, trivial, trivial, meets ram ready⟩
  · simp only [onfmRead, direct, if_false, List.range_eq_range']
    rw [Code.wp_bind]
    have start : data = takeSectors image addr 0 data := (takeSectors_zero image addr data).symm
    nth_rewrite 1 [start]
    refine wp_onfmReadSectors ready inRange small fun ram' ready' => ?_
    rw [Nat.zero_add]
    simp only [Code.wp_bind, Code.wp_assert, Code.wp_pure]
    exact ⟨trivial, trivial, trivial, meets ram' ready'⟩

/-- A call of `ONFM_Write` replaces its range, past the buffers or through them. -/
theorem wp_onfmWrite {addr count : Nat} {data : Nat → S}
    {post : Int → OnfmRam S → PageStore S → Prop}
    (ready : OnfmReady g pageCount ram store image)
    (inRange : addr + count ≤ pageCount * g.sectorPerMpp)
    (small : pageCount * g.sectorPerMpp ≤ allOnes)
    (meets : ∀ ram' store', OnfmReady g pageCount ram' store' (putSectors image addr count data) →
      post 0 ram' store') :
    Code.wp (storeMachine g pageCount) (fun _ => True) (onfmWrite g addr count data) post ram
      store := by
  have writes : WriteReady g pageCount { ram with readBufferStartSector := invalidLsaddr } store
      image none := ready.writes.setCache
  simp only [onfmWrite, Code.wp_bind, Code.wp_modify]
  refine ⟨trivial, ?_⟩
  by_cases direct : addr % g.sectorPerMpp = 0 ∧ count = g.sectorPerMpp
  · obtain ⟨aligned, rfl⟩ := direct
    have isPage : addr / g.sectorPerMpp < pageCount :=
      (Nat.div_lt_iff_lt_mul g.sectorPerMpp_pos).mpr (by have := g.sectorPerMpp_pos; omega)
    obtain ⟨⟨buffer, buf⟩, starting⟩ := writes
    simp only [aligned, true_and, if_true, Code.wp_bind]
    refine wp_ftlWrite [buffer] isPage buf.owns fun used owns => ?_
    refine ⟨trivial, meets _ _ ⟨⟨⟨buffer, buf.written aligned owns⟩, starting⟩, .inl rfl⟩⟩
  · simp only [direct, if_false, List.range_eq_range', Code.wp_bind]
    refine wp_onfmWriteSectors writes (.inl rfl) inRange small
      fun ram' store' openPage ready' same => ?_
    rw [if_pos rfl]
    refine wp_onfmWriteSector_flush ready' small fun ram₂ store₂ ready₂ same₂ => ?_
    simp only [Nat.add_zero, Nat.zero_add] at ready₂
    exact meets ram₂ store₂ ⟨ready₂, .inl (same₂.trans same)⟩

/-- A mount empties the pool and the cache. -/
theorem wp_onfmMount {post : Unit → OnfmRam S → PageStore S → Prop}
    (starting : ram.startingSector = invalidLsaddr) (noHeld : store.held = [])
    (meets : ∀ ram', OnfmReady g pageCount ram' store
        (fun sector => store.pages (sector / g.sectorPerMpp) (sector % g.sectorPerMpp)) →
      post () ram' store) :
    Code.wp (storeMachine g pageCount) (fun _ => True) (onfmMount g) post ram store := by
  have few : ([] : List Nat).length < g.bufferCount := by
    unfold Geometry.bufferCount
    exact Nat.succ_pos _
  simp only [onfmMount, Buf.init, Code.wp_bind, Code.wp_modify]
  refine ⟨trivial, trivial, wp_allocate ⟨List.nodup_nil, by simp, ?_⟩ few trivial
    fun buffer owns => ?_⟩
  · intro other inPool
    simp [inPool]
  · refine ⟨trivial, meets _ ⟨⟨⟨buffer, ?_⟩, starting⟩, .inl rfl⟩⟩
    exact
      { write := rfl
        merge := rfl
        owns := by
          rw [noHeld]
          exact owns.congr rfl
        few := by
          rw [noHeld]
          exact Nat.zero_le _
        start := rfl
        stop := rfl
        inRange := fun page impossible => by simp at impossible
        idle := fun _ i inside => by simp [inside]
        holds := fun sector => by simp }

variable [Zero S]

/-- One call answers like the array and keeps the invariant. -/
theorem wp_onfmCall {earlier : List (OnfmCall S)} {call : OnfmCall S}
    {post : OnfmAnswer S → OnfmRam S → PageStore S → Prop}
    (ready : OnfmReady g pageCount ram store (sectorArray earlier))
    (fits : call.Fits (pageCount * g.sectorPerMpp))
    (small : pageCount * g.sectorPerMpp ≤ allOnes)
    (meets : ∀ ram' store', OnfmReady g pageCount ram' store' (sectorArray (call :: earlier)) →
      post (call.answer earlier) ram' store') :
    Code.wp (storeMachine g pageCount) (fun _ => True) (onfmCall g call) post ram store := by
  cases call with
  | write addr count data =>
      simp only [onfmCall, Code.wp_bind]
      refine wp_onfmWrite ready fits small fun ram' store' ready' => ?_
      exact ⟨trivial, meets ram' store' ready'⟩
  | read addr count data =>
      simp only [onfmCall, Code.wp_bind]
      refine wp_onfmRead ready fits small fun ram' ready' => ?_
      exact ⟨trivial, meets ram' store ready'⟩

/-- A run of calls answers like the array. -/
theorem wp_onfmCalls (earlier : List (OnfmCall S)) {calls : List (OnfmCall S)}
    {post : List (OnfmAnswer S) → OnfmRam S → PageStore S → Prop}
    (ready : OnfmReady g pageCount ram store (sectorArray earlier))
    (fit : ∀ call ∈ calls, call.Fits (pageCount * g.sectorPerMpp))
    (small : pageCount * g.sectorPerMpp ≤ allOnes)
    (meets : ∀ ram' store',
      OnfmReady g pageCount ram' store' (sectorArray (calls.reverse ++ earlier)) →
      post (onfmAnswers earlier calls) ram' store') :
    Code.wp (storeMachine g pageCount) (fun _ => True) (onfmCalls g calls) post ram store := by
  induction calls generalizing earlier ram store post with
  | nil => exact ⟨trivial, meets ram store ready⟩
  | cons call rest ih =>
      simp only [onfmCalls, Code.wp_bind]
      refine wp_onfmCall ready (fit call List.mem_cons_self) small
        fun ram' store' ready' => ?_
      refine ih (call :: earlier) ready'
        (fun other inside => fit other (List.mem_cons_of_mem _ inside)) fun ram₂ store₂ ready₂ => ?_
      refine ⟨trivial, meets ram₂ store₂ ?_⟩
      rwa [List.reverse_cons, List.append_assoc]

/-- A session comes to its end, and answers like the array. -/
theorem exec_onfmSession (calls : List (OnfmCall S)) {releases : List (List Nat)}
    (starting : ram.startingSector = invalidLsaddr)
    (small : pageCount * g.sectorPerMpp ≤ allOnes)
    (fit : ∀ call ∈ calls, call.Fits (pageCount * g.sectorPerMpp)) :
    ∃ ram' store', ((onfmSession g calls).run ram).exec (storeMachine g pageCount)
        ⟨fun _ _ => 0, [], releases⟩ = .ok ((onfmAnswers [] calls, ram'), store') ∧
      OnfmReady g pageCount ram' store' (sectorArray calls.reverse) := by
  have run : Code.wp (storeMachine g pageCount) (fun _ => True) (onfmSession g calls)
      (fun answers ram' store' => answers = onfmAnswers [] calls ∧
        OnfmReady g pageCount ram' store' (sectorArray calls.reverse)) ram
      ⟨fun _ _ => 0, [], releases⟩ := by
    simp only [onfmSession, Code.wp_bind]
    refine wp_onfmMount starting rfl fun ram' ready => ?_
    refine wp_onfmCalls [] ready fit small fun ram₂ store₂ ready₂ => ?_
    rw [List.append_nil] at ready₂
    exact ⟨rfl, ready₂⟩
  obtain ⟨⟨answers, ram'⟩, store', exec, rfl, ready⟩ := Prog.exec_of_wp run
  exact ⟨ram', store', exec, ready⟩

end Specs

/-- Every session over a correct page store of zeros answers like a flat array of
sectors.  Afterwards the store holds the array, and the cached page is that of
the array. -/
theorem onfmSession_refines [Zero S] {pageCount : Nat} {ram : OnfmRam S}
    {releases : List (List Nat)} {calls : List (OnfmCall S)}
    (starting : ram.startingSector = invalidLsaddr)
    (small : pageCount * g.sectorPerMpp ≤ allOnes)
    (fit : ∀ call ∈ calls, call.Fits (pageCount * g.sectorPerMpp)) :
    ∃ ram' store',
      ((onfmSession g calls).run ram).exec (storeMachine g pageCount)
          ⟨fun _ _ => 0, [], releases⟩ = .ok ((onfmAnswers [] calls, ram'), store') ∧
        (∀ sector, store'.pages (sector / g.sectorPerMpp) (sector % g.sectorPerMpp) =
          sectorArray calls.reverse sector) ∧
        CacheFresh g pageCount ram' (sectorArray calls.reverse) := by
  obtain ⟨ram', store', exec, ready⟩ := exec_onfmSession calls starting small fit
  exact ⟨ram', store', exec, fun sector => (ready.writes.image_eq sector).symm, ready.cache⟩

/-- A range over a page boundary, then one page past the buffers, then a range of
both. -/
theorem onfmSession_refines_simNand :
    ∃ ram' store',
      ((onfmSession simNand
          [.write 15 2 (fun i => i + 1), .write 16 16 (fun _ => 7), .read 15 3 fun _ => 0]).run
        ⟨fun _ _ => 0, fun _ => false, fun _ => false, none, none, 0, 0, fun _ => 0, 0,
          invalidLsaddr⟩).exec (storeMachine simNand 4) ⟨fun _ _ => 0, [], []⟩ =
        .ok ((onfmAnswers []
          [.write 15 2 (fun i => i + 1), .write 16 16 (fun _ => 7), .read 15 3 fun _ => 0], ram'),
          store') ∧
        (∀ sector, store'.pages (sector / simNand.sectorPerMpp) (sector % simNand.sectorPerMpp) =
          sectorArray
            [.read 15 3 fun _ => 0, .write 16 16 (fun _ => 7), .write 15 2 fun i => i + 1]
            sector) ∧
        CacheFresh simNand 4 ram' (sectorArray
          [.read 15 3 fun _ => 0, .write 16 16 (fun _ => 7), .write 15 2 fun i => i + 1]) :=
  onfmSession_refines rfl (by decide) (List.forall_mem_cons.mpr
    ⟨show 15 + 2 ≤ 4 * simNand.sectorPerMpp by decide, List.forall_mem_cons.mpr
      ⟨show 16 + 16 ≤ 4 * simNand.sectorPerMpp by decide, List.forall_mem_singleton.mpr
        (show 15 + 3 ≤ 4 * simNand.sectorPerMpp by decide)⟩⟩)

end OpenNfm
