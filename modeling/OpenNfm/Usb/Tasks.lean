import OpenNfm.Usb.Device

/-!
# Transactions, buffers and sectors

The transactions that wait are page writes, and behind them a read or a merge at most.  Each page
write has a buffer of its own, and so has the page that the host fills next.  What the host has
written is on the sectors below when the page writes that wait are executed.
-/

namespace OpenNfm.Usb

open OpenNfm.Program

variable {S : Type} {g : Geometry} {capacity : Nat}

/-! ## Page writes -/

/-- A page write that waits, with its page and its buffer. -/
structure PageWrite where
  page : Nat
  buffer : Nat

namespace PageWrite

/-- The page write in the list of transactions. -/
def task (g : Geometry) (write : PageWrite) : UsbTransaction :=
  ⟨.write, write.page * g.sectorPerMpp, g.sectorPerMpp, .bulkBuf (some write.buffer)⟩

/-- What the page write leaves on the sectors. -/
def put (g : Geometry) (pool : Nat → Nat → S) (disk : Nat → S) (write : PageWrite) : Nat → S :=
  putSectors disk (write.page * g.sectorPerMpp) g.sectorPerMpp (pool write.buffer)

/-- The sectors when all page writes that wait are executed. -/
def putAll (g : Geometry) (pool : Nat → Nat → S) (disk : Nat → S) (writes : List PageWrite) :
    Nat → S :=
  writes.foldl (put g pool) disk

variable {pool : Nat → Nat → S} {disk : Nat → S} {writes : List PageWrite} {write : PageWrite}

theorem putAll_append : putAll g pool disk (writes ++ [write]) =
    write.put g pool (putAll g pool disk writes) := by
  rw [putAll, List.foldl_append]
  rfl

/-- A buffer that no page write has may change. -/
theorem putAll_update {buffer : Nat} {content : Nat → S}
    (other : buffer ∉ writes.map PageWrite.buffer) :
    putAll g (Function.update pool buffer content) disk writes = putAll g pool disk writes := by
  induction writes generalizing disk with
  | nil => rfl
  | cons write rest ih =>
      rw [List.map_cons, List.mem_cons, not_or] at other
      have same :
          write.put g (Function.update pool buffer content) disk = write.put g pool disk := by
        rw [put, put, Function.update_of_ne (Ne.symm other.1)]
      show putAll g (Function.update pool buffer content)
        (write.put g (Function.update pool buffer content) disk) rest = _
      rw [same, ih other.2]
      rfl

end PageWrite

/-! ## Owners of the buffers -/

/-- The buffers that are used are those of the list, and each has one owner. -/
structure Owned (g : Geometry) (used : Nat → Bool) (owned : List Nat) : Prop where
  nodup : owned.Nodup
  inPool : ∀ buffer ∈ owned, buffer < g.bufferCount
  used : ∀ buffer < g.bufferCount, used buffer = true ↔ buffer ∈ owned

namespace Owned

variable {used : Nat → Bool} {owned owned' : List Nat} {buffer : Nat}

theorem perm (owns : Owned g used owned) (perm : owned'.Perm owned) : Owned g used owned' where
  nodup := perm.nodup_iff.mpr owns.nodup
  inPool buffer inside := owns.inPool buffer (perm.mem_iff.mp inside)
  used buffer inPool := (owns.used buffer inPool).trans perm.mem_iff.symm

theorem length_le (owns : Owned g used owned) : owned.length ≤ g.bufferCount := by
  have inside : owned ⊆ List.range g.bufferCount := fun buffer member =>
    List.mem_range.mpr (owns.inPool buffer member)
  have bounded := (owns.nodup.subperm inside).length_le
  rw [List.length_range] at bounded
  exact bounded

/-- `BUF_Allocate` finds a buffer that is not used. -/
theorem allocate (owns : Owned g used owned)
    (found : Buf.allocateFrom g used (List.range (g.bufferCount / 2)) = some buffer) :
    Owned g (Function.update used buffer true) (buffer :: owned) := by
  obtain ⟨inPool, unused⟩ := Buf.allocateFrom_some (fun i h => List.mem_range.mp h) found
  have fresh : buffer ∉ owned := fun member => by
    rw [(owns.used buffer inPool).mpr member] at unused
    exact absurd unused.symm Bool.false_ne_true
  refine ⟨List.nodup_cons.mpr ⟨fresh, owns.nodup⟩, fun other member => ?_, fun other inPool' => ?_⟩
  · rcases List.mem_cons.mp member with rfl | member
    · exact inPool
    · exact owns.inPool other member
  · by_cases same : other = buffer
    · rw [same, Function.update_self]
      exact ⟨fun _ => List.mem_cons_self, fun _ => rfl⟩
    · rw [Function.update_of_ne same, owns.used other inPool', List.mem_cons, or_iff_right same]

/-- Buffers of the layers below come back. -/
theorem giveBack {offered rest returned : List Nat} (owns : Owned g used (offered ++ rest)) :
    Owned g (fun buffer => used buffer && !decide (buffer ∈ offered ∧ buffer ∈ returned))
      ((offered.filter fun buffer => buffer ∉ returned) ++ rest) := by
  obtain ⟨nodup, inPool, isUsed⟩ := owns
  have apart := List.nodup_append.mp nodup
  refine ⟨?_, fun buffer member => ?_, fun buffer isBuffer => ?_⟩
  · refine List.nodup_append.mpr ⟨apart.1.filter _, apart.2.1,
      fun buffer member other member' => ?_⟩
    exact apart.2.2 buffer (List.mem_of_mem_filter member) other member'
  · refine inPool buffer ?_
    rcases List.mem_append.mp member with kept | other
    · exact List.mem_append_left _ (List.mem_of_mem_filter kept)
    · exact List.mem_append_right _ other
  · rw [Bool.and_eq_true, isUsed buffer isBuffer, Bool.not_eq_true', decide_eq_false_iff_not,
      List.mem_append, List.mem_append, List.mem_filter, decide_eq_true_eq]
    have notBoth : buffer ∈ rest → buffer ∉ offered := fun member member' =>
      apart.2.2 buffer member' buffer member rfl
    tauto

end Owned

/-! ## What the device has in hand -/

/-- The list with a transaction at its end. -/
def Msc.logged (g : Geometry) (task : UsbTransaction) (msc : Msc S) : Msc S :=
  { msc with
    utList := Function.update msc.utList msc.utPush task
    utPush := (msc.utPush + 1) % utListSize g.bufferCount }

/-- The transaction that is executed now, if there is one, the page writes behind it, and the last
transaction. -/
structure Queued (g : Geometry) (device : Device S) (heads : List UsbTransaction)
    (writes : List PageWrite) (last : List UsbTransaction) : Prop where
  holds : RingQueue.Holds (utListSize g.bufferCount) device.msc.queue
    (heads ++ (writes.map (PageWrite.task g) ++ last))
  atTop : device.pc = .top → heads = []
  atTask : device.pc ≠ .top → ∃ head, heads = [head]
  one : last.length ≤ 1

/-- The owners of the buffers: the layers below, the page writes, and the page that the host fills
next. -/
def owners (below : List Nat) (writes : List PageWrite) (carried : Option Nat) : List Nat :=
  below ++ (writes.map PageWrite.buffer ++ carried.toList)

/-- The state of the device, when `image` is what the host has written. -/
structure InHand (g : Geometry) (capacity : Nat) (device : Device S) (heads : List UsbTransaction)
    (writes : List PageWrite) (last : List UsbTransaction) (carried : Option Nat)
    (image : Nat → S) : Prop where
  highSpeed : device.msc.devStatusFS2HS = true
  blockCount : device.msc.mscBlockCount = capacity
  queued : Queued g device heads writes last
  owned : Owned g device.msc.pbPoolUsed (owners device.below writes carried)
  few : device.below.length ≤ g.totalDieCount + 1
  stored : PageWrite.putAll g device.msc.pbPool device.disk writes = image
  inRange : ∀ write ∈ writes, (write.page + 1) * g.sectorPerMpp ≤ capacity

section Hand

variable {device : Device S} {heads last : List UsbTransaction} {writes : List PageWrite}
  {carried : Option Nat} {image : Nat → S} {buffer : Nat} {task : UsbTransaction}

theorem four_le_bufferCount (g : Geometry) : 4 ≤ g.bufferCount := by
  have := g.totalDieCount_pos
  unfold Geometry.bufferCount
  omega

theorem Queued.heads_length (queued : Queued g device heads writes last) : heads.length ≤ 1 := by
  by_cases top : device.pc = .top
  · rw [queued.atTop top]
    exact Nat.zero_le 1
  · obtain ⟨head, rfl⟩ := queued.atTask top
    exact Nat.le_refl 1

/-- The main loop stands where it did, and the list has other transactions. -/
theorem Queued.relist (queued : Queued g device heads writes last) {msc : Msc S}
    {writes' : List PageWrite} {last' : List UsbTransaction}
    (holds : RingQueue.Holds (utListSize g.bufferCount) msc.queue
      (heads ++ (writes'.map (PageWrite.task g) ++ last'))) (one : last'.length ≤ 1) :
    Queued g { device with msc := msc } heads writes' last' where
  holds := holds
  atTop := queued.atTop
  atTask := queued.atTask
  one := one

namespace InHand

/-- There are less page writes than slots in the list. -/
theorem length_le (hand : InHand g capacity device heads writes last carried image) :
    writes.length + carried.toList.length ≤ g.bufferCount := by
  have bounded := hand.owned.length_le
  unfold owners at bounded
  rw [List.length_append, List.length_append, List.length_map] at bounded
  exact Nat.le_trans (Nat.le_add_left _ _) bounded

/-- There is a slot for one more transaction. -/
theorem room (hand : InHand g capacity device heads writes [] carried image) :
    (heads ++ (writes.map (PageWrite.task g) ++ [])).length + 1 < utListSize g.bufferCount := by
  have := hand.queued.heads_length
  have := hand.length_le
  have := four_le_bufferCount g
  rw [List.append_nil, List.length_append, List.length_map]
  unfold utListSize
  omega

/-- The buffer that the host fills is none of the others. -/
theorem carried_other (hand : InHand g capacity device heads writes last (some buffer) image) :
    buffer ∉ writes.map PageWrite.buffer := by
  have apart := (List.nodup_append.mp hand.owned.nodup).2.1
  intro member
  exact (List.nodup_append.mp apart).2.2 buffer member buffer (List.mem_singleton_self buffer) rfl

/-- The list stays, while the buffers and their owners may change. -/
theorem rehand {carried' : Option Nat}
    (hand : InHand g capacity device heads writes last carried image) {msc : Msc S}
    (highSpeed : msc.devStatusFS2HS = device.msc.devStatusFS2HS)
    (blockCount : msc.mscBlockCount = device.msc.mscBlockCount)
    (queue : msc.queue = device.msc.queue)
    (owned : Owned g msc.pbPoolUsed (owners device.below writes carried'))
    (stored : PageWrite.putAll g msc.pbPool device.disk writes = image) :
    InHand g capacity { device with msc := msc } heads writes last carried' image where
  highSpeed := highSpeed.trans hand.highSpeed
  blockCount := blockCount.trans hand.blockCount
  queued := by
    refine hand.queued.relist ?_ hand.queued.one
    rw [queue]
    exact hand.queued.holds
  owned := owned
  few := hand.few
  stored := stored
  inRange := hand.inRange

/-- Variables of the protocol may change. -/
theorem besides (hand : InHand g capacity device heads writes last carried image) (msc : Msc S)
    (highSpeed : msc.devStatusFS2HS = device.msc.devStatusFS2HS)
    (blockCount : msc.mscBlockCount = device.msc.mscBlockCount)
    (queue : msc.queue = device.msc.queue) (used : msc.pbPoolUsed = device.msc.pbPoolUsed)
    (pool : msc.pbPool = device.msc.pbPool) :
    InHand g capacity { device with msc := msc } heads writes last carried image := by
  apply hand.rehand highSpeed blockCount queue
  · rw [used]
    exact hand.owned
  · rw [pool]
    exact hand.stored

/-- The buffer that the host fills may change. -/
theorem fill (hand : InHand g capacity device heads writes last (some buffer) image) (msc : Msc S)
    (content : Nat → S) (highSpeed : msc.devStatusFS2HS = device.msc.devStatusFS2HS)
    (blockCount : msc.mscBlockCount = device.msc.mscBlockCount)
    (queue : msc.queue = device.msc.queue) (used : msc.pbPoolUsed = device.msc.pbPoolUsed)
    (pool : msc.pbPool = Function.update device.msc.pbPool buffer content) :
    InHand g capacity { device with msc := msc } heads writes last (some buffer) image := by
  apply hand.rehand highSpeed blockCount queue
  · rw [used]
    exact hand.owned
  · rw [pool, PageWrite.putAll_update hand.carried_other]
    exact hand.stored

/-! ### New transactions -/

/-- The transaction fits into the list. -/
theorem logs (hand : InHand g capacity device heads writes [] carried image)
    (task : UsbTransaction) :
    logTransaction g task device.msc = .ok (device.msc.logged g task) := by
  have holds := hand.queued.holds
  exact if_pos (holds.put_ne hand.room task)

/-- A read or a merge is the last transaction. -/
theorem logLast (hand : InHand g capacity device heads writes [] carried image)
    (task : UsbTransaction) :
    InHand g capacity { device with msc := device.msc.logged g task } heads writes [task] carried
      image where
  highSpeed := hand.highSpeed
  blockCount := hand.blockCount
  queued := by
    have holds := hand.queued.holds.put hand.room task
    rw [List.append_nil, List.append_assoc] at holds
    exact hand.queued.relist holds (Nat.le_refl 1)
  owned := hand.owned
  few := hand.few
  stored := hand.stored
  inRange := hand.inRange

/-- The page that the host has filled is to be written. -/
theorem logWrite (hand : InHand g capacity device heads writes [] (some buffer) image) {page : Nat}
    (inRange : (page + 1) * g.sectorPerMpp ≤ capacity) :
    InHand g capacity { device with msc := device.msc.logged g (PageWrite.task g ⟨page, buffer⟩) }
      heads (writes ++ [⟨page, buffer⟩]) [] none
      (putSectors image (page * g.sectorPerMpp) g.sectorPerMpp (device.msc.pbPool buffer)) where
  highSpeed := hand.highSpeed
  blockCount := hand.blockCount
  queued := by
    have holds := hand.queued.holds.put hand.room (PageWrite.task g ⟨page, buffer⟩)
    rw [List.append_nil, List.append_assoc] at holds
    refine hand.queued.relist ?_ (Nat.zero_le 1)
    rw [List.map_append, List.append_nil]
    exact holds
  owned := by
    have owned := hand.owned
    unfold owners at owned ⊢
    rw [List.map_append, Option.toList_none, List.append_nil]
    exact owned
  few := hand.few
  stored := by
    rw [PageWrite.putAll_append]
    show PageWrite.put g device.msc.pbPool
      (PageWrite.putAll g device.msc.pbPool device.disk writes) _ = _
    rw [hand.stored]
    rfl
  inRange write member := by
    rcases List.mem_append.mp member with earlier | new
    · exact hand.inRange write earlier
    · rw [List.mem_singleton.mp new]
      exact inRange

/-! ### The main loop -/

/-- The first page write is executed. -/
theorem runWrite {write : PageWrite} {rest : List PageWrite} (returned : List Nat)
    (hand : InHand g capacity device heads (write :: rest) last carried image)
    (top : device.pc = .top) : ∃ after, device.runTask returned = .ok after ∧
      after.msc = { device.msc with pbPoolUsed := after.msc.pbPoolUsed } ∧ after.pc = .next ∧
      (after.below.length ≤ g.totalDieCount + 1 →
        InHand g capacity after [write.task g] rest last carried image) := by
  have queued := hand.queued
  obtain rfl := queued.atTop top
  have first : device.msc.utList device.msc.utPop = write.task g := queued.holds.first
  have run : device.runTask returned = .ok
      { device.onfmWrite returned (write.page * g.sectorPerMpp) g.sectorPerMpp write.buffer with
        pc := .next } := by
    unfold Device.runTask
    simp only [first, PageWrite.task]
  refine ⟨_, run, rfl, rfl, fun few => ?_⟩
  refine
    { highSpeed := hand.highSpeed
      blockCount := hand.blockCount
      queued :=
        { holds := queued.holds
          atTop := fun wrong => by cases wrong
          atTask := fun _ => ⟨_, rfl⟩
          one := queued.one }
      owned := ?_
      few := few
      stored := hand.stored
      inRange := fun other member => hand.inRange other (List.mem_cons_of_mem _ member) }
  have moved :
      ((write.buffer :: device.below) ++ (rest.map PageWrite.buffer ++ carried.toList)).Perm
      (owners device.below (write :: rest) carried) := by
    unfold owners
    rw [List.map_cons, List.cons_append]
    exact List.perm_middle.symm
  exact (hand.owned.perm moved).giveBack

/-- The last transaction is executed, when all page writes are.  It reads the sectors. -/
theorem runLast {returned : List Nat} {msc : Msc S} {pc : TaskPc}
    (hand : InHand g capacity device heads [] [task] carried image) (top : device.pc = .top)
    (notTop : pc ≠ .top) (few : (device.giveBack returned device.below).below.length ≤
      g.totalDieCount + 1)
    (highSpeed : msc.devStatusFS2HS = device.msc.devStatusFS2HS)
    (blockCount : msc.mscBlockCount = device.msc.mscBlockCount)
    (queue : msc.queue = device.msc.queue)
    (used : msc.pbPoolUsed = (device.giveBack returned device.below).msc.pbPoolUsed) :
    InHand g capacity { device.giveBack returned device.below with msc := msc, pc := pc }
      [task] [] []
      carried image where
  highSpeed := highSpeed.trans hand.highSpeed
  blockCount := blockCount.trans hand.blockCount
  queued :=
    { holds := by
        have holds := hand.queued.holds
        rw [hand.queued.atTop top] at holds
        show RingQueue.Holds _ msc.queue _
        rw [queue]
        exact holds
      atTop := fun wrong => absurd wrong notTop
      atTask := fun _ => ⟨task, rfl⟩
      one := Nat.zero_le 1 }
  owned := by
    show Owned g msc.pbPoolUsed _
    rw [used]
    exact hand.owned.giveBack
  few := few
  stored := hand.stored
  inRange write member := absurd member List.not_mem_nil

/-- The main loop goes on to the next transaction. -/
theorem advance (hand : InHand g capacity device heads writes last carried image)
    (next : device.pc = .next) :
    InHand g capacity (device.advance g) [] writes last carried image where
  highSpeed := hand.highSpeed
  blockCount := hand.blockCount
  queued := by
    obtain ⟨head, rfl⟩ := hand.queued.atTask fun wrong => by rw [next] at wrong; cases wrong
    exact
      { holds := hand.queued.holds.drop
        atTop := fun _ => rfl
        atTask := fun wrong => absurd rfl wrong
        one := hand.queued.one }
  owned := hand.owned
  few := hand.few
  stored := hand.stored
  inRange := hand.inRange

end InHand

end Hand

end OpenNfm.Usb
