import OpenNfm.Ftl.Data
import OpenNfm.Program.CountingSketch

/-!
# Hot data

`HDI_IsHotPage` counts the writes of a page in four slots of one table, and takes a page for
hot if all four have reached the threshold.  The table is a sketch: the slots of a page are
never below an exact counter of its writes, which saturates and is halved like them.  So no
page that is written often is taken for cold, whatever other pages share its slots.
-/

namespace OpenNfm.Ftl

open OpenNfm.Program

section HotData

variable {l : Layout} {D : Type}

/-! ## One call -/

/-- The slots of the table that belong to a page. -/
theorem lt_mppSize_of_mem {addr slot : Nat} (listed : slot ∈ hdiSlots l addr) :
    slot < l.g.mppSize := by
  obtain ⟨i, _, rfl⟩ := List.mem_map.mp listed
  exact Nat.mod_lt _ (Nat.two_pow_pos _)

/-- Every counter that the loop raises has the threshold behind its raise. -/
def allHot (table : Nat → Nat) : List Nat → Bool
  | [] => true
  | slot :: rest =>
      decide (0x60 ≤ raise 0xff table slot slot) && allHot (raise 0xff table slot) rest

/-- The memory behind a call that raised the counters to the given table: every so many calls
the table is cooled down. -/
def countPage (l : Layout) (table : Nat → Nat) (ram : FtlRam) : FtlRam :=
  if ram.hdiCount = 0x1000 then
    { ram with
      hdiHashTable := fun i => if i < l.g.mppSize then table i / 2 else table i
      hdiCount := 0 }
  else { ram with hdiHashTable := table, hdiCount := ram.hdiCount + 1 }

theorem foldl_eq_raiseAll (slots : List Nat) (table : Nat → Nat) (hot : Bool) :
    slots.foldl (fun (state : (Nat → Nat) × Bool) slot =>
      let value := if state.1 slot ≠ 0xff then state.1 slot + 1 else state.1 slot
      (Function.update state.1 slot value, state.2 && decide (¬ value < 0x60))) (table, hot) =
      (raiseAll 0xff slots table, hot && allHot table slots) := by
  induction slots generalizing table hot with
  | nil => rw [allHot, Bool.and_true]; rfl
  | cons slot rest ih =>
      rw [List.foldl_cons, ih, raiseAll_cons, allHot, ← Bool.and_assoc]
      simp only [raise, Function.update_self, Nat.not_lt]

/-- What a call does: it returns without a call to the UBI layer. -/
theorem run_hdiIsHotPage (addr : Nat) (ram : FtlRam) :
    (hdiIsHotPage l addr : FtlCode D Bool).run ram =
      .ret (allHot ram.hdiHashTable (hdiSlots l addr),
        countPage l (raiseAll 0xff (hdiSlots l addr) ram.hdiHashTable) ram) := by
  have folded := foldl_eq_raiseAll (hdiSlots l addr) ram.hdiHashTable true
  rw [Bool.true_and] at folded
  unfold hdiIsHotPage countPage
  rw [StateT.run_bind, StateT.run_get, pure_bind]
  simp only [folded]
  split <;> rfl

/-! ## Runs -/

/-- The exact counters of all pages behind a call for the page. -/
def exactCount (ram : FtlRam) (addr : Nat) (exact : Nat → Nat) : Nat → Nat :=
  if ram.hdiCount = 0x1000 then halve (visit 0xff exact addr) else visit 0xff exact addr

/-- Calls of `HDI_IsHotPage` from an empty table on, with the exact counters of all pages.
Other code may run between the calls, which leaves the table alone. -/
inductive HotRun (l : Layout) (D : Type) : FtlRam → (Nat → Nat) → Prop
  | start {ram : FtlRam} (empty : ∀ slot < l.g.mppSize, ram.hdiHashTable slot = 0) :
      HotRun l D ram fun _ => 0
  | call {ram ram' : FtlRam} {exact : Nat → Nat} {addr : Nat} {hot : Bool}
      (before : HotRun l D ram exact)
      (run : (hdiIsHotPage l addr : FtlCode D Bool).run ram = .ret (hot, ram')) :
      HotRun l D ram' (exactCount ram addr exact)
  | other {ram ram' : FtlRam} {exact : Nat → Nat} (before : HotRun l D ram exact)
      (table : ram'.hdiHashTable = ram.hdiHashTable) (count : ram'.hdiCount = ram.hdiCount) :
      HotRun l D ram' exact

/-- The table covers the exact counters, and its counters are bytes. -/
structure HotTable (l : Layout) (table exact : Nat → Nat) : Prop where
  covers : Covers (hdiSlots l) table exact
  bytes : ∀ slot < l.g.mppSize, table slot ≤ 0xff

variable {table exact : Nat → Nat} {ram : FtlRam}

theorem HotTable.raised (keeps : HotTable l table exact) (addr : Nat) :
    HotTable l (raiseAll 0xff (hdiSlots l addr) table) (visit 0xff exact addr) where
  covers := keeps.covers.visit fun slot listed => keeps.bytes slot (lt_mppSize_of_mem listed)
  bytes slot inTable := raiseAll_le (keeps.bytes slot inTable)

/-- One call keeps the table above the exact counters. -/
theorem HotTable.countPage (keeps : HotTable l ram.hdiHashTable exact) (addr : Nat) :
    HotTable l (countPage l (raiseAll 0xff (hdiSlots l addr) ram.hdiHashTable) ram).hdiHashTable
      (exactCount ram addr exact) := by
  have raised := keeps.raised addr
  unfold Ftl.countPage exactCount
  split
  · constructor
    · refine raised.covers.halve fun slot => ?_
      dsimp only
      split
      · exact le_rfl
      · exact Nat.div_le_self _ _
    · intro slot inTable
      dsimp only
      rw [if_pos inTable]
      exact (Nat.div_le_self _ _).trans (raised.bytes slot inTable)
  · exact raised

theorem HotRun.hotTable (run : HotRun l D ram exact) : HotTable l ram.hdiHashTable exact := by
  induction run with
  | start empty =>
      exact ⟨.of_zero fun _ => rfl, fun slot inTable => (empty slot inTable).trans_le (by decide)⟩
  | call before run ih =>
      rw [run_hdiIsHotPage] at run
      obtain ⟨rfl, rfl⟩ := Prod.mk.inj (Prog.ret.inj run)
      exact ih.countPage _
  | other before table count ih =>
      rw [table]
      exact ih

/-- A page whose exact counter has the threshold meets it in all its slots. -/
theorem allHot_of_covered {slots : List Nat} {value : Nat} (hot : 0x60 ≤ min 0xff (value + 1))
    (covered : ∀ slot ∈ slots, value ≤ table slot) (bytes : ∀ slot ∈ slots, table slot ≤ 0xff) :
    allHot table slots = true := by
  induction slots generalizing table with
  | nil => rfl
  | cons slot rest ih =>
      have here : raise 0xff table slot slot = min 0xff (table slot + 1) :=
        raise_self (bytes slot List.mem_cons_self)
      have above : value ≤ table slot := covered slot List.mem_cons_self
      rw [allHot, Bool.and_eq_true]
      constructor
      · rw [here]
        exact decide_eq_true (by omega)
      · refine ih (fun other listed => ?_) fun other listed => ?_
        · exact (covered other (List.mem_cons_of_mem _ listed)).trans (le_raise slot other)
        · exact raise_le (bytes other (List.mem_cons_of_mem _ listed))

/-- The identifier never underestimates: every call returns, it finds the page hot if the
exact counter with this write has the threshold, and no counter of the table, behind any of
the raises of the call, is more than a byte. -/
theorem hotRun_neverUnderestimates (run : HotRun l D ram exact) (addr : Nat) :
    ∃ hot ram', (hdiIsHotPage l addr : FtlCode D Bool).run ram = .ret (hot, ram') ∧
      ram' = countPage l (raiseAll 0xff (hdiSlots l addr) ram.hdiHashTable) ram ∧
      (0x60 ≤ visit 0xff exact addr addr → hot = true) ∧
      (∀ slots, slots <+: hdiSlots l addr → ∀ slot < l.g.mppSize,
        raiseAll 0xff slots ram.hdiHashTable slot ≤ 0xff) ∧
      ∀ slot < l.g.mppSize, ram'.hdiHashTable slot ≤ 0xff := by
  have keeps := run.hotTable
  refine ⟨_, _, run_hdiIsHotPage addr ram, rfl, fun hot => ?_, fun slots _ slot inTable => ?_, ?_⟩
  · rw [visit, Function.update_self] at hot
    exact allHot_of_covered hot (keeps.covers addr) fun slot listed =>
      keeps.bytes slot (lt_mppSize_of_mem listed)
  · exact raiseAll_le (keeps.bytes slot inTable)
  · exact (keeps.countPage addr).bytes

/-- The memory and the exact counters behind so many calls for the page. -/
def hotCalls (l : Layout) (addr : Nat) : Nat → FtlRam × (Nat → Nat)
  | 0 => (FtlRam.reset, fun _ => 0)
  | n + 1 =>
      let (ram, exact) := hotCalls l addr n
      (countPage l (raiseAll 0xff (hdiSlots l addr) ram.hdiHashTable) ram,
        exactCount ram addr exact)

theorem hotRun_calls (addr n : Nat) : HotRun l D (hotCalls l addr n).1 (hotCalls l addr n).2 := by
  induction n with
  | zero => exact .start fun _ _ => rfl
  | succ n ih => exact ih.call (run_hdiIsHotPage addr _)

/-- The ninety-sixth write of page 1 finds it hot. -/
theorem hotRun_neverUnderestimates_threshold :
    ∃ (ram : FtlRam) (exact : Nat → Nat), HotRun (simLayout 0) Nat ram exact ∧
      0x60 ≤ visit 0xff exact 1 1 ∧
      ∃ ram', (hdiIsHotPage (simLayout 0) 1 : FtlCode Nat Bool).run ram = .ret (true, ram') ∧
        ram' = countPage (simLayout 0) (raiseAll 0xff (hdiSlots (simLayout 0) 1) ram.hdiHashTable)
          ram ∧
        (∀ slots, slots <+: hdiSlots (simLayout 0) 1 → ∀ slot < (simLayout 0).g.mppSize,
          raiseAll 0xff slots ram.hdiHashTable slot ≤ 0xff) ∧
        ∀ slot < (simLayout 0).g.mppSize, ram'.hdiHashTable slot ≤ 0xff := by
  have run : HotRun (simLayout 0) Nat _ _ := hotRun_calls 1 95
  have reached : 0x60 ≤ visit 0xff (hotCalls (simLayout 0) 1 95).2 1 1 := by
    set_option maxRecDepth 100000 in decide +kernel
  obtain ⟨hot, ram', ran, counted, finds, bytes, bytes'⟩ := hotRun_neverUnderestimates run 1
  obtain rfl : hot = true := finds reached
  exact ⟨_, _, run, reached, ram', ran, counted, bytes, bytes'⟩

end HotData

end OpenNfm.Ftl
