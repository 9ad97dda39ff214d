import OpenNfm.Ftl.Rules
import Mathlib.Data.List.TakeWhile

/-!
# The search for a journal

`DATA_Write` polls the journals that are not full, in order, until a die is ready.  The
loop goes on only while the last poll of a round is answered busy: a round that ends with
a failed program ends the search without a journal.
-/

namespace OpenNfm.Ftl

open OpenNfm.Program

variable {l : Layout} {D E : Type} {hot : Bool} {ram : FtlRam}

/-- The journal has room for a data page. -/
abbrev JournalHasRoom (l : Layout) (hot : Bool) (ram : FtlRam) (j : Nat) : Prop :=
  PmNode.page l.g (journal hot ram j) < l.pagePerPhyBlock - 1

/-- The journals with room among so many from `j` on. -/
def openJournals (l : Layout) (hot : Bool) (ram : FtlRam) (rounds j : Nat) : List Nat :=
  (List.range' j rounds).filter fun j => decide (JournalHasRoom l hot ram j)

/-- The number of polls in a round without a ready die. -/
def pollsPerRound (l : Layout) (hot : Bool) (ram : FtlRam) : Nat :=
  (openJournals l hot ram l.journalBlockCount 0).length

theorem mem_openJournals {hot : Bool} {ram : FtlRam} {rounds j i : Nat} :
    i ∈ openJournals l hot ram rounds j ↔
      (j ≤ i ∧ i < j + rounds) ∧ JournalHasRoom l hot ram i := by
  rw [openJournals, List.mem_filter, List.mem_range'_1, decide_eq_true_iff]

theorem openJournals_succ (hot : Bool) (ram : FtlRam) (rounds j : Nat) :
    openJournals l hot ram (rounds + 1) j =
      if JournalHasRoom l hot ram j then j :: openJournals l hot ram rounds (j + 1)
      else openJournals l hot ram rounds (j + 1) := by
  rw [openJournals, List.range'_succ, List.filter_cons]
  split <;> rename_i holds <;> rw [decide_eq_true_iff] at holds
  · rw [if_pos holds]
    rfl
  · rw [if_neg holds]
    rfl

/-- The store with other answers to come. -/
def UbiStore.withPolls (store : UbiStore D) (polls : List Status) : UbiStore D :=
  { store with polls := polls }

/-! ## Polls -/

/-- A device whose dice answer the polls of the journals from a list, and are ready when the
list is at its end. -/
structure PolledBy (l : Layout) (hot : Bool) (ram : FtlRam)
    (machine : Machine (UbiOp D) (UbiAns D) E) where
  Fits : E → Prop
  answers : E → List Status
  poll : E → Nat → Status → E
  fits_poll : ∀ {state j answer}, Fits state → j < l.journalBlockCount →
    Fits (poll state j answer)
  answers_poll : ∀ {state j answer}, answers (poll state j answer) = (answers state).tail
  step : ∀ {state j}, Fits state → j < l.journalBlockCount →
    machine state (.readStatus (PmNode.block l.g (journal hot ram j))) =
      .ok ((answers state).headD .success, poll state j ((answers state).headD .success))

/-- The answers before the first die that is ready, each with the journal that was polled. -/
def pollLog (journals : List Nat) (answers : List Status) : List (Nat × Status) :=
  (answers.takeWhile (· ≠ .success)).zipIdx.map fun polled =>
    (journals.getD (polled.2 % journals.length) 0, polled.1)

/-- The journal that is polled when the first die is ready. -/
def selectedJournal (journals : List Nat) (answers : List Status) : Nat :=
  journals.getD ((answers.takeWhile (· ≠ .success)).length % journals.length) 0

theorem zipIdx_eq_zip {journals : List Nat} {round : List Status}
    (le : round.length ≤ journals.length) :
    (round.zipIdx.map fun polled => (journals.getD (polled.2 % journals.length) 0, polled.1)) =
      journals.zip round := by
  have lengths : (round.zipIdx.map fun polled =>
      (journals.getD (polled.2 % journals.length) 0, polled.1)).length =
      (journals.zip round).length := by
    rw [List.length_map, List.length_zipIdx, List.length_zip]
    omega
  refine List.ext_getElem lengths fun n isMapped isZipped => ?_
  have isAnswer : n < round.length := by simpa using isMapped
  have isJournal : n < journals.length := Nat.lt_of_lt_of_le isAnswer le
  simp only [List.getElem_map, List.getElem_zipIdx, Nat.zero_add, Nat.mod_eq_of_lt isJournal,
    List.getElem_zip, List.getD_eq_getElem?_getD, List.getElem?_eq_getElem isJournal,
    Option.getD_some]

theorem takeWhile_round {round rest : List Status}
    (noneReady : ∀ answer ∈ round, answer ≠ .success) :
    (round ++ rest).takeWhile (· ≠ .success) = round ++ rest.takeWhile (· ≠ .success) :=
  List.takeWhile_append_of_pos fun answer inside => decide_eq_true (noneReady answer inside)

/-- A round without a ready die comes first in the log. -/
theorem pollLog_append {journals : List Nat} {round rest : List Status}
    (length : round.length = journals.length) (noneReady : ∀ answer ∈ round, answer ≠ .success) :
    pollLog journals (round ++ rest) = journals.zip round ++ pollLog journals rest := by
  rw [pollLog, takeWhile_round noneReady, List.zipIdx_append, List.map_append,
    zipIdx_eq_zip length.le, Nat.zero_add, List.zipIdx_eq_map_add, List.map_map, length]
  refine congrArg _ (List.map_congr_left fun polled _ => ?_)
  simp only [Function.comp, Nat.add_mod_left]

theorem selectedJournal_append {journals : List Nat} {round rest : List Status}
    (length : round.length = journals.length) (noneReady : ∀ answer ∈ round, answer ≠ .success) :
    selectedJournal journals (round ++ rest) = selectedJournal journals rest := by
  rw [selectedJournal, takeWhile_round noneReady, List.length_append, length, Nat.add_mod_left]
  rfl

theorem length_pollLog {journals : List Nat} {answers : List Status} :
    (pollLog journals answers).length = (answers.takeWhile (· ≠ .success)).length := by
  rw [pollLog, List.length_map, List.length_zipIdx]

/-- Behind the log the next answer is ready. -/
theorem headD_drop_pollLog {journals : List Nat} (answers : List Status) :
    (answers.drop (pollLog journals answers).length).headD .success = .success := by
  rw [length_pollLog]
  induction answers with
  | nil => rfl
  | cons answer answers ih =>
      by_cases ready : answer = .success
      · rw [List.takeWhile_cons_of_neg (by simpa using ready), ready]
        rfl
      · rw [List.takeWhile_cons_of_pos (by simpa using ready)]
        exact ih

theorem getD_mod_mem {journals : List Nat} (some : 0 < journals.length) (n : Nat) :
    journals.getD (n % journals.length) 0 ∈ journals := by
  have inside := Nat.mod_lt n some
  rw [List.getD_eq_getElem?_getD, List.getElem?_eq_getElem inside, Option.getD_some]
  exact List.getElem_mem inside

theorem selectedJournal_mem {journals : List Nat} (some : 0 < journals.length)
    (answers : List Status) : selectedJournal journals answers ∈ journals :=
  getD_mod_mem some _

theorem mem_pollLog {journals : List Nat} (some : 0 < journals.length) {answers : List Status}
    {polled : Nat × Status} (inside : polled ∈ pollLog journals answers) :
    polled.1 ∈ journals := by
  obtain ⟨_, _, rfl⟩ := List.mem_map.mp inside
  exact getD_mod_mem some _

namespace PolledBy

variable {machine : Machine (UbiOp D) (UbiAns D) E}
  (device : PolledBy l hot ram machine) {state : E}

/-- The state after some polls. -/
def polls (state : E) (log : List (Nat × Status)) : E :=
  log.foldl (fun state polled => device.poll state polled.1 polled.2) state

theorem polls_append (log log' : List (Nat × Status)) :
    device.polls state (log ++ log') = device.polls (device.polls state log) log' :=
  List.foldl_append

theorem answers_polls (log : List (Nat × Status)) :
    device.answers (device.polls state log) = (device.answers state).drop log.length := by
  induction log generalizing state with
  | nil => rfl
  | cons polled log ih =>
      rw [polls, List.foldl_cons, ← polls, ih, device.answers_poll, List.drop_tail]
      rfl

theorem fits_polls {log : List (Nat × Status)} (fits : device.Fits state)
    (areJournals : ∀ polled ∈ log, polled.1 < l.journalBlockCount) :
    device.Fits (device.polls state log) := by
  induction log generalizing state with
  | nil => exact fits
  | cons polled log ih =>
      exact ih (device.fits_poll fits (areJournals polled List.mem_cons_self))
        fun later inside => areJournals later (List.mem_cons_of_mem _ inside)

/-- A round in which no die is ready takes one answer for each journal with room. -/
theorem exec_dataFindReady_none {rounds j : Nat} {ret : Status} (fits : device.Fits state)
    (total : j + rounds = l.journalBlockCount) {round rest : List Status}
    (split : device.answers state = round ++ rest)
    (length : round.length = (openJournals l hot ram rounds j).length)
    (noneReady : ∀ answer ∈ round, answer ≠ .success) :
    ((dataFindReady l hot rounds j ret).run ram).exec machine state =
      .ok (((none, round.getLastD ret), ram),
        device.polls state ((openJournals l hot ram rounds j).zip round)) := by
  induction rounds generalizing j ret state round with
  | zero =>
      obtain rfl : round = [] := List.length_eq_zero_iff.mp length
      rfl
  | succ rounds ih =>
      rw [openJournals_succ] at length ⊢
      unfold dataFindReady
      rw [Code.exec_bind_of_ok (Code.exec_get ram state)]
      split at length
      · rename_i room
        obtain ⟨answer, others, rfl⟩ := List.exists_cons_of_length_eq_add_one length
        have notReady := noneReady answer List.mem_cons_self
        have isJournal : j < l.journalBlockCount := by omega
        have step := device.step fits isJournal
        have left : device.answers (device.poll state j answer) = others ++ rest := by
          rw [device.answers_poll, split]
          rfl
        rw [split] at step
        rw [if_pos room, if_pos room, ubiReadStatus, Code.exec_bind_of_ok (Code.exec_perform step),
          List.cons_append, List.headD_cons, if_neg notReady, List.getLastD_cons]
        exact ih (device.fits_poll fits isJournal) (by omega) left (Nat.succ.inj length)
          fun answer inside => noneReady answer (List.mem_cons_of_mem _ inside)
      · rename_i full
        rw [if_neg full, if_neg full]
        exact ih fits (by omega) split length noneReady

/-- A round with a ready die selects its journal. -/
theorem exec_dataFindReady_some {rounds j : Nat} {ret : Status} (fits : device.Fits state)
    (total : j + rounds = l.journalBlockCount) {busy : List Status}
    (isBusy : (device.answers state).takeWhile (· ≠ .success) = busy)
    (ready : busy.length < (openJournals l hot ram rounds j).length) :
    ((dataFindReady l hot rounds j ret).run ram).exec machine state =
      .ok (((some ((openJournals l hot ram rounds j).getD busy.length 0), .success), ram),
        device.polls state ((openJournals l hot ram rounds j).zip busy ++
          [((openJournals l hot ram rounds j).getD busy.length 0, .success)])) := by
  induction rounds generalizing j ret state busy with
  | zero => exact absurd ready (Nat.not_lt_zero _)
  | succ rounds ih =>
      rw [openJournals_succ] at ready ⊢
      unfold dataFindReady
      rw [Code.exec_bind_of_ok (Code.exec_get ram state)]
      split at ready
      · rename_i room
        have isJournal : j < l.journalBlockCount := by omega
        rw [if_pos room, if_pos room, ubiReadStatus,
          Code.exec_bind_of_ok (Code.exec_perform (device.step fits isJournal))]
        by_cases success : (device.answers state).headD .success = .success
        · -- the first die is ready
          obtain rfl : busy = [] := by
            rw [← isBusy]
            cases answers : device.answers state with
            | nil => rfl
            | cons answer rest =>
                rw [answers] at success
                rw [List.takeWhile_cons_of_neg (by simpa using success)]
          rw [if_pos success, success]
          rfl
        · rw [if_neg success]
          cases answers : device.answers state with
          | nil => exact absurd (by rw [answers]; rfl) success
          | cons answer rest =>
              rw [answers, List.headD_cons] at success
              have others : (device.answers (device.poll state j answer)).takeWhile
                  (· ≠ .success) = busy.tail := by
                rw [← isBusy, device.answers_poll, answers,
                  List.takeWhile_cons_of_pos (by simpa using success)]
                rfl
              have shape : busy = answer :: busy.tail := by
                rw [← others, ← isBusy, device.answers_poll, answers,
                  List.takeWhile_cons_of_pos (by simpa using success)]
                rfl
              rw [shape] at ready ⊢
              exact ih (device.fits_poll fits isJournal) (by omega) others
                (Nat.lt_of_succ_lt_succ ready)
      · rename_i full
        rw [if_neg full, if_neg full]
        exact ih fits (by omega) isBusy ready

end PolledBy

/-! ## The loop -/

/-- A round of `k` polls in which no die has become ready does not end with a failed program:
its last die is busy. -/
def RoundsEndBusy (k : Nat) (answers : List Status) : Prop :=
  ∀ n, (n + 1) * k ≤ answers.length → (∀ answer ∈ answers.take ((n + 1) * k), answer ≠ .success) →
    (answers.take ((n + 1) * k)).getLast? = some .dieBusy

theorem roundsEndBusy_ready {k : Nat} {answers : List Status}
    (ready : (answers.takeWhile (· ≠ .success)).length < k) : RoundsEndBusy k answers := by
  intro n length noneReady
  have one : k ≤ (n + 1) * k := Nat.le_mul_of_pos_left k (Nat.succ_pos n)
  rw [← List.take_append_drop ((n + 1) * k) answers, takeWhile_round noneReady,
    List.length_append, List.length_take] at ready
  omega

theorem roundsEndBusy_append {k : Nat} {answers rest : List Status} (pos : 0 < k)
    (length : answers.length = k) (noneReady : ∀ answer ∈ answers, answer ≠ .success) :
    RoundsEndBusy k (answers ++ rest) ↔
      answers.getLast? = some .dieBusy ∧ RoundsEndBusy k rest := by
  have first : (answers ++ rest).take k = answers := List.take_left' length
  have later :
      ∀ n, (answers ++ rest).take ((n + 1 + 1) * k) = answers ++ rest.take ((n + 1) * k) := by
    intro n
    rw [Nat.succ_mul, Nat.add_comm, ← length, List.take_length_add_append]
  constructor
  · intro ends
    constructor
    · have busy := ends 0 (by rw [List.length_append]; omega)
      rw [Nat.zero_add, Nat.one_mul, first] at busy
      exact busy noneReady
    · intro n inside noneReady'
      have busy := ends (n + 1) (by rw [List.length_append, Nat.succ_mul]; omega)
      rw [later] at busy
      have some : rest.take ((n + 1) * k) ≠ [] := by
        have positive : 0 < (n + 1) * k := Nat.mul_pos (Nat.succ_pos n) pos
        intro none
        have zero := congrArg List.length none
        rw [List.length_take, List.length_nil] at zero
        omega
      rw [List.getLast?_append, List.getLast?_eq_some_getLast some, Option.some_or,
        ← List.getLast?_eq_some_getLast some] at busy
      refine busy fun answer member => ?_
      rcases List.mem_append.mp member with member | member
      · exact noneReady answer member
      · exact noneReady' answer member
  · rintro ⟨busy, ends⟩ n inside noneReady'
    cases n with
    | zero =>
        rw [Nat.zero_add, Nat.one_mul, first]
        exact busy
    | succ n =>
        rw [later] at noneReady' ⊢
        rw [List.length_append, Nat.succ_mul] at inside
        have busy' := ends n (by omega) fun answer member =>
          noneReady' answer (List.mem_append_right _ member)
        rw [List.getLast?_append, busy']
        rfl

theorem pollsPerRound_pos (room : ∃ j < l.journalBlockCount, JournalHasRoom l hot ram j) :
    0 < pollsPerRound l hot ram := by
  obtain ⟨j, isJournal, hasRoom⟩ := room
  have member : j ∈ openJournals l hot ram l.journalBlockCount 0 :=
    mem_openJournals.mpr ⟨⟨Nat.zero_le j, by omega⟩, hasRoom⟩
  exact List.length_pos_of_mem member

namespace PolledBy

variable {machine : Machine (UbiOp D) (UbiAns D) E} (device : PolledBy l hot ram machine)
  {state : E}

/-- What the search does when all its rounds end with a busy die: it ends at the first die that
is ready. -/
def Selects (state : E) (ret : Status) : Prop :=
  ∃ rounds, ∀ fuel, ((dataFindLoop l hot fuel ret).run ram).exec machine state =
    if fuel ≤ rounds then .error .fuel
    else .ok (((selectedJournal (openJournals l hot ram l.journalBlockCount 0)
        (device.answers state), .success), ram),
      device.polls state (pollLog (openJournals l hot ram l.journalBlockCount 0)
          (device.answers state) ++
        [(selectedJournal (openJournals l hot ram l.journalBlockCount 0) (device.answers state),
          .success)]))

/-- The search ends with the status of a poll that was not answered ready. -/
def Fails (machine : Machine (UbiOp D) (UbiAns D) E) (hot : Bool) (ram : FtlRam) (state : E)
    (ret : Status) : Prop :=
  ∃ fuel j last after, last ≠ .success ∧
    ((dataFindLoop l hot fuel ret).run ram).exec machine state = .ok (((j, last), ram), after)

theorem selects_ready {ret : Status} (fits : device.Fits state)
    (ready : ((device.answers state).takeWhile (· ≠ .success)).length < pollsPerRound l hot ram) :
    device.Selects state ret := by
  refine ⟨0, fun fuel => ?_⟩
  cases fuel with
  | zero => rfl
  | succ fuel =>
      rw [if_neg (Nat.not_succ_le_zero fuel), dataFindLoop,
        Code.exec_bind_of_ok (device.exec_dataFindReady_some fits (Nat.zero_add _) rfl ready),
        pollLog, zipIdx_eq_zip ready.le, selectedJournal,
        Nat.mod_eq_of_lt (show _ < (openJournals l hot ram l.journalBlockCount 0).length
          from ready)]
      rfl

/-- A round in which no die is ready decides the search, or goes before it. -/
theorem exec_dataFindLoop_round (fuel : Nat) (ret : Status) {last : Status}
    {round rest : List Status} (fits : device.Fits state)
    (split : device.answers state = round ++ rest) (length : round.length = pollsPerRound l hot ram)
    (noneReady : ∀ answer ∈ round, answer ≠ .success) (isLast : round.getLast? = some last) :
    ((dataFindLoop l hot (fuel + 1) ret).run ram).exec machine state =
      ((if last = .dieBusy then dataFindLoop l hot fuel last
        else pure (0, last) : FtlCode D (Nat × Status)).run ram).exec machine
          (device.polls state ((openJournals l hot ram l.journalBlockCount 0).zip round)) := by
  have run : ((dataFindReady l hot l.journalBlockCount 0 ret).run ram).exec machine state = _ :=
    device.exec_dataFindReady_none fits (Nat.zero_add _) split length noneReady
  rw [List.getLastD_eq_getLast?, isLast, Option.getD_some] at run
  rw [dataFindLoop, Code.exec_bind_of_ok run]
  rfl

theorem mem_zip_openJournals {round : List Status} {polled : Nat × Status}
    (inside : polled ∈ (openJournals l hot ram l.journalBlockCount 0).zip round) :
    polled.1 < l.journalBlockCount := by
  have member :=
    (mem_openJournals.mp (List.of_mem_zip (a := polled.1) (b := polled.2) inside).1).1.2
  omega

/-- The search selects the journal of the first ready die if no round of polls in front of it ends
with a failed program; else it ends with that failure. -/
theorem exec_dataFindLoop {ret : Status} (fits : device.Fits state)
    (room : ∃ j < l.journalBlockCount, JournalHasRoom l hot ram j) :
    (RoundsEndBusy (pollsPerRound l hot ram) (device.answers state) → device.Selects state ret) ∧
      (¬ RoundsEndBusy (pollsPerRound l hot ram) (device.answers state) →
        Fails (l := l) machine hot ram state ret) := by
  have pos := pollsPerRound_pos room
  generalize bound : (device.answers state).length = size
  induction size using Nat.strongRecOn generalizing ret state with
  | _ size ih =>
      by_cases ready : ((device.answers state).takeWhile (· ≠ .success)).length <
          pollsPerRound l hot ram
      · exact ⟨fun _ => device.selects_ready fits ready,
          fun wrong => absurd (roundsEndBusy_ready ready) wrong⟩
      · obtain ⟨round, rest, split, length, noneReady⟩ : ∃ round rest,
            device.answers state = round ++ rest ∧ round.length = pollsPerRound l hot ram ∧
              ∀ answer ∈ round, answer ≠ .success := by
          have enough := Nat.le_of_not_lt ready
          refine ⟨((device.answers state).takeWhile (· ≠ .success)).take (pollsPerRound l hot ram),
            ((device.answers state).takeWhile (· ≠ .success)).drop (pollsPerRound l hot ram) ++
              (device.answers state).dropWhile (· ≠ .success), ?_, List.length_take_of_le enough,
            fun answer inside => ?_⟩
          · rw [← List.append_assoc, List.take_append_drop, List.takeWhile_append_dropWhile]
          · have met := List.mem_takeWhile_imp (List.mem_of_mem_take inside)
            exact of_decide_eq_true met
        have some : round ≠ [] := List.ne_nil_of_length_pos (length ▸ pos)
        have isLast := List.getLast?_eq_some_getLast some
        have next := fun fuel =>
          device.exec_dataFindLoop_round fuel ret fits split length noneReady isLast
        have fits' : device.Fits (device.polls state
            ((openJournals l hot ram l.journalBlockCount 0).zip round)) :=
          device.fits_polls fits fun _ => mem_zip_openJournals
        have zipped : ((openJournals l hot ram l.journalBlockCount 0).zip round).length =
            round.length := by
          rw [List.length_zip, length]
          exact Nat.min_self _
        have left : device.answers (device.polls state
            ((openJournals l hot ram l.journalBlockCount 0).zip round)) = rest := by
          rw [device.answers_polls, split, zipped, List.drop_left]
        rw [split, roundsEndBusy_append pos length noneReady, isLast, Option.some_inj]
        by_cases busy : round.getLast some = .dieBusy
        · -- the search goes on with the rest of the answers
          have shorter : rest.length < size := by
            rw [← bound, split, List.length_append]
            omega
          obtain ⟨selects, fails⟩ := @ih rest.length shorter _ (round.getLast some) fits'
            (congrArg _ left)
          rw [left] at selects fails
          simp only [if_pos busy] at next
          constructor
          · rintro ⟨-, ends⟩
            obtain ⟨rounds, runs⟩ := selects ends
            refine ⟨rounds + 1, fun fuel => ?_⟩
            cases fuel with
            | zero => rw [if_pos (Nat.zero_le _)]; rfl
            | succ fuel =>
                rw [next, runs, left, split, pollLog_append length noneReady,
                  selectedJournal_append length noneReady, List.append_assoc, device.polls_append,
                  device.polls_append]
                exact if_congr Nat.succ_le_succ_iff.symm rfl (by rw [← device.polls_append])
          · intro wrong
            obtain ⟨fuel, j, last, after, notReady, run⟩ :=
              fails fun ends => wrong ⟨busy, ends⟩
            exact ⟨fuel + 1, j, last, after, notReady, (next fuel).trans run⟩
        · -- the round ends with a failed program
          constructor
          · exact fun both => absurd both.1 busy
          · intro _
            have run := next 0
            rw [if_neg busy] at run
            exact ⟨1, 0, round.getLast some, _, noneReady _ (List.getLast_mem some), run⟩

end PolledBy

/-! ## Writes -/

/-- The write of a page to journal `j`, and what follows: the page at the pointer of the
journal is programmed, and its spare area is in row `j` of the table. -/
def programJournal (l : Layout) (fuel : Nat) (hot : Bool) (ram : FtlRam) (j addr : Nat)
    (content : D) : Prog (UbiOp D) (UbiAns D) (Status × FtlRam) :=
  .call (.write (PmNode.block l.g (journal hot ram j)) (PmNode.page l.g (journal hot ram j))
      (.data content) (some ⟨addr, edition hot ram⟩) true) fun ret =>
    (dataAppended l fuel hot j addr (PmNode.block l.g (journal hot ram j))
      (PmNode.page l.g (journal hot ram j)) ret).run (numberPage l hot j addr ram)

/-- The page gets its row in the table of journal `j`, and no other row changes. -/
theorem journalMeta_numberPage (j addr : Nat) :
    journalMeta hot (numberPage l hot j addr ram) =
      Function.update (journalMeta hot ram) j
        (Function.update (journalMeta hot ram j) (PmNode.page l.g (journal hot ram j))
          ⟨addr, edition hot ram⟩) := by
  cases hot <;> rfl

/-- What follows a search that has selected a journal. -/
theorem exec_dataWrite {machine : Machine (UbiOp D) (UbiAns D) E} {state after : E}
    {fuel j addr : Nat} {content : D}
    (search : ((dataFindLoop l hot fuel .success).run ram).exec machine state =
      .ok (((j, .success), ram), after)) :
    ((dataWrite l fuel addr (some content) hot).run ram).exec machine state =
      (programJournal l fuel hot ram j addr content).exec machine after := by
  rw [dataWrite, Code.exec_bind_of_ok search]
  rfl

end OpenNfm.Ftl
