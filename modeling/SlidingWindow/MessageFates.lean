import SlidingWindow.SettingsManager
import SlidingWindow.Framing
import Mathlib.Data.List.Dedup
import Mathlib.Data.List.TakeWhile
import Mathlib.Tactic.Positivity

/-! What the error library does to the messages of a process, from the moment `main` has
set it up: which of them it drops, which it alters and what it tells the caller. -/
namespace SlidingWindow.MessageFates

open PacketManager Library

variable {m : PacketManager} {dropList history : List ℕ} {buf : Bytes} {msgNo : ℕ}

def tally (history : List ℕ) : No2Count :=
  history.foldl (fun count seqNo => No2Count.increment seqNo count) []

/-- A list of messages to drop stands before the journal, so it keeps them out of it. -/
def standardEvents (dropList history : List ℕ) : List MsgEvent :=
  (if dropList = [] then [] else [.errorDrop false dropList]) ++
    [.infoSeqNo history (tally history)]

structure Configured (dropList history : List ℕ) (m : PacketManager) : Prop where
  rand : m.rand < randRange
  constant : m.constant = standardEvents dropList history
  chance : ∀ event ∈ m.chance, event = .errorDrop true [] ∨ event = .errorFlipBits

/-- What message `msgNo` of a process turns into; only later messages than the first are
altered at random, and only if a random event for it has been asked for. -/
inductive Fate (errorRate : ℚ) (chance : List MsgEvent) (dropList : List ℕ) (msgNo : ℕ)
    (buf : Bytes) : Option Datagram → Prop
  | listed (mem : msgNo ∈ dropList) : Fate errorRate chance dropList msgNo buf none
  | intact (mem : msgNo ∉ dropList) : Fate errorRate chance dropList msgNo buf (some buf)
  | dropped (later : 1 < msgNo) (rate : 0 ≤ errorRate) (asked : .errorDrop true [] ∈ chance) :
      Fate errorRate chance dropList msgNo buf none
  | flipped (mem : msgNo ∉ dropList) (later : 1 < msgNo) (rate : 0 ≤ errorRate)
      (asked : .errorFlipBits ∈ chance) (i : ℕ) (bound : i < buf.length) :
      Fate errorRate chance dropList msgNo buf (some (flipByte buf i))

def journal (dropList history : List ℕ) (msgNo : ℕ) (buf : Bytes) : List ℕ :=
  if msgNo ∈ dropList then history else history ++ [seqNumOf buf]

/-- The messages in a list variable; none if it is not set, or holds no message number. -/
def listed (text : Option Bytes) : List ℕ :=
  match text with
  | some text => SettingsManager.parserLong2Uint32 (SettingsManager.parser2ListLong text)
  | none => []

/-- What may leave for message `number`: never one that a list drops, the first always as it
is, and another one at random lost, or with one byte changed, in which case `recv_buf`
rejects it. -/
def Leaves (env : Environment) (number : ℕ) (buf : Bytes) : Option Datagram → Prop
  | none => number ∈ listed env.errDrop ∨ 1 < number ∧ listed env.errDrop = []
  | some datagram => number ∉ listed env.errDrop ∧ (datagram = buf ∨
      1 < number ∧ listed env.errFlip = [] ∧ ∃ i, i < buf.length ∧ datagram = flipByte buf i ∧
        (inCksum buf = 0 → buf.length ≤ maxPacketLen → recvBuf datagram = .ok none))

theorem tally_concat (history : List ℕ) (seqNo : ℕ) :
    tally (history ++ [seqNo]) = No2Count.increment seqNo (tally history) := by
  simp [tally]

theorem runMsgEvents_standard (dropList history : List ℕ) (msgNo : ℕ) (buf : Bytes)
    (rand : ℕ) :
    runMsgEvents msgNo (standardEvents dropList history) buf rand =
      .ok ⟨standardEvents dropList (journal dropList history msgNo buf),
        if msgNo ∈ dropList then .drop else .noChange, buf, rand⟩ := by
  by_cases hlist : dropList = []
  · subst hlist
    simp [standardEvents, journal, runMsgEvents, MsgEvent.run, tally_concat, seqNumOf, bind,
      Except.bind, pure, Except.pure]
  · by_cases hmem : msgNo ∈ dropList
    · simp [standardEvents, journal, runMsgEvents, MsgEvent.run, hlist, hmem, bind,
        Except.bind, pure, Except.pure]
    · simp [standardEvents, journal, runMsgEvents, MsgEvent.run, hlist, hmem, tally_concat,
        seqNumOf, bind, Except.bind, pure, Except.pure]

theorem run_random (msgNo rand : ℕ) {event : MsgEvent}
    (hevent : event = .errorDrop true [] ∨ event = .errorFlipBits) (hbuf : buf ≠ []) :
    ∃ ran, event.run buf msgNo rand = .ok ran ∧ ran.events = event ∧
      (rand < randRange → ran.rand < randRange) ∧
      (event = .errorDrop true [] ∧ ran.result = .drop ∨
        event = .errorFlipBits ∧ ran.result = .change ∧
          ∃ i, i < buf.length ∧ ran.buf = flipByte buf i) := by
  rcases hevent with rfl | rfl
  · exact ⟨_, rfl, rfl, id, .inl ⟨rfl, by simp⟩⟩
  · have hlt := scaled_lt (List.length_pos_iff.mpr hbuf) (nextRand_lt rand)
    refine ⟨⟨.errorFlipBits, .change, flipByte buf (scaled buf.length (nextRand rand)),
      nextRand rand⟩, ?_, rfl, fun _ => nextRand_lt rand, .inr ⟨rfl, rfl, _, hlt, rfl⟩⟩
    simp only [MsgEvent.run]
    rw [if_neg (by omega)]

theorem randNum_nonneg (rand : ℕ) : 0 ≤ randNum rand := by
  unfold randNum
  positivity

theorem runChance_spec (hchance : ∀ event ∈ m.chance,
    event = .errorDrop true [] ∨ event = .errorFlipBits) (hbuf : buf ≠ []) (result : RunResult) :
    ∃ rand result' buf', m.runChance result buf = .ok ({ m with rand := rand }, result', buf') ∧
      rand < randRange ∧
      (result' = result ∧ buf' = buf ∨ 0 ≤ m.errorRate ∧
        (.errorDrop true [] ∈ m.chance ∧ result' = .drop ∨
          .errorFlipBits ∈ m.chance ∧ (result' = if result = .drop then .drop else .change) ∧
            ∃ i, i < buf.length ∧ buf' = flipByte buf i)) := by
  unfold runChance
  dsimp only
  by_cases hrandom : 0 < m.chance.length ∧ randNum (nextRand m.rand) ≤ m.errorRate
  · rw [if_pos hrandom]
    have hrate : 0 ≤ m.errorRate := le_trans (randNum_nonneg _) hrandom.2
    have hcase := scaled_lt hrandom.1 (nextRand_lt (nextRand m.rand))
    have hget := List.getElem?_eq_getElem hcase
    have hmem := List.getElem_mem hcase
    generalize m.chance[scaled m.chance.length (nextRand (nextRand m.rand))] = event at hget hmem
    obtain ⟨ran, hran, hsame, hrand, hwhich⟩ :=
      run_random m.msgNo (nextRand (nextRand m.rand)) (hchance event hmem) hbuf
    have hset : m.chance.set (scaled m.chance.length (nextRand (nextRand m.rand))) ran.events =
        m.chance := by
      obtain ⟨_, hevent⟩ := List.getElem?_eq_some_iff.mp hget
      rw [hsame, ← hevent, List.set_getElem_self]
    rw [hget]
    refine ⟨ran.rand, if result = .drop then .drop else ran.result, ran.buf, ?_,
      hrand (nextRand_lt _), .inr ⟨hrate, ?_⟩⟩
    · simp only [hran, bind, Except.bind, pure, Except.pure, hset]
    · rcases hwhich with ⟨rfl, hdrop⟩ | ⟨rfl, hchange, hflip⟩
      · exact .inl ⟨hmem, by rw [hdrop, ite_self]⟩
      · exact .inr ⟨hmem, by rw [hchange], hflip⟩
  · rw [if_neg hrandom]
    exact ⟨_, _, _, rfl, nextRand_lt _, .inl ⟨rfl, rfl⟩⟩

theorem Configured.sendtoErr (h : Configured dropList history m) (hbuf : buf ≠ []) :
    ∃ rand fate, m.sendtoErr buf =
        .ok ({ m with
          msgNo := u32 (m.msgNo + 1)
          constant := standardEvents dropList
            (journal dropList history (u32 (m.msgNo + 1)) buf)
          rand := rand }, ⟨fate, buf.length⟩) ∧
      rand < randRange ∧
      Fate m.errorRate m.chance dropList (u32 (m.msgNo + 1)) buf fate := by
  have hlength : buf.length ≠ 0 := by simpa using hbuf
  unfold PacketManager.sendtoErr
  rw [if_neg hlength]
  simp only [processEvents, h.constant, runMsgEvents_standard, bind, Except.bind]
  by_cases hlater : 1 < u32 (m.msgNo + 1)
  · rw [if_pos hlater]
    obtain ⟨rand, result, buf', hrun, hrand, hcases⟩ :=
      runChance_spec (m := { m with
        msgNo := u32 (m.msgNo + 1)
        constant := standardEvents dropList
          (journal dropList history (u32 (m.msgNo + 1)) buf) }) h.chance hbuf
        (if u32 (m.msgNo + 1) ∈ dropList then .drop else .noChange)
    rw [hrun]
    refine ⟨rand, _, rfl, hrand, ?_⟩
    rcases hcases with ⟨rfl, rfl⟩ | ⟨hrate, ⟨hasked, rfl⟩ | ⟨hasked, rfl, i, hi, rfl⟩⟩
    · by_cases hmem : u32 (m.msgNo + 1) ∈ dropList
      · simpa [hmem] using Fate.listed hmem
      · simpa [hmem] using Fate.intact hmem
    · exact .dropped hlater hrate hasked
    · by_cases hmem : u32 (m.msgNo + 1) ∈ dropList
      · simpa [hmem] using Fate.listed hmem
      · simpa [hmem] using Fate.flipped hmem hlater hrate hasked i hi
  · rw [if_neg hlater]
    refine ⟨m.rand, _, rfl, h.rand, ?_⟩
    by_cases hmem : u32 (m.msgNo + 1) ∈ dropList
    · simpa [hmem] using Fate.listed hmem
    · simpa [hmem] using Fate.intact hmem

def sendAll (m : PacketManager) : List Bytes → Except Fault (PacketManager × List SendResult)
  | [] => .ok (m, [])
  | buf :: rest => do
      let (m, result) ← m.sendtoErr buf
      let (m, results) ← sendAll m rest
      return (m, result :: results)

def reported (dropList : List ℕ) (msgNo : ℕ) (bufs : List Bytes) : List ℕ :=
  ((bufs.zipIdx (msgNo + 1)).filter fun message => message.2 ∉ dropList).map
    fun message => seqNumOf message.1

theorem journal_append_reported {bufs : List Bytes} :
    journal dropList history (msgNo + 1) buf ++ reported dropList (msgNo + 1) bufs =
      history ++ reported dropList msgNo (buf :: bufs) := by
  by_cases hmem : msgNo + 1 ∈ dropList <;> simp [journal, reported, hmem]

theorem Configured.sendAll (h : Configured dropList history m) {bufs : List Bytes}
    (hbufs : ∀ buf ∈ bufs, buf ≠ []) (hcount : m.msgNo + bufs.length < 4294967296) :
    ∃ m' results, sendAll m bufs = .ok (m', results) ∧
      Configured dropList (history ++ reported dropList m.msgNo bufs) m' ∧
      results.map SendResult.length = bufs.map List.length ∧
      ∀ i buf, bufs[i]? = some buf → ∃ result, results[i]? = some result ∧
        Fate m.errorRate m.chance dropList (m.msgNo + i + 1) buf result.sent := by
  induction bufs generalizing m history with
  | nil => exact ⟨m, [], rfl, by simpa [reported] using h, rfl, by simp⟩
  | cons buf bufs ih =>
      rw [List.length_cons] at hcount
      have hnext : u32 (m.msgNo + 1) = m.msgNo + 1 := u32_of_lt (by omega)
      obtain ⟨rand, fate, hsend, hrand, hfate⟩ := h.sendtoErr (hbufs buf List.mem_cons_self)
      rw [hnext] at hsend hfate
      obtain ⟨m', results, hsends, hafter, hlengths, hfates⟩ :=
        ih (m := { m with
            msgNo := m.msgNo + 1
            constant := standardEvents dropList (journal dropList history (m.msgNo + 1) buf)
            rand := rand })
          ⟨hrand, rfl, h.chance⟩ (fun other hother => hbufs other (List.mem_cons_of_mem _ hother))
          (by dsimp only; omega)
      refine ⟨m', ⟨fate, buf.length⟩ :: results, ?_, ?_, ?_, ?_⟩
      · simp only [MessageFates.sendAll, hsend, hsends, bind, Except.bind, pure, Except.pure]
      · rwa [journal_append_reported] at hafter
      · simp [hlengths]
      · intro i other hother
        cases i with
        | zero =>
            simp only [List.getElem?_cons_zero, Option.some.injEq] at hother
            subst hother
            exact ⟨_, rfl, hfate⟩
        | succ i =>
            obtain ⟨result, hresult, hother⟩ := hfates i other hother
            refine ⟨result, hresult, ?_⟩
            rwa [show m.msgNo + (i + 1) + 1 = m.msgNo + 1 + i + 1 by omega]

section Settings

variable (env : Environment) (errorRate : ℚ) (loaded called : ℤ)

theorem srand48_lt (seed : ℤ) : srand48 seed < randRange := by
  simp only [srand48, randRange]
  omega

def randomEvents (longs : Option (List ℤ)) (event : MsgEvent) : List MsgEvent × List MsgEvent :=
  match longs with
  | some longs => (if SettingsManager.parserLong2Uint32 longs = [] then [event] else [], [])
  | none => ([], [event])

theorem loadEnvDataErrDrop_eq (s : SettingsManager) (m : PacketManager) :
    s.loadEnvDataErrDrop m = { m with
      constant := m.constant ++ match s.errDrop with
        | some longs => if SettingsManager.parserLong2Uint32 longs = [] then []
            else [.errorDrop false (SettingsManager.parserLong2Uint32 longs)]
        | none => []
      chance := m.chance ++ (randomEvents s.errDrop (.errorDrop true [])).1 } := by
  unfold SettingsManager.loadEnvDataErrDrop randomEvents
  cases s.errDrop with
  | none => simp
  | some longs =>
      by_cases hnone : SettingsManager.parserLong2Uint32 longs = [] <;>
        simp [hnone, PacketManager.addMsgEventRandom, PacketManager.addMsgEventStandard]

theorem loadEnvDataErrFlip_eq (s : SettingsManager) (m : PacketManager) :
    s.loadEnvDataErrFlip m =
      { m with chance := m.chance ++ (randomEvents s.errFlip .errorFlipBits).1 } := by
  unfold SettingsManager.loadEnvDataErrFlip randomEvents
  cases s.errFlip with
  | none => simp
  | some longs =>
      by_cases hnone : SettingsManager.parserLong2Uint32 longs = [] <;>
        simp [hnone, PacketManager.addMsgEventRandom]

theorem loadEnvDataSeedRand_eq (s : SettingsManager) (m : PacketManager) :
    s.loadEnvDataSeedRand m = { m with rand := (s.seedRand.map srand48).getD m.rand } := by
  unfold SettingsManager.loadEnvDataSeedRand
  cases s.seedRand <;> rfl

theorem loadEnvDataErrRate_eq (s : SettingsManager) (m : PacketManager) :
    s.loadEnvDataErrRate m = { m with errorRate := s.errRate.getD m.errorRate } := by
  unfold SettingsManager.loadEnvDataErrRate
  cases s.errRate <;> rfl

theorem setUserModeErrRate_eq (s : SettingsManager) (m : PacketManager) (rate : ℚ) :
    s.setUserModeErrRate m rate =
      { m with errorRate := if s.errRate.isSome then m.errorRate else rate } := by
  unfold SettingsManager.setUserModeErrRate
  split <;> rfl

theorem setUserModeErrDrop_eq (s : SettingsManager) (m : PacketManager) :
    s.setUserModeErrDrop m true =
      { m with chance := m.chance ++ (randomEvents s.errDrop (.errorDrop true [])).2 } := by
  unfold SettingsManager.setUserModeErrDrop randomEvents
  cases s.errDrop <;> simp [PacketManager.addMsgEventRandom]

theorem setUserModeErrFlip_eq (s : SettingsManager) (m : PacketManager) :
    s.setUserModeErrFlip m true =
      { m with chance := m.chance ++ (randomEvents s.errFlip .errorFlipBits).2 } := by
  unfold SettingsManager.setUserModeErrFlip randomEvents
  cases s.errFlip <;> simp [PacketManager.addMsgEventRandom]

theorem setUserModeSeedRand_eq (s : SettingsManager) (m : PacketManager) (seed : ℤ) :
    s.setUserModeSeedRand m seed =
      { m with rand := if s.seedRand.isSome then m.rand else srand48 seed } := by
  unfold SettingsManager.setUserModeSeedRand
  split <;> rfl

theorem linked_eq : linked env errorRate loaded called =
    { errorRate := env.errRate.getD errorRate
      msgNo := 0
      constant := standardEvents (listed env.errDrop) []
      chance :=
        (randomEvents (env.errDrop.map SettingsManager.parser2ListLong) (.errorDrop true [])).1 ++
          (randomEvents (env.errFlip.map SettingsManager.parser2ListLong) .errorFlipBits).1 ++
          (randomEvents (env.errDrop.map SettingsManager.parser2ListLong) (.errorDrop true [])).2 ++
          (randomEvents (env.errFlip.map SettingsManager.parser2ListLong) .errorFlipBits).2
      rand := srand48 ((env.seedRand.bind strtol).getD called) } := by
  simp only [linked, SettingsManager.sendErrInit, SettingsManager.load, if_true,
    loadEnvDataErrFlip_eq, loadEnvDataErrDrop_eq, loadEnvDataErrRate_eq, loadEnvDataSeedRand_eq,
    setUserModeErrRate_eq, setUserModeErrDrop_eq, setUserModeErrFlip_eq, setUserModeSeedRand_eq,
    PacketManager.addMsgEventStandard, PacketManager.initial, SettingsManager.loadEnvData,
    PacketManager.mk.injEq, List.nil_append, true_and]
  refine ⟨?_, ?_, ?_⟩
  · cases env.errRate <;> simp
  · cases env.errDrop with
    | none => simp [standardEvents, listed, tally]
    | some text =>
        by_cases hnone : listed (some text) = []
        · simp [standardEvents, hnone, tally, show SettingsManager.parserLong2Uint32
            (SettingsManager.parser2ListLong text) = [] from hnone]
        · simp [standardEvents, tally, listed, show ¬ SettingsManager.parserLong2Uint32
            (SettingsManager.parser2ListLong text) = [] from hnone]
  · cases env.seedRand.bind strtol <;> simp

theorem linked_configured :
    Configured (listed env.errDrop) [] (linked env errorRate loaded called) := by
  rw [linked_eq]
  refine ⟨srand48_lt _, rfl, ?_⟩
  intro event hevent
  simp only [randomEvents, List.mem_append] at hevent
  cases hdrop : env.errDrop <;> cases hflip : env.errFlip <;>
    simp only [hdrop, hflip, Option.map_none, Option.map_some] at hevent <;> grind

/-- A list of messages to drop, or to flip, replaces the random events of its kind. -/
theorem mem_chance_linked :
    (.errorDrop true [] ∈ (linked env errorRate loaded called).chance ↔
        listed env.errDrop = []) ∧
      (.errorFlipBits ∈ (linked env errorRate loaded called).chance ↔
        listed env.errFlip = []) := by
  rw [linked_eq]
  simp only [randomEvents, listed, List.mem_append]
  cases env.errDrop <;> cases env.errFlip <;> simp

end Settings

def listText (numbers : List ℕ) : Bytes := [44].intercalate (numbers.map Decimal.toText)

theorem toNat_of_isDigit {char : UInt8} (h : Decimal.isDigit char) :
    48 ≤ char.toNat ∧ char.toNat ≤ 57 := by
  simpa [Decimal.isDigit, UInt8.le_iff_toNat_le] using h

theorem strtol_toText {n : ℕ} (hle : (n : ℤ) ≤ longMax) :
    strtol (Decimal.toText n) = some (n : ℤ) := by
  have hdigits := Decimal.isDigit_of_mem_toText n
  have hvalue := Decimal.value_toText n
  have htake : (Decimal.toText n).takeWhile Decimal.isDigit = Decimal.toText n :=
    List.takeWhile_eq_self_iff.mpr hdigits
  have hne := Decimal.toText_ne_nil n
  generalize Decimal.toText n = text at *
  cases text with
  | nil => exact absurd rfl hne
  | cons char rest =>
      obtain ⟨hlower, hupper⟩ := toNat_of_isDigit (hdigits char List.mem_cons_self)
      have hspace : isSpace char = false := by
        simp [isSpace, UInt8.le_iff_toNat_le, ← UInt8.toNat_inj]
        omega
      have hminus : char ≠ 45 := by
        rintro rfl
        simp at hlower
      have hplus : char ≠ 43 := by
        rintro rfl
        simp at hlower
      simp only [strtol, List.dropWhile_cons, hspace, Bool.false_eq_true, if_false,
        List.head?_cons, Option.some.injEq, hminus, hplus, or_self, htake, hne, hvalue,
        min_eq_right hle]

theorem comma_notMem_toText (n : ℕ) : 44 ∉ Decimal.toText n := by
  intro hmem
  have := toNat_of_isDigit (Decimal.isDigit_of_mem_toText n 44 hmem)
  simp at this

theorem tokens_listText {numbers : List ℕ} (hne : numbers ≠ []) :
    tokens (listText numbers) 44 = numbers.map Decimal.toText := by
  rw [tokens, listText, List.splitOn_intercalate, List.filter_eq_self]
  · simp [Decimal.toText_ne_nil]
  · simpa using fun n _ => comma_notMem_toText n
  · simpa using hne

theorem readTokens_toText {numbers : List ℕ} (hle : ∀ n ∈ numbers, (n : ℤ) ≤ longMax) :
    SettingsManager.readTokens (numbers.map Decimal.toText) = numbers.map Int.ofNat := by
  induction numbers with
  | nil => rfl
  | cons n numbers ih =>
      rw [List.map_cons, SettingsManager.readTokens, strtol_toText (hle n List.mem_cons_self)]
      simp only [ih fun other hother => hle other (List.mem_cons_of_mem _ hother)]
      rfl

theorem listed_listText {numbers : List ℕ} (hne : numbers ≠ [])
    (hlt : ∀ n ∈ numbers, n < 4294967296) : listed (some (listText numbers)) = numbers := by
  have hle : ∀ n ∈ numbers, (n : ℤ) ≤ longMax := fun n hn => by
    have := hlt n hn
    simp only [longMax]
    omega
  simp only [listed, SettingsManager.parser2ListLong, tokens_listText hne,
    readTokens_toText hle, SettingsManager.parserLong2Uint32]
  rw [List.filter_eq_self.mpr (by simp), List.map_map]
  exact (List.map_congr_left fun n hn => u32_of_lt (hlt n hn)).trans (List.map_id _)

theorem lookup_cons_ite (n key found : ℕ) (count : No2Count) :
    List.lookup n ((key, found) :: count) = if n = key then some found else count.lookup n := by
  by_cases h : n = key
  · simp [h]
  · simp [List.lookup_cons, beq_false_of_ne h, h]

theorem lookup_increment (count : No2Count) (seqNo n : ℕ) :
    (No2Count.increment seqNo count).lookup n =
      if n = seqNo then some (u32 ((count.lookup n).getD 0 + 1)) else count.lookup n := by
  induction count with
  | nil => simp [No2Count.increment, u32]
  | cons entry count ih =>
      obtain ⟨key, found⟩ := entry
      by_cases hkey : key = seqNo
      · by_cases h : n = seqNo <;> simp [No2Count.increment, lookup_cons_ite, hkey, h]
      · by_cases h : n = key <;> simp [No2Count.increment, lookup_cons_ite, hkey, h, ih]

theorem keys_increment (count : No2Count) (seqNo : ℕ) :
    (No2Count.increment seqNo count).map Prod.fst =
      if seqNo ∈ count.map Prod.fst then count.map Prod.fst
      else count.map Prod.fst ++ [seqNo] := by
  induction count with
  | nil => rfl
  | cons entry count ih =>
      obtain ⟨key, found⟩ := entry
      by_cases hkey : key = seqNo
      · simp [No2Count.increment, hkey]
      · simp only [No2Count.increment, hkey, if_false, List.map_cons, ih, List.mem_cons,
          Ne.symm hkey, false_or]
        split <;> rfl

theorem mem_keys_tally (history : List ℕ) (n : ℕ) :
    n ∈ (tally history).map Prod.fst ↔ n ∈ history := by
  induction history using List.reverseRecOn with
  | nil => simp [tally]
  | append_singleton history seqNo ih =>
      rw [tally_concat, keys_increment]
      by_cases hmem : seqNo ∈ (tally history).map Prod.fst
      · rw [if_pos hmem, List.mem_append, List.mem_singleton, ih]
        exact ⟨.inl, fun h => h.elim id fun hlast => ih.mp (hlast ▸ hmem)⟩
      · rw [if_neg hmem, List.mem_append, List.mem_append, ih]

theorem nodup_keys_tally (history : List ℕ) : ((tally history).map Prod.fst).Nodup := by
  induction history using List.reverseRecOn with
  | nil => simp [tally]
  | append_singleton history seqNo ih =>
      rw [tally_concat, keys_increment]
      split
      · exact ih
      · rename_i hmem
        rw [← List.concat_eq_append]
        exact ih.concat hmem

theorem length_tally (history : List ℕ) : (tally history).length = history.dedup.length := by
  rw [← List.length_map Prod.fst]
  apply List.Perm.length_eq
  rw [List.perm_ext_iff_of_nodup (nodup_keys_tally history) (List.nodup_dedup history)]
  intro n
  rw [mem_keys_tally, List.mem_dedup]

theorem lookup_tally (history : List ℕ) (n : ℕ) :
    ((tally history).lookup n).getD 0 = u32 (history.count n) := by
  induction history using List.reverseRecOn with
  | nil => simp [tally, u32]
  | append_singleton history seqNo ih =>
      rw [tally_concat, lookup_increment]
      by_cases h : n = seqNo
      · rw [if_pos h, Option.getD_some, ih, h, List.count_append, List.count_singleton_self]
        simp [u32]
      · rw [if_neg h, ih, List.count_append, List.count_singleton, beq_false_of_ne (Ne.symm h)]
        simp

theorem flipByte_ne {i : ℕ} : byteAt buf i ^^^ 255 ≠ byteAt buf i := by
  intro h
  have hmask : byteAt buf i ^^^ (byteAt buf i ^^^ 255) = byteAt buf i ^^^ byteAt buf i :=
    congrArg (byteAt buf i ^^^ ·) h
  rw [← UInt8.xor_assoc, UInt8.xor_self, UInt8.zero_xor] at hmask
  exact absurd hmask (by decide)

theorem recvBuf_flipByte (haccepted : inCksum buf = 0) (hlength : buf.length ≤ maxPacketLen)
    {i : ℕ} (hi : i < buf.length) : recvBuf (flipByte buf i) = .ok none := by
  have hcksum := Framing.inCksum_set_ne_zero hlength haccepted hi flipByte_ne
  rw [recvBuf, List.take_of_length_le (by simpa [flipByte] using hlength)]
  exact if_pos hcksum

theorem leaves_of_fate {env : Environment} {errorRate : ℚ} {loaded called : ℤ} {number : ℕ}
    {sent : Option Datagram}
    (h : Fate (linked env errorRate loaded called).errorRate
      (linked env errorRate loaded called).chance (listed env.errDrop) number buf sent) :
    Leaves env number buf sent := by
  obtain ⟨hdrops, hflips⟩ := mem_chance_linked env errorRate loaded called
  cases h with
  | listed mem => exact .inl mem
  | intact mem => exact ⟨mem, .inl rfl⟩
  | dropped later _ asked => exact .inr ⟨later, hdrops.mp asked⟩
  | flipped mem later _ asked i bound =>
      exact ⟨mem, .inr ⟨later, hflips.mp asked, i, bound, rfl,
        fun haccepted hlength => recvBuf_flipByte haccepted hlength bound⟩⟩

section Linked

variable (env : Environment) (errorRate : ℚ) (loaded called : ℤ)

theorem linked_msgNo : (linked env errorRate loaded called).msgNo = 0 := by
  rw [linked_eq]

theorem sendAll_linked {bufs : List Bytes} (hbufs : ∀ buf ∈ bufs, headerLen ≤ buf.length)
    (hcount : bufs.length < 4294967296) :
    ∃ m results, sendAll (linked env errorRate loaded called) bufs = .ok (m, results) ∧
      Configured (listed env.errDrop) (reported (listed env.errDrop) 0 bufs) m ∧
      results.map SendResult.length = bufs.map List.length ∧
      ∀ i buf, bufs[i]? = some buf → ∃ result, results[i]? = some result ∧
        Leaves env (i + 1) buf result.sent := by
  have hzero := linked_msgNo env errorRate loaded called
  have hfilled : ∀ buf ∈ bufs, buf ≠ [] := by
    rintro buf hbuf rfl
    exact absurd (hbufs [] hbuf) (by simp [headerLen])
  obtain ⟨m, results, hsends, hconfigured, hlengths, hfates⟩ :=
    (linked_configured env errorRate loaded called).sendAll hfilled (by rw [hzero]; omega)
  rw [hzero, List.nil_append] at hconfigured
  refine ⟨m, results, hsends, hconfigured, hlengths, fun i buf hbuf => ?_⟩
  obtain ⟨result, hresult, hfate⟩ := hfates i buf hbuf
  rw [hzero, Nat.zero_add] at hfate
  exact ⟨result, hresult, leaves_of_fate hfate⟩

/-- No packet of a linked program makes the library fail or exit, whatever the environment,
the rate and the random numbers are; its sender is told that all of it was sent, and what
leaves for it is bounded by what the environment allows. -/
theorem linked_sends {bufs : List Bytes} (hbufs : ∀ buf ∈ bufs, headerLen ≤ buf.length)
    (hcount : bufs.length < 4294967296) :
    ∃ m results, sendAll (linked env errorRate loaded called) bufs = .ok (m, results) ∧
      results.map SendResult.length = bufs.map List.length ∧
      ∀ i buf, bufs[i]? = some buf → ∃ result, results[i]? = some result ∧
        Leaves env (i + 1) buf result.sent := by
  obtain ⟨m, results, hsends, -, hlengths, hleaves⟩ :=
    sendAll_linked env errorRate loaded called hbufs hcount
  exact ⟨m, results, hsends, hlengths, hleaves⟩

def unset : Environment := ⟨none, none, none, none⟩

def threeMessages : List Bytes :=
  [plainDatagram [] .endOfFile 1, numberedDatagram [65] .data 2 1, plainDatagram [] .ackEof 1]

theorem linked_sends_three :
    ∃ m results, sendAll (linked unset 1 5 6) threeMessages = .ok (m, results) ∧
      results.map SendResult.length = threeMessages.map List.length ∧
      ∀ i buf, threeMessages[i]? = some buf → ∃ result, results[i]? = some result ∧
        Leaves unset (i + 1) buf result.sent :=
  linked_sends unset 1 5 6 (by decide) (by decide)

/-- A drop list in the environment replaces the random drops: it loses the messages whose
numbers are written in it, and no other, whatever the rate and the random numbers are. With
a flip list beside it nothing is changed either. -/
theorem listed_lost {numbers : List ℕ} (hne : numbers ≠ [])
    (hlt : ∀ n ∈ numbers, n < 4294967296) {bufs : List Bytes}
    (hbufs : ∀ buf ∈ bufs, headerLen ≤ buf.length) (hcount : bufs.length < 4294967296) :
    ∃ m results, sendAll (linked { env with errDrop := some (listText numbers) } errorRate
        loaded called) bufs = .ok (m, results) ∧
      ∀ i buf, bufs[i]? = some buf → ∃ result, results[i]? = some result ∧
        (result.sent = none ↔ i + 1 ∈ numbers) ∧
        (listed env.errFlip ≠ [] →
          result.sent = if i + 1 ∈ numbers then none else some buf) := by
  obtain ⟨m, results, hsends, -, -, hleaves⟩ :=
    sendAll_linked { env with errDrop := some (listText numbers) } errorRate loaded called hbufs
      hcount
  refine ⟨m, results, hsends, fun i buf hbuf => ?_⟩
  obtain ⟨⟨sent, length⟩, hresult, hleave⟩ := hleaves i buf hbuf
  refine ⟨_, hresult, ?_⟩
  cases sent with
  | none =>
      simp only [Leaves, listed_listText hne hlt, hne, and_false, or_false] at hleave
      simp [hleave]
  | some datagram =>
      simp only [Leaves, listed_listText hne hlt] at hleave
      obtain ⟨hunlisted, hsame | ⟨-, hflips, -⟩⟩ := hleave
      · simp [hunlisted, hsame]
      · simp [hunlisted, hflips]

theorem listed_lost_second :
    ∃ m results, sendAll (linked { unset with errDrop := some (listText [2]) } 1 5 6)
        threeMessages = .ok (m, results) ∧
      ∀ i buf, threeMessages[i]? = some buf → ∃ result, results[i]? = some result ∧
        (result.sent = none ↔ i + 1 ∈ [2]) ∧
        (listed unset.errFlip ≠ [] → result.sent = if i + 1 ∈ [2] then none else some buf) :=
  listed_lost unset 1 5 6 (by decide) (by decide) (by decide) (by decide)

/-- The report of `infoSeqNo` at the end of a process: the number of messages that no drop
list kept from it, and the number of different sequence numbers among them. Messages that
are lost at random are counted. -/
theorem linked_reports {bufs : List Bytes} (hbufs : ∀ buf ∈ bufs, headerLen ≤ buf.length)
    (hcount : bufs.length < 4294967296) :
    ∃ m results count, sendAll (linked env errorRate loaded called) bufs = .ok (m, results) ∧
      m.constant.getLast? =
        some (.infoSeqNo (reported (listed env.errDrop) 0 bufs) count) ∧
      count.length = (reported (listed env.errDrop) 0 bufs).dedup.length ∧
      ∀ seqNo, (count.lookup seqNo).getD 0 =
        (reported (listed env.errDrop) 0 bufs).count seqNo := by
  obtain ⟨m, results, hsends, hconfigured, -, -⟩ :=
    sendAll_linked env errorRate loaded called hbufs hcount
  refine ⟨m, results, _, hsends, ?_, length_tally _, fun seqNo => ?_⟩
  · rw [hconfigured.constant, standardEvents, List.getLast?_append]
    rfl
  · have hle : (reported (listed env.errDrop) 0 bufs).count seqNo ≤ bufs.length := by
      refine Nat.le_trans List.count_le_length ?_
      rw [reported, List.length_map]
      exact Nat.le_trans (List.length_filter_le ..) (by simp)
    rw [lookup_tally, u32_of_lt (by omega)]

theorem linked_reports_three :
    ∃ m results count, sendAll (linked unset 1 5 6) threeMessages = .ok (m, results) ∧
      m.constant.getLast? =
        some (.infoSeqNo (reported (listed unset.errDrop) 0 threeMessages) count) ∧
      count.length = (reported (listed unset.errDrop) 0 threeMessages).dedup.length ∧
      ∀ seqNo, (count.lookup seqNo).getD 0 =
        (reported (listed unset.errDrop) 0 threeMessages).count seqNo :=
  linked_reports unset 1 5 6 (by decide) (by decide)

end Linked

end SlidingWindow.MessageFates
