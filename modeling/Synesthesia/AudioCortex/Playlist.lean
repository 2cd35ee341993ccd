/-
Files played back to back.

A list of files is streamed through the SRAM FIFO into the parser without a
reset in between.  The end of a file restarts every header register, but not
the toggle that counts the words of a frame, and words of the next file that
were already asked for arrive while the parser is IDLE.
-/

import Synesthesia.AudioCortex.PlayPath

namespace Synesthesia.PlayPath

open Synesthesia.Rtl
open Synesthesia.WavPrsr (Playing Phased Tracks Admitted InStep nextBase playedFrames)

/-! ### Toggle over a list of files -/

/-- Frames that move the toggle by half a turn: mono 32-bit and stereo 16-bit. -/
def halfTurns (item : WavItem) : Nat :=
  if item.stereo = item.wide then 0 else item.frameCount

/-- Every stereo 32-bit file comes after an even number of half turns. -/
def Steady (items : List WavItem) : Prop :=
  ∀ past item future, items = past ++ item :: future →
    item.stereo = true → item.wide = true → (past.map halfTurns).sum % 2 = 0

def baseAfter (past : List WavItem) : BitVec 2 :=
  BitVec.ofNat 2 (2 * (past.map halfTurns).sum)

theorem nextBase_baseAfter (past : List WavItem) {item : WavItem}
    (wellFormed : item.WellFormed) :
    nextBase item (baseAfter past) = baseAfter (past ++ [item]) := by
  have words := WavItem.pcmWords_eq wellFormed
  obtain ⟨-, -, perFrame⟩ := WavItem.format_of_bits wellFormed
  unfold nextBase baseAfter
  rw [List.map_append, List.sum_append, List.map_singleton, List.sum_singleton, words,
    perFrame, halfTurns]
  cases item.stereo <;> cases item.wide <;>
    simp only [Bool.or_false, Bool.or_true, Bool.false_eq_true, reduceIte,
      Bool.true_eq_false, Nat.add_zero, ← BitVec.ofNat_add] <;>
    apply BitVec.eq_of_toNat_eq <;> simp only [BitVec.toNat_ofNat] <;> omega

theorem phased_baseAfter {items past future : List WavItem} {item : WavItem}
    (steady : Steady items) (split : items = past ++ item :: future) :
    Phased item (baseAfter past) := by
  refine ⟨?_, fun stereo wide => ?_⟩
  · rw [baseAfter, BitVec.getLsbD_ofNat]
    simp [Nat.testBit_zero]
  · have even := steady past item future split stereo wide
    rw [baseAfter]
    apply BitVec.eq_of_toNat_eq
    simp only [BitVec.toNat_ofNat, BitVec.reduceToNat]
    omega

/-! ### Restart of the header -/

/-- The header part of the parser is at word `k` of `item`: the word counter
counts from the start of the file, the field register is in step with it and
the header RAM holds the header words received so far. -/
structure Restarted (item : WavItem) (k : Nat) (regs : WavPrsr.Regs) : Prop where
  count : regs.wordCntrF = BitVec.ofNat 32 k
  inStep : k ≤ 5 → InStep k regs
  position : 6 ≤ k → regs.chunk = WavPrsr.chunkAt item.offst k ∧
    regs.field = WavPrsr.fieldAt item.offst k ∧
    regs.pstVecF = WavPrsr.pstVecAt item.offst k
  header : ∀ j, j < k → j < item.headerWords →
    regs.wavHdrRam.memory (BitVec.ofNat 8 j) = item.rawWord j

/-- What `Restarted` asks for beyond `Tracks`. -/
structure Fresh (item : WavItem) (k : Nat) (regs : WavPrsr.Regs) : Prop where
  inStep : k ≤ 5 → InStep k regs
  header : ∀ j, j < k → j < item.headerWords →
    regs.wavHdrRam.memory (BitVec.ofNat 8 j) = item.rawWord j

theorem Fresh.restarted {item : WavItem} {k : Nat} {regs : WavPrsr.Regs}
    (fresh : Fresh item k regs) (tracks : Tracks item k regs) : Restarted item k regs where
  count := tracks.count
  inStep := fresh.inStep
  position := fun late => ⟨tracks.chunk late, tracks.field late, tracks.pstVec late⟩
  header := fresh.header

section Header

variable {item : WavItem} {k : Nat} {regs : WavPrsr.Regs} {inputs : WavPrsr.Inputs}

theorem fresh_gap (tracks : Tracks item k regs) (fresh : Fresh item k regs)
    (gap : inputs.sramRdDataValidIh = false) : Fresh item k (WavPrsr.step regs inputs) where
  inStep := fun early =>
    WavPrsr.inStep_gap (fresh.inStep early) (tracks.wave early).1 gap
  header := by
    intro j before inside
    rw [← fresh.header j before inside]
    simp [WavPrsr.step, DualPortRam.step, WavPrsr.hdrRamPorts, WavPrsr.hdrRamWrEnC, gap]

theorem fresh_word (tracks : Tracks item k regs) (fresh : Fresh item k regs)
    (next : k + 1 < item.rawLength)
    (active : regs.status = .activ) (valid : inputs.sramRdDataValidIh = true)
    (word : inputs.sramRdDataId = item.rawWord k) :
    Fresh item (k + 1) (WavPrsr.step regs inputs) where
  inStep := fun early =>
    WavPrsr.inStep_word (fresh.inStep (by omega)) (by omega) (tracks.wave (by omega)).1
      tracks.count active (tracks.more next) valid
  header := by
    intro j before inside
    have sized := item.offst_le
    have short : j < 23 := by
      unfold WavItem.headerWords at inside
      omega
    have memory : (WavPrsr.step regs inputs).wavHdrRam.memory =
        store regs.wavHdrRam.memory (decide (regs.chunk ≠ .pcmData))
          ((BitVec.ofNat 32 k).extractLsb' 0 8) (item.rawWord k) := by
      simp [WavPrsr.step, DualPortRam.step, WavPrsr.hdrRamPorts, WavPrsr.hdrRamWrEnC,
        valid, active, tracks.count, word]
    rw [memory]
    rcases Nat.lt_or_ge k item.headerWords with header | data
    · have address : (BitVec.ofNat 32 k).extractLsb' 0 8 = BitVec.ofNat 8 k := by
        apply BitVec.eq_of_toNat_eq
        simp only [BitVec.extractLsb'_toNat, BitVec.toNat_ofNat, Nat.shiftRight_zero]
        omega
      rw [decide_eq_true (tracks.header header), address]
      by_cases here : j = k
      · rw [here, store_same]
      · have apart : BitVec.ofNat 8 j ≠ BitVec.ofNat 8 k := by
          intro same
          have values := congrArg BitVec.toNat same
          unfold WavItem.headerWords at header
          rw [BitVec.toNat_ofNat, BitVec.toNat_ofNat, Nat.mod_eq_of_lt (by omega),
            Nat.mod_eq_of_lt (by omega)] at values
          exact here values
        rw [store_other _ _ _ apart, fresh.header j (by omega) inside]
    · have stored : decide (regs.chunk ≠ .pcmData) = false := by
        simp [tracks.data data]
      rw [stored, store_false, fresh.header j (by omega) inside]

theorem fresh_last (wellFormed : item.WellFormed) (tracks : Tracks item k regs)
    (ends : k + 1 = item.rawLength) (after : WavItem) :
    Fresh after 0 (WavPrsr.step regs inputs) where
  inStep := by
    intro _
    have length := WavItem.rawLength_eq wellFormed
    have pcm := wellFormed.pcm
    have data := tracks.data (by omega)
    exact
      { field := by simp [WavPrsr.step, WavPrsr.rstFieldC, data, WavPrsr.nextField,
          WavPrsr.waveFieldAt]
        active := fun late => by omega
        pstVec := fun _ => by
          simp [WavPrsr.step, WavPrsr.rstFieldC, data, WavPrsr.nextPstVec_rst] }
  header := fun j before => by omega

end Header

/-! ### Position in the list of files -/

def stream (items : List WavItem) : List (BitVec 16) := items.flatMap WavItem.getRaw

/-- Every word the parser meets finds it ACTIVE. -/
def NeverIdle (header : BitVec 8 → BitVec 16) (inputs : Nat → Inputs) : Prop :=
  ∀ t, (abstractAt header inputs t).queue.valid = true →
    (abstractAt header inputs t).prsr.status = .activ

/-- The parser is within `item` after `k` of its words; `past` has been played.
An IDLE parser has at most the words that were in flight at the end of the file
before it. -/
structure Within (contents : BitVec 18 → BitVec 16) (header : BitVec 8 → BitVec 16)
    (inputs : Nat → Inputs) (t : Nat) (past : List WavItem) (item : WavItem) (k : Nat)
    (bus : BitVec 16) : Prop where
  received : received contents header inputs t =
    stream past ++ item.getRaw.take k
  held : (abstractAt header inputs t).queue.valid = false →
    (abstractAt header inputs t).queue.bus = bus
  playing : Playing item (baseAfter past) k bus (abstractAt header inputs t).prsr
  emitted : emitted contents header inputs (t + 1) =
    past.flatMap WavItem.frames ++ playedFrames item k
  first : past = [] → (abstractAt header inputs t).prsr.status = .idle →
    k = 0 ∧ SramQueue.inFlight (abstractAt header inputs t).queue = 0
  later : past ≠ [] → (abstractAt header inputs t).prsr.fmtChnkEndPtrF ≠ 0 ∧
    ((abstractAt header inputs t).prsr.status = .idle →
      k + SramQueue.inFlight (abstractAt header inputs t).queue ≤ 3)
  fresh : NeverIdle header inputs → Fresh item k (abstractAt header inputs t).prsr

/-- Cycle `t` of a run that plays `items`. -/
inductive Progress (contents : BitVec 18 → BitVec 16) (header : BitVec 8 → BitVec 16)
    (inputs : Nat → Inputs) (items : List WavItem) (t : Nat) : Prop where
  | within (past : List WavItem) (item : WavItem) (future : List WavItem) (k : Nat)
      (bus : BitVec 16) (split : items = past ++ item :: future)
      (place : Within contents header inputs t past item k bus)
  | done (all : received contents header inputs t = stream items)
      (frames : emitted contents header inputs (t + 1) = items.flatMap WavItem.frames)
      (last : (abstractAt header inputs t).prsr.lastWordF = false)
      (wave : (abstractAt header inputs t).prsr.chunk = .wave)

section Steps

variable {contents : BitVec 18 → BitVec 16} {header : BitVec 8 → BitVec 16}
  {inputs : Nat → Inputs} {t : Nat}

theorem abstractAt_succ_prsr : (abstractAt header inputs (t + 1)).prsr =
    WavPrsr.step (abstractAt header inputs t).prsr
      (abstractPrsrInputs (abstractAt header inputs t) (inputs t)) := rfl

theorem abstractAt_succ_queue : (abstractAt header inputs (t + 1)).queue =
    SramQueue.step (abstractAt header inputs t).queue (inputs t).avStValidIh
      (inputs t).avStDataId
      (WavPrsr.sramRdEnOh (abstractAt header inputs t).prsr (inputs t).pcmFfAfullC) := rfl

theorem received_succ (quiet : ∀ t, HostQuiet (inputs t)) :
    received contents header inputs (t + 1) =
      received contents header inputs t ++
        strobed (abstractAt header inputs t).queue.valid
          (abstractAt header inputs t).queue.bus := by
  obtain ⟨shown, -⟩ := abstractAt_shown contents header quiet t
  rw [received, collect_succ, shown.valid, shown.bus]

theorem emitted_succ (quiet : ∀ t, HostQuiet (inputs t)) :
    emitted contents header inputs (t + 1) =
      emitted contents header inputs t ++ (abstractAt header inputs t).prsr.pcm.written := by
  obtain ⟨-, same⟩ := abstractAt_shown contents header quiet t
  rw [emitted, collect_succ, same]

theorem received_abstract (quiet : ∀ t, HostQuiet (inputs t)) (t : Nat) :
    received contents header inputs t = collect (fun cycle =>
      strobed (abstractAt header inputs cycle).queue.valid
        (abstractAt header inputs cycle).queue.bus) t := by
  induction t with
  | zero => rfl
  | succ t ih => rw [received_succ quiet, ih, collect_succ]

theorem emitted_abstract (quiet : ∀ t, HostQuiet (inputs t)) (t : Nat) :
    emitted contents header inputs t =
      collect (fun cycle => (abstractAt header inputs cycle).prsr.pcm.written) t := by
  induction t with
  | zero => rfl
  | succ t ih => rw [emitted_succ quiet, ih, collect_succ]

theorem bus_held (gap : (abstractAt header inputs (t + 1)).queue.valid = false) :
    (abstractAt header inputs (t + 1)).queue.bus =
      (abstractAt header inputs t).queue.bus := by
  rw [abstractAt_succ_queue] at gap ⊢
  simp only [SramQueue.step] at gap ⊢
  cases driven : (abstractAt header inputs t).queue.driven <;> simp_all

theorem inFlight_idle (idle : (abstractAt header inputs t).prsr.status = .idle) :
    (abstractAt header inputs t).queue.valid.toNat +
        SramQueue.inFlight (abstractAt header inputs (t + 1)).queue =
      SramQueue.inFlight (abstractAt header inputs t).queue := by
  rw [abstractAt_succ_queue, SramQueue.inFlight_step]
  simp [SramQueue.issues, WavPrsr.sramRdEnOh, idle]

theorem status_active {regs : WavPrsr.Regs} {view : WavPrsr.Inputs}
    (more : WavPrsr.endOfFileC regs view.sramRdDataValidIh = false)
    (idle : (WavPrsr.step regs view).status = .idle) : regs.status = .idle := by
  cases status : regs.status with
  | idle => rfl
  | activ =>
      simp only [WavPrsr.step, WavPrsr.nextStatus, status, more] at idle
      cases idle

theorem fmtEnd_ne_zero {regs : WavPrsr.Regs} (view : WavPrsr.Inputs)
    (set : regs.fmtChnkEndPtrF ≠ 0) : (WavPrsr.step regs view).fmtChnkEndPtrF ≠ 0 := by
  simp only [WavPrsr.step, WavPrsr.nextFmtChnkEndPtr]
  split
  · split <;> decide
  · exact set

theorem within_gap {past : List WavItem} {item : WavItem} {k : Nat} {bus : BitVec 16}
    (quiet : ∀ t, HostQuiet (inputs t)) (phased : Phased item (baseAfter past))
    (place : Within contents header inputs t past item k bus)
    (gap : (abstractAt header inputs t).queue.valid = false) :
    Within contents header inputs (t + 1) past item k bus := by
  obtain ⟨still, silent⟩ := WavPrsr.playing_gap phased place.playing
    (show (abstractPrsrInputs (abstractAt header inputs t) (inputs t)).sramRdDataValidIh = false
      from gap)
    (place.held gap)
  have idle : (abstractAt header inputs (t + 1)).prsr.status = .idle →
      (abstractAt header inputs t).prsr.status = .idle := by
    apply status_active
    change WavPrsr.endOfFileC _ (abstractAt header inputs t).queue.valid = false
    rw [gap, WavPrsr.endOfFileC_gap]
  have flight : (abstractAt header inputs t).prsr.status = .idle →
      SramQueue.inFlight (abstractAt header inputs (t + 1)).queue =
        SramQueue.inFlight (abstractAt header inputs t).queue := by
    intro now
    have moved := inFlight_idle now
    rwa [gap, Bool.toNat_false, Nat.zero_add] at moved
  exact
    { received := by
        rw [received_succ quiet, gap, strobed_false, List.append_nil, place.received]
      held := by
        intro nextGap
        rw [bus_held nextGap, place.held gap]
      playing := still
      emitted := by
        rw [emitted_succ quiet, abstractAt_succ_prsr, silent, List.append_nil, place.emitted]
      first := by
        intro none now
        obtain ⟨start, empty⟩ := place.first none (idle now)
        exact ⟨start, by rw [flight (idle now), empty]⟩
      later := by
        intro some
        obtain ⟨set, few⟩ := place.later some
        refine ⟨fmtEnd_ne_zero _ set, fun now => ?_⟩
        rw [flight (idle now)]
        exact few (idle now)
      fresh := fun never => fresh_gap place.playing.tracks (place.fresh never) gap }

theorem stream_append (past future : List WavItem) (item : WavItem) :
    stream (past ++ item :: future) = stream past ++ (item.getRaw ++ stream future) := by
  simp [stream]

theorem next_word {past future : List WavItem} {item : WavItem} {k : Nat} {word : BitVec 16}
    (inside : k < item.rawLength)
    (ordered : stream past ++ item.getRaw.take k ++ [word] <+:
      stream (past ++ item :: future)) :
    word = item.rawWord k := by
  rw [stream_append, List.append_assoc, List.prefix_append_right_inj] at ordered
  obtain ⟨rest, whole⟩ := ordered
  have size : (item.getRaw.take k).length = k := by
    rw [List.length_take, WavItem.getRaw_length]
    omega
  have place : (item.getRaw ++ stream future)[k]? = some (item.rawWord k) := by
    rw [List.getElem?_append_left (by rw [WavItem.getRaw_length]; exact inside),
      WavItem.getRaw_getElem? inside]
  rw [← whole, List.append_assoc, List.getElem?_append_right (by omega), size,
    Nat.sub_self] at place
  simpa using place

theorem Within.admitted {past : List WavItem} {item : WavItem} {k : Nat} {bus : BitVec 16}
    (place : Within contents header inputs t past item k bus)
    (valid : (abstractAt header inputs t).queue.valid = true) :
    Admitted k (abstractAt header inputs t).prsr := by
  have flying : 1 ≤ SramQueue.inFlight (abstractAt header inputs t).queue := by
    simp only [SramQueue.inFlight, valid, Bool.toNat_true]
    omega
  cases status : (abstractAt header inputs t).prsr.status with
  | activ => exact .inl status
  | idle =>
      by_cases none : past = []
      · obtain ⟨-, empty⟩ := place.first none status
        omega
      · obtain ⟨set, few⟩ := place.later none
        have bound := few status
        exact .inr ⟨by omega, set⟩

theorem within_word {past : List WavItem} {item : WavItem} {k : Nat} {bus : BitVec 16}
    (wellFormed : item.WellFormed) (quiet : ∀ t, HostQuiet (inputs t))
    (phased : Phased item (baseAfter past))
    (place : Within contents header inputs t past item k bus)
    (next : k + 1 < item.rawLength)
    (valid : (abstractAt header inputs t).queue.valid = true)
    (word : (abstractAt header inputs t).queue.bus = item.rawWord k) :
    Within contents header inputs (t + 1) past item (k + 1) (item.rawWord k) := by
  have tracks := place.playing.tracks
  have admitted := place.admitted valid
  have frames := (WavPrsr.playing_pcm_word wellFormed phased place.playing
    (show (abstractPrsrInputs (abstractAt header inputs t) (inputs t)).sramRdDataValidIh = true
      from valid)
    word).2
  have idle : (abstractAt header inputs (t + 1)).prsr.status = .idle →
      (abstractAt header inputs t).prsr.status = .idle := by
    rw [abstractAt_succ_prsr]
    apply status_active
    rw [WavPrsr.endOfFileC, tracks.more next, Bool.false_and]
  exact
    { received := by
        rw [received_succ quiet, valid, strobed_true, place.received, word,
          List.take_add_one, WavItem.getRaw_getElem? tracks.within, List.append_assoc]
        rfl
      held := by
        intro nextGap
        rw [bus_held nextGap, word]
      playing := WavPrsr.playing_word wellFormed phased place.playing next admitted valid
        word
      emitted := by
        rw [emitted_succ quiet, abstractAt_succ_prsr, place.emitted, List.append_assoc,
          frames]
      first := by
        intro none now
        have empty := (place.first none (idle now)).2
        simp [SramQueue.inFlight, valid] at empty
      later := by
        intro some
        obtain ⟨set, few⟩ := place.later some
        refine ⟨fmtEnd_ne_zero _ set, fun now => ?_⟩
        have moved := inFlight_idle (idle now)
        have bound := few (idle now)
        rw [valid, Bool.toNat_true] at moved
        omega
      fresh := fun never =>
        fresh_word tracks (place.fresh never) next (never t valid) valid word }

/-- The last word of a file hands over to the next one. -/
theorem within_last {past : List WavItem} {item : WavItem} {k : Nat} {bus : BitVec 16}
    (wellFormed : item.WellFormed) (quiet : ∀ t, HostQuiet (inputs t))
    (phased : Phased item (baseAfter past))
    (place : Within contents header inputs t past item k bus)
    (ends : k + 1 = item.rawLength)
    (valid : (abstractAt header inputs t).queue.valid = true)
    (word : (abstractAt header inputs t).queue.bus = item.rawWord k)
    {after : WavItem} (afterWellFormed : after.WellFormed) :
    Within contents header inputs (t + 1) (past ++ [item]) after 0 (item.rawWord k) := by
  have tracks := place.playing.tracks
  have frames := (WavPrsr.playing_pcm_word wellFormed phased place.playing
    (show (abstractPrsrInputs (abstractAt header inputs t) (inputs t)).sramRdDataValidIh = true
      from valid)
    word).2
  obtain ⟨-, ready⟩ := WavPrsr.playing_last wellFormed phased place.playing ends
    (show (abstractPrsrInputs (abstractAt header inputs t) (inputs t)).sramRdDataValidIh = true
      from valid)
    word
  rw [ends, WavPrsr.playedFrames_all wellFormed] at frames
  have length := WavItem.rawLength_eq wellFormed
  have long : 22 ≤ item.headerWords := Nat.le_add_right 22 _
  have pcm := wellFormed.pcm
  exact
    { received := by
        rw [received_succ quiet, valid, strobed_true, place.received, word]
        have last : item.getRaw.take k ++ [item.rawWord k] = item.getRaw := by
          have whole := List.take_add_one (l := item.getRaw) (i := k)
          rw [WavItem.getRaw_getElem? tracks.within, ends, ← WavItem.getRaw_length,
            List.take_length] at whole
          exact whole.symm
        rw [List.append_assoc, last, List.take_zero, List.append_nil]
        simp [stream]
      held := by
        intro nextGap
        rw [bus_held nextGap, word]
      playing := nextBase_baseAfter past wellFormed ▸ ready after afterWellFormed
      emitted := by
        rw [emitted_succ quiet, abstractAt_succ_prsr, place.emitted, List.append_assoc,
          frames, WavPrsr.playedFrames_zero]
        simp
      first := by simp
      later := by
        intro _
        refine ⟨?_, fun _ => ?_⟩
        · rw [abstractAt_succ_prsr]
          apply fmtEnd_ne_zero
          rw [tracks.fmtEnd (by omega)]
          rcases WavPrsr.fmtEndAt_known item with short | longer
          · rw [short]
            decide
          · rw [longer]
            decide
        · rw [Nat.zero_add]
          exact SramQueue.inFlight_le _
      fresh := fun _ => fresh_last wellFormed tracks ends after }

theorem progress_last {items past future : List WavItem} {item : WavItem} {k : Nat}
    {bus : BitVec 16} (wellFormed : ∀ item ∈ items, item.WellFormed)
    (quiet : ∀ t, HostQuiet (inputs t)) (steady : Steady items)
    (split : items = past ++ item :: future)
    (place : Within contents header inputs t past item k bus)
    (ends : k + 1 = item.rawLength)
    (valid : (abstractAt header inputs t).queue.valid = true)
    (word : (abstractAt header inputs t).queue.bus = item.rawWord k) :
    Progress contents header inputs items (t + 1) := by
  have phased := phased_baseAfter steady split
  have current : item.WellFormed := wellFormed item (by simp [split])
  cases future with
  | cons after rest =>
      have next := within_last current quiet phased place ends valid word
        (wellFormed after (by simp [split]))
      exact .within (past ++ [item]) after rest 0 _ (by simp [split]) next
  | nil =>
      have next := within_last current quiet phased place ends valid word current
      have whole : past ++ [item] = items := split.symm
      have received := next.received
      have emitted := next.emitted
      rw [List.take_zero, List.append_nil, whole] at received
      rw [WavPrsr.playedFrames_zero, List.append_nil, whole] at emitted
      have length := WavItem.rawLength_eq current
      have long : 22 ≤ item.headerWords := Nat.le_add_right 22 _
      exact .done received emitted (next.playing.tracks.more (by omega))
        ((next.playing.tracks.wave (by omega)).1)

theorem progress_step {items : List WavItem}
    (wellFormed : ∀ item ∈ items, item.WellFormed) (quiet : ∀ t, HostQuiet (inputs t))
    (steady : Steady items)
    (streamed : received contents header inputs (t + 1) <+: stream items)
    (progress : Progress contents header inputs items t) :
    Progress contents header inputs items (t + 1) := by
  have seen : received contents header inputs (t + 1) = _ := received_succ quiet
  cases progress with
  | within past item future k bus split place =>
      have phased := phased_baseAfter steady split
      cases valid : (abstractAt header inputs t).queue.valid with
      | false => exact .within past item future k bus split (within_gap quiet phased place valid)
      | true =>
          have inside := place.playing.tracks.within
          rw [seen, valid, strobed_true, place.received, split] at streamed
          have word := next_word inside streamed
          rcases Nat.lt_or_ge (k + 1) item.rawLength with next | last
          · exact .within past item future (k + 1) _ split
              (within_word (wellFormed item (by simp [split])) quiet phased place next valid
                word)
          · exact progress_last wellFormed quiet steady split place (by omega) valid word
  | done all frames last wave =>
      have gap : (abstractAt header inputs t).queue.valid = false := by
        cases valid : (abstractAt header inputs t).queue.valid with
        | false => rfl
        | true =>
            rw [seen, valid, all] at streamed
            have longer := streamed.length_le
            simp only [List.length_append, strobed_true, List.length_singleton] at longer
            omega
      have view : (abstractPrsrInputs (abstractAt header inputs t)
          (inputs t)).sramRdDataValidIh = false := gap
      refine .done ?_ ?_ ?_ ?_
      · rw [seen, gap, strobed_false, List.append_nil, all]
      · rw [emitted_succ quiet, abstractAt_succ_prsr, WavPrsr.step_pcm,
          WavPrsr.nextPcm_header _ (by rw [wave]; decide), frames]
        simp [WavPrsr.Pcm.written]
      · simp [abstractAt_succ_prsr, WavPrsr.step, view, last]
      · simp [abstractAt_succ_prsr, WavPrsr.step, view, wave]

theorem progress_reset {items : List WavItem}
    (wellFormed : ∀ item ∈ items, item.WellFormed) :
    Progress contents header inputs items 0 := by
  cases items with
  | nil => exact .done rfl rfl rfl rfl
  | cons item future =>
      have current := wellFormed item (by simp)
      refine .within [] item future 0 0 rfl
        { received := by
            rw [List.take_zero]
            rfl
          held := fun _ => rfl
          playing := ⟨WavPrsr.tracks_reset header false current, ?_⟩
          emitted := by
            rw [WavPrsr.playedFrames_zero]
            rfl
          first := fun _ _ => ⟨rfl, rfl⟩
          later := fun some => absurd rfl some
          fresh := fun _ =>
            { inStep := fun _ =>
                { field := rfl
                  active := fun late => by omega
                  pstVec := fun active => by cases active }
              header := fun j before => by omega } }
      rw [Nat.zero_sub]
      refine ⟨?_, ?_⟩
      · rw [BitVec.add_zero, ite_self]
        rfl
      · unfold WavPrsr.Pending
        cases item.stereo <;> cases item.wide <;> simp

theorem run_progress {items : List WavItem}
    (wellFormed : ∀ item ∈ items, item.WellFormed) (quiet : ∀ t, HostQuiet (inputs t))
    (steady : Steady items)
    (streamed : ∀ t, accepted contents header inputs t <+: stream items) (t : Nat) :
    Progress contents header inputs items t := by
  induction t with
  | zero => exact progress_reset wellFormed
  | succ t ih =>
      apply progress_step wellFormed quiet steady _ ih
      refine List.IsPrefix.trans ?_ (streamed (t + 1))
      rw [accepted_eq _ _ quiet]
      exact List.prefix_append _ _

end Steps

/-! ### Whole runs -/

/-- Frames a file yields when it is played alone from reset. -/
def alone (item : WavItem) : List (BitVec 32 × BitVec 32) :=
  WavPrsr.emitted (fun _ => 0) (WavPrsr.gapless item) (item.rawLength + 2)

theorem alone_eq_frames {item : WavItem} (wellFormed : item.WellFormed) :
    alone item = item.frames := by
  rw [alone, WavPrsr.stream_written wellFormed (WavPrsr.streams_gapless item _),
    WavPrsr.received_gapless, Nat.add_sub_cancel, ← WavItem.getRaw_length, List.take_length,
    WavItem.getRaw_length, WavPrsr.playedFrames_all wellFormed]

theorem flatMap_alone {items : List WavItem}
    (wellFormed : ∀ item ∈ items, item.WellFormed) :
    items.flatMap alone = items.flatMap WavItem.frames :=
  List.flatMap_congr fun item inside => alone_eq_frames (wellFormed item inside)

theorem playedFrames_isPrefix {item : WavItem} (wellFormed : item.WellFormed) {k : Nat}
    (inside : k ≤ item.rawLength) : playedFrames item k <+: item.frames := by
  rw [WavPrsr.playedFrames_eq_take wellFormed inside]
  exact List.take_prefix _ _

theorem Progress.emitted_isPrefix {contents : BitVec 18 → BitVec 16}
    {header : BitVec 8 → BitVec 16} {inputs : Nat → Inputs} {items : List WavItem} {t : Nat}
    (wellFormed : ∀ item ∈ items, item.WellFormed)
    (progress : Progress contents header inputs items t) :
    emitted contents header inputs (t + 1) <+: items.flatMap WavItem.frames := by
  cases progress with
  | done all frames => exact frames ▸ List.prefix_refl _
  | within past item future k bus split place =>
      rw [place.emitted, split, List.flatMap_append, List.flatMap_cons]
      have played := playedFrames_isPrefix (wellFormed item (by simp [split]))
        (Nat.le_of_lt place.playing.tracks.within)
      exact (List.prefix_append_right_inj _).mpr (played.trans (List.prefix_append _ _))

/-- Back to back: the frames written are those of the files played alone, one
after the other, if no host access drives the read bus, from which 32-bit files
take a value in every gap, and every stereo 32-bit file finds the toggle at rest;
and if no word arrives while the parser is IDLE, word counter, field register and
header RAM restart with every file. -/
theorem playlist_concatenates (contents : BitVec 18 → BitVec 16)
    (header : BitVec 8 → BitVec 16) (inputs : Nat → Inputs) (items : List WavItem)
    (wellFormed : ∀ item ∈ items, item.WellFormed)
    (quiet : ∀ t, HostQuiet (inputs t)) (steady : Steady items)
    (streamed : ∀ t, accepted contents header inputs t <+: items.flatMap WavItem.getRaw) :
    (∀ t, emitted contents header inputs t <+: items.flatMap alone) ∧
      (∀ t, received contents header inputs t = items.flatMap WavItem.getRaw →
        emitted contents header inputs (t + 1) = items.flatMap alone) ∧
      ((∀ t, (stateAt contents header inputs t).sram.arb.imRdValidOh = true →
          (stateAt contents header inputs t).prsr.status = .activ) →
        ∀ t, received contents header inputs t ≠ items.flatMap WavItem.getRaw →
          ∃ past item future k, items = past ++ item :: future ∧
            received contents header inputs t =
              past.flatMap WavItem.getRaw ++ item.getRaw.take k ∧
            k < item.rawLength ∧
            Restarted item k (stateAt contents header inputs t).prsr) := by
  have progress := run_progress wellFormed quiet steady streamed
  rw [flatMap_alone wellFormed]
  refine ⟨fun t => ?_, fun t all => ?_, fun never t open' => ?_⟩
  · cases t with
    | zero => exact List.nil_prefix
    | succ t => exact (progress t).emitted_isPrefix wellFormed
  · cases progress t with
    | done _ frames => exact frames
    | within past item future k bus split place =>
        have received := place.received
        rw [all] at received
        change stream items = _ at received
        rw [split, stream_append, List.append_cancel_left_eq] at received
        have sizes := congrArg List.length received
        have within := place.playing.tracks.within
        rw [List.length_append, List.length_take, WavItem.getRaw_length] at sizes
        omega
  · cases progress t with
    | done all => exact absurd all open'
    | within past item future k bus split place =>
        have busy : NeverIdle header inputs := by
          intro cycle valid
          obtain ⟨shown, same⟩ := abstractAt_shown contents header
            quiet cycle
          rw [← same]
          exact never cycle (shown.valid.trans valid)
        refine ⟨past, item, future, k, split, place.received,
          place.playing.tracks.within, ?_⟩
        rw [(abstractAt_shown contents header quiet t).2]
        exact (place.fresh busy).restarted place.playing.tracks

/-! ### A source that streams at full speed -/

/-- Word offered in cycle `t` by a source that fills every streaming slot. -/
def feedIndex (t : Nat) : Nat := 16 * (t / 34) + t % 34

/-- The parser is enabled in cycle 0, and the words are offered in the streaming
slots without a gap. -/
def feed (words : List (BitVec 16)) (t : Nat) : Inputs :=
  { avStDataId := words.getD (feedIndex t) 0
    avStValidIh := decide (t % 34 < 16 ∧ feedIndex t < words.length)
    sramMmRdEn := false
    sramMmWrEn := false
    sramMmAddr := 0
    sramMmWrData := 0
    pcmFfAfullC := false
    blkPrsrRdEn := false
    blkPrsrWrEn := decide (t = 0)
    blkAddr := 0
    blkWrData := 1
    hdrRamMixed := 0 }

theorem feed_quiet (words : List (BitVec 16)) (t : Nat) : HostQuiet (feed words t) :=
  ⟨rfl, rfl⟩

theorem abstractAt_clock (header : BitVec 8 → BitVec 16) (inputs : Nat → Inputs) (t : Nat) :
    (abstractAt header inputs t).queue.clock = t % 34 := by
  induction t with
  | zero => rfl
  | succ t ih =>
      simp only [abstractAt_succ_queue, SramQueue.step, ih]
      omega

/-- The words are offered as `feed` offers them, whatever else happens. -/
structure Feeds (words : List (BitVec 16)) (inputs : Nat → Inputs) : Prop where
  quiet : ∀ t, HostQuiet (inputs t)
  data : ∀ t, (inputs t).avStDataId = words.getD (feedIndex t) 0
  valid : ∀ t, (inputs t).avStValidIh = decide (t % 34 < 16 ∧ feedIndex t < words.length)

theorem feed_feeds (words : List (BitVec 16)) : Feeds words (feed words) where
  quiet := feed_quiet words
  data := fun _ => rfl
  valid := fun _ => rfl

section Feeds

variable {words : List (BitVec 16)} {inputs : Nat → Inputs}

theorem Feeds.accepts (feeds : Feeds words inputs) (fits : words.length ≤ 2 ^ 18)
    (contents : BitVec 18 → BitVec 16) (header : BitVec 8 → BitVec 16) {t : Nat}
    (before : accepted contents header inputs t =
      words.take (16 * (t / 34) + min (t % 34) 16))
    (offered : (inputs t).avStValidIh = true) :
    SramPath.stAccept (stateAt contents header inputs t).sram
      (sramInputs (stateAt contents header inputs t) (inputs t)) = true := by
  obtain ⟨shown, -⟩ := abstractAt_shown contents header feeds.quiet t
  have place := offered
  rw [feeds.valid, decide_eq_true_eq] at place
  have owner : SramArb.slotOwner (t % 34) = .avSt := by
    rw [SramArb.slotOwner, if_pos place.1]
  have room : (abstractAt header inputs t).queue.unread.length < 2 ^ 18 := by
    have sizes := congrArg List.length (accepted_eq contents header feeds.quiet t)
    have position := place.2
    rw [before, List.length_append, List.length_take, SramQueue.pending] at sizes
    simp only [List.length_append] at sizes
    unfold feedIndex at position
    omega
  have given : (sramInputs (stateAt contents header inputs t) (inputs t)).lbStValidIh = true :=
    offered
  rw [shown.accepts, SramQueue.accepts, SramQueue.ready, abstractAt_clock, given, owner,
    decide_eq_true room]
  rfl

theorem Feeds.accepted (feeds : Feeds words inputs) (fits : words.length ≤ 2 ^ 18)
    (contents : BitVec 18 → BitVec 16) (header : BitVec 8 → BitVec 16) (t : Nat) :
    PlayPath.accepted contents header inputs t =
      words.take (16 * (t / 34) + min (t % 34) 16) := by
  induction t with
  | zero => rfl
  | succ t ih =>
      rw [PlayPath.accepted, collect_succ, ← PlayPath.accepted, ih]
      by_cases offered : (inputs t).avStValidIh = true
      · have place := offered
        rw [feeds.valid, decide_eq_true_eq] at place
        have position : 16 * (t / 34) + min (t % 34) 16 = feedIndex t := by
          unfold feedIndex
          omega
        have next : 16 * ((t + 1) / 34) + min ((t + 1) % 34) 16 = feedIndex t + 1 := by
          unfold feedIndex
          omega
        rw [feeds.accepts fits contents header ih offered, position, next, List.take_add_one,
          feeds.data, strobed_true, List.getD_eq_getElem?_getD, List.getElem?_eq_getElem place.2]
        rfl
      · have refused : SramPath.stAccept (stateAt contents header inputs t).sram
            (sramInputs (stateAt contents header inputs t) (inputs t)) = false := by
          rw [SramPath.stAccept, sramInputs, Bool.eq_false_iff.mpr offered]
          rfl
        rw [feeds.valid, decide_eq_true_eq] at offered
        rw [refused, strobed_false, List.append_nil]
        by_cases slot : t % 34 < 16
        · have ended : words.length ≤ feedIndex t := by
            omega
          unfold feedIndex at ended
          rw [List.take_of_length_le (by omega), List.take_of_length_le (by omega)]
        · congr 1
          omega

theorem Feeds.accepted_isPrefix (feeds : Feeds words inputs) (fits : words.length ≤ 2 ^ 18)
    (contents : BitVec 18 → BitVec 16) (header : BitVec 8 → BitVec 16) (t : Nat) :
    PlayPath.accepted contents header inputs t <+: words := by
  rw [feeds.accepted fits]
  exact List.take_prefix _ _

end Feeds

def stereoItem : WavItem :=
  { noSamples := 1
    chunkSize := 44
    subchunk1NoChnls := 2
    subchunk1SampleRate := 44100
    subchunk1ByteRate := 352800
    subchunk1BlockAlign := 8
    subchunk1BitsPerSample := 32
    subchunk2Size := 8
    data := [1, 2] }

theorem stereoItem_wellFormed : stereoItem.WellFormed where
  chunkSize := by decide
  numChnnlsLim := by decide
  sampleRateLim := by decide
  byteRate := by rfl
  blockAlign := by decide
  bpsLim := by decide
  subchunk2Size := by decide
  noSamples := by decide
  dataLim16 := fun short => absurd short (by decide)
  dataLim32 := fun _ => by simp [stereoItem]
  fmtSize := by decide
  pcm := by decide

/-- Two files of one format that never moves the toggle by a half turn only. -/
theorem playlist_concatenates_stereo :
    ([stereoItem, stereoItem].flatMap alone).length = 2 ∧
      ∀ t, emitted (fun _ => 0) (fun _ => 0)
          (feed ([stereoItem, stereoItem].flatMap WavItem.getRaw)) t <+:
        [stereoItem, stereoItem].flatMap alone := by
  refine ⟨by decide, ?_⟩
  refine (playlist_concatenates _ _ _ [stereoItem, stereoItem] ?_ (feed_quiet _) ?_
    ((feed_feeds _).accepted_isPrefix (by decide) _ _)).1
  · simp [stereoItem_wellFormed]
  · intro past item future split _ _
    have turns : ∀ played ∈ past, halfTurns played = 0 := by
      intro played inside
      have member : played ∈ [stereoItem, stereoItem] := by
        rw [split]
        exact List.mem_append_left _ inside
      simp only [List.mem_cons, List.not_mem_nil, or_false, or_self] at member
      rw [member]
      decide
    have none : (past.map halfTurns).sum = 0 := by
      rw [List.sum_eq_zero_iff_forall_eq_nat]
      simpa using turns
    rw [none]

/-- After a mono file with one frame the toggle is half way round: the next
stereo file has its left sample written to the right channel, next to a stale
left one. -/
theorem swapped_channels :
    ¬ ∀ (contents : BitVec 18 → BitVec 16) (header : BitVec 8 → BitVec 16)
        (inputs : Nat → Inputs) (items : List WavItem),
        (∀ item ∈ items, item.WellFormed) → (∀ t, HostQuiet (inputs t)) →
        (∀ t, accepted contents header inputs t <+: items.flatMap WavItem.getRaw) →
        (∀ t, received contents header inputs t = items.flatMap WavItem.getRaw →
          emitted contents header inputs (t + 1) = items.flatMap alone) ∧
        ∀ t, received contents header inputs t ≠ items.flatMap WavItem.getRaw →
          ∃ past item future k, items = past ++ item :: future ∧
            received contents header inputs t =
              past.flatMap WavItem.getRaw ++ item.getRaw.take k ∧
            k < item.rawLength ∧
            Restarted item k (stateAt contents header inputs t).prsr := by
  intro claim
  have wellFormed : ∀ item ∈ [WavPrsr.monoItem, stereoItem], item.WellFormed := by
    simp [WavPrsr.monoItem_wellFormed, stereoItem_wellFormed]
  have played := (claim (fun _ => 0) (fun _ => 0)
    (feed ([WavPrsr.monoItem, stereoItem].flatMap WavItem.getRaw))
    [WavPrsr.monoItem, stereoItem] wellFormed (feed_quiet _)
    ((feed_feeds _).accepted_isPrefix (by decide) _ _)).1 125
  rw [flatMap_alone wellFormed, received_abstract (feed_quiet _),
    emitted_abstract (feed_quiet _)] at played
  revert played
  decide +kernel

end Synesthesia.PlayPath
