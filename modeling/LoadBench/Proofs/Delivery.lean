import Mathlib.Data.List.Induction
import Mathlib.Data.List.TakeDrop
import LoadBench.Report.Sink

/-!
What arrives of a report. An output may have room for only so many bytes, take its writes in parts
of any length, and refuse one flush, and the report is written to it in small pieces. Whatever is
cut where, what arrives is the texts of the events, one after the other, as far as there is room;
each event succeeds or fails by its own text and its own flush.

`Sink.received` is what a sink becomes by some bytes, without a word on how they were cut. A write
is that, and so are the writes of several pieces, since a sink that is full gains nothing by more.
-/

namespace LoadBench.Report

namespace Sink

/-- What of some bytes a sink has room for. -/
def portion (s : Sink) (bytes : Bytes) : Bytes :=
  match s.room with
  | none => bytes
  | some room => bytes.take room

/-- Some bytes find room as a whole. -/
def Fits (s : Sink) (bytes : Bytes) : Prop := s.portion bytes = bytes

instance (s : Sink) (bytes : Bytes) : Decidable (s.Fits bytes) :=
  inferInstanceAs (Decidable (_ = _))

/-- A sink that took of some bytes what it has room for. How they were cut shows only in what is
known of the next writes. -/
def received (s : Sink) (bytes : Bytes) (bites : List Nat) : Sink :=
  { s with
    content := s.content ++ s.portion bytes
    room := s.room.map (· - bytes.length)
    bites }

/-- A sink that was flushed so many times more. -/
def flushedTimes (s : Sink) (n : Nat) : Sink := { s with flushes := s.flushes + n }

section

variable (s : Sink) (bytes rest : Bytes) (bites bites' : List Nat) (n : Nat)

@[simp]
theorem portion_nil : s.portion [] = [] := by
  unfold portion
  split <;> simp

theorem fits_nil : s.Fits [] := s.portion_nil

@[simp]
theorem fits_flushedTimes : (s.flushedTimes n).Fits bytes ↔ s.Fits bytes := Iff.rfl

@[simp]
theorem received_whenFull : (s.received bytes bites).whenFull = s.whenFull := rfl

theorem portion_append :
    s.portion (bytes ++ rest) = s.portion bytes ++ (s.received bytes bites).portion rest := by
  simp only [portion, received]
  cases s.room with
  | none => rfl
  | some room => exact List.take_append

theorem received_received :
    (s.received bytes bites).received rest bites' = s.received (bytes ++ rest) bites' := by
  have hroom : (s.room.map (· - bytes.length)).map (· - rest.length) =
      s.room.map (· - (bytes ++ rest).length) := by
    cases s.room <;> simp [Nat.sub_sub]
  have hcontent := s.portion_append bytes rest bites
  simp only [received] at hcontent ⊢
  rw [hroom, hcontent, List.append_assoc]

theorem received_nil : s.received [] s.bites = s := by
  simp [received]

theorem flushedTimes_flushedTimes (m : Nat) :
    (s.flushedTimes m).flushedTimes n = s.flushedTimes (m + n) := by
  simp only [flushedTimes, Nat.add_assoc]

theorem received_flushedTimes :
    (s.flushedTimes n).received bytes bites = (s.received bytes bites).flushedTimes n := rfl

theorem portion_start : s.portion bytes <+: bytes := by
  unfold portion
  split
  · exact List.prefix_rfl
  · exact List.take_prefix _ _

/-- Bytes after others fit if both fit one after the other. -/
theorem fits_append :
    s.Fits (bytes ++ rest) ↔ s.Fits bytes ∧ (s.received bytes bites).Fits rest := by
  unfold Fits
  rw [s.portion_append bytes rest bites]
  constructor
  · intro h
    have hlength := congrArg List.length h
    have hfirst := (s.portion_start bytes).length_le
    have hnext := ((s.received bytes bites).portion_start rest).length_le
    rw [List.length_append, List.length_append] at hlength
    exact List.append_inj h (by omega)
  · rintro ⟨hfirst, hnext⟩
    rw [hfirst, hnext]

variable {s bytes}

/-- A sink that has no room for some bytes is full after them. -/
theorem received_append_of_not_fits (h : ¬s.Fits bytes) :
    s.received (bytes ++ rest) bites = s.received bytes bites := by
  unfold Fits portion at h
  cases hroom : s.room with
  | none => simp [hroom] at h
  | some room =>
      have hlt : room < bytes.length := by simpa [hroom, List.take_eq_self_iff] using h
      simp only [received, portion, hroom, Option.map_some, List.length_append]
      rw [List.take_append_of_le_length (Nat.le_of_lt hlt),
        show room - (bytes.length + rest.length) = room - bytes.length by omega]

end

/-- A write takes at least one byte unless the sink is full, and never more than fit. -/
theorem bite_spec (s : Sink) (bytes : Bytes) :
    s.Fits (bytes.take (s.bite bytes.length)) ∧
      (bytes ≠ [] → s.bite bytes.length = 0 → s.room = some 0) := by
  unfold Fits portion bite
  cases s.room with
  | none =>
      refine ⟨rfl, fun hbytes hbite => absurd hbite ?_⟩
      have := List.length_pos_iff.mpr hbytes
      cases s.bites <;> simp only <;> omega
  | some room =>
      refine ⟨?_, fun hbytes hbite => congrArg some ?_⟩
      · rw [List.take_eq_self_iff, List.length_take]
        cases s.bites <;> simp only <;> omega
      · have := List.length_pos_iff.mpr hbytes
        cases hbites : s.bites <;> simp only [hbites] at hbite <;> omega

theorem take_of_fits {s : Sink} {bytes : Bytes} (h : s.Fits bytes) :
    s.take bytes = s.received bytes s.bites.tail := by
  simp [take, received, show s.portion bytes = bytes from h]

/-- However a piece is cut, what fits of it is written, and it fails if that is not all. -/
theorem write_eq (s : Sink) (bytes : Bytes) :
    ∃ bites, s.write bytes =
      (if s.Fits bytes then none else some s.whenFull, s.received bytes bites) := by
  fun_induction s.write bytes with
  | case1 s => exact ⟨s.bites, by rw [if_pos s.fits_nil, s.received_nil]⟩
  | case2 s bytes hbytes hbite =>
      have hroom := (s.bite_spec bytes).2 hbytes hbite
      have hfull : ¬s.Fits bytes := by simpa [Fits, portion, hroom] using Ne.symm hbytes
      refine ⟨s.bites.tail, ?_⟩
      rw [if_neg hfull]
      simp [take, received, portion, hroom]
  | case3 s bytes hbytes hbite ih =>
      obtain ⟨bites, ih⟩ := ih
      have hfits := (s.bite_spec bytes).1
      have hwhole := List.take_append_drop (s.bite bytes.length) bytes
      have hiff := s.fits_append (bytes.take (s.bite bytes.length))
        (bytes.drop (s.bite bytes.length)) s.bites.tail
      rw [hwhole] at hiff
      refine ⟨bites, ?_⟩
      rw [ih, take_of_fits hfits, received_received, hwhole, received_whenFull]
      simp only [hiff, hfits, true_and]

/-- Pieces are written like their bytes at once. -/
theorem writeAll_eq (s : Sink) (pieces : List Bytes) :
    ∃ bites, s.writeAll pieces =
      (if s.Fits pieces.flatten then none else some s.whenFull,
        s.received pieces.flatten bites) := by
  induction pieces generalizing s with
  | nil => exact ⟨s.bites, by rw [writeAll, List.flatten_nil, if_pos s.fits_nil, s.received_nil]⟩
  | cons piece pieces ih =>
      obtain ⟨bites, hwrite⟩ := s.write_eq piece
      obtain ⟨bites', ih⟩ := ih (s.received piece bites)
      have hiff := s.fits_append piece pieces.flatten bites
      by_cases hpiece : s.Fits piece
      · rw [if_pos hpiece] at hwrite
        refine ⟨bites', ?_⟩
        simp only [writeAll, hwrite, ih, List.flatten_cons, received_received, received_whenFull,
          hiff, hpiece, true_and]
      · rw [if_neg hpiece] at hwrite
        refine ⟨bites, ?_⟩
        simp only [writeAll, hwrite, List.flatten_cons, hiff, hpiece, false_and, if_false,
          received_append_of_not_fits _ _ hpiece]

end Sink

/-- The text of an event as it is written. -/
def Event.bytes (format : Format) (event : Event) : Bytes := Bytes.ofText (event.text format)

/-- The texts of events, one after the other. -/
def textOf (format : Format) (events : List Event) : Bytes := events.flatMap (·.bytes format)

theorem ofText_join (pieces : List String) :
    Bytes.ofText (String.join pieces) = (pieces.map Bytes.ofText).flatten := by
  induction pieces with
  | nil => rfl
  | cons piece pieces ih => simp [ih]

theorem flatten_pieces (format : Format) (event : Event) :
    ((event.pieces format).map Bytes.ofText).flatten = event.bytes format := by
  rw [← ofText_join, join_pieces]
  rfl

theorem textOf_append (format : Format) (events rest : List Event) :
    textOf format (events ++ rest) = textOf format events ++ textOf format rest :=
  List.flatMap_append

theorem textOf_singleton (format : Format) (event : Event) :
    textOf format [event] = event.bytes format := List.flatMap_singleton _ _

/-- What becomes of an event at a sink. -/
def Event.verdict (format : Format) (event : Event) (s : Sink) : Option OutputFault :=
  if ¬s.Fits (event.bytes format) then some s.whenFull
  else if event.flushes format ∧ s.refusedFlush = some (s.flushes + 1) then some .flushRefused
  else none

/-- One event: its text as far as there is room, and a flush if it is due and the text fits. -/
theorem emit_eq (format : Format) (event : Event) (s : Sink) :
    ∃ bites, event.emit format s =
      (event.verdict format s, (s.received (event.bytes format) bites).flushedTimes
        (if s.Fits (event.bytes format) ∧ event.flushes format then 1 else 0)) := by
  obtain ⟨bites, hwrites⟩ := s.writeAll_eq ((event.pieces format).map Bytes.ofText)
  rw [flatten_pieces] at hwrites
  refine ⟨bites, ?_⟩
  by_cases hfits : s.Fits (event.bytes format)
  · rw [if_pos hfits] at hwrites
    by_cases hflush : event.flushes format = true
    · simp only [Event.emit, hwrites, Event.verdict, hfits, hflush, if_true, not_true, if_false,
        true_and]
      rfl
    · simp only [Event.emit, hwrites, Event.verdict, hfits, hflush, not_true, if_false]
      rfl
  · rw [if_neg hfits] at hwrites
    simp only [Event.emit, hwrites, Event.verdict, hfits, if_false, not_false_iff, if_true,
      false_and]
    rfl

theorem emitAll_append (format : Format) (events rest : List Event) (s : Sink) :
    emitAll format (events ++ rest) s =
      ((emitAll format events s).1 ++ (emitAll format rest (emitAll format events s).2).1,
        (emitAll format rest (emitAll format events s).2).2) := by
  induction events generalizing s with
  | nil => rfl
  | cons event events ih => simp only [List.cons_append, emitAll, ih]

theorem length_emitAll (format : Format) (events : List Event) (s : Sink) :
    (emitAll format events s).1.length = events.length := by
  induction events generalizing s with
  | nil => rfl
  | cons event events ih => simp [emitAll, ih]

/-- The whole text of an event arrives after the texts of others. -/
def Whole (format : Format) (s : Sink) (before : List Event) (event : Event) : Prop :=
  s.portion (textOf format (before ++ [event])) =
    s.portion (textOf format before) ++ event.bytes format

instance (format : Format) (s : Sink) (before : List Event) (event : Event) :
    Decidable (Whole format s before event) := inferInstanceAs (Decidable (_ = _))

/-- How many of some events flush and arrive as a whole. -/
def flushCount (format : Format) (s : Sink) (before : List Event) : List Event → Nat
  | [] => 0
  | event :: rest =>
      (if Whole format s before event ∧ event.flushes format then 1 else 0) +
        flushCount format s (before ++ [event]) rest

theorem flushCount_append (format : Format) (s : Sink) (before events rest : List Event) :
    flushCount format s before (events ++ rest) =
      flushCount format s before events + flushCount format s (before ++ events) rest := by
  induction events generalizing before with
  | nil => simp [flushCount]
  | cons event events ih => simp [flushCount, ih, Nat.add_assoc]

/-- A text arrives as a whole if it fits when its turn comes. -/
theorem whole_iff (format : Format) (s : Sink) (before : List Event) (event : Event)
    (bites : List Nat) :
    Whole format s before event ↔
      (s.received (textOf format before) bites).Fits (event.bytes format) := by
  rw [Whole, textOf_append, textOf_singleton, s.portion_append _ _ bites,
    List.append_cancel_left_eq]
  rfl

/-- Where a sink stands after some events. -/
theorem emitAll_sink (format : Format) (events : List Event) (s : Sink) :
    ∃ bites, (emitAll format events s).2 =
      (s.received (textOf format events) bites).flushedTimes (flushCount format s [] events) := by
  induction events using List.reverseRecOn with
  | nil => exact ⟨s.bites, (s.received_nil).symm⟩
  | append_singleton before event ih =>
      obtain ⟨bites, ih⟩ := ih
      obtain ⟨bites', hemit⟩ := emit_eq format event (emitAll format before s).2
      have hlast : (emitAll format (before ++ [event]) s).2 =
          (event.emit format (emitAll format before s).2).2 := by
        rw [emitAll_append]
        rfl
      refine ⟨bites', ?_⟩
      rw [hlast, hemit, ih, flushCount_append, textOf_append, textOf_singleton]
      simp only [flushCount, Nat.add_zero, List.nil_append, whole_iff format s before event bites,
        Sink.fits_flushedTimes, Sink.received_flushedTimes, Sink.received_received,
        Sink.flushedTimes_flushedTimes]

/-- What becomes of an event among others. -/
theorem getElem?_emitAll (format : Format) (before : List Event) (event : Event)
    (after : List Event) (s : Sink) :
    (emitAll format (before ++ event :: after) s).1[before.length]? =
      some (event.verdict format (emitAll format before s).2) := by
  obtain ⟨_, hemit⟩ := emit_eq format event (emitAll format before s).2
  rw [emitAll_append, List.getElem?_append_right (Nat.le_of_eq (length_emitAll ..)), length_emitAll,
    Nat.sub_self, emitAll, hemit]
  rfl

/-- The report over a sink that has room for so much, takes writes in whatever parts, and may
refuse a flush. What arrives is the texts of all events in their order, as far as there is room,
whichever of them failed. Each event that flushes and arrives as a whole is flushed once, and no
other. An event succeeds if it arrives as a whole and its flush, if it has one, is not the one that
is refused; one that does not arrive as a whole fails as the sink does. -/
theorem delivery (format : Format) (s : Sink) (events : List Event) :
    (emitAll format events s).2.content = s.content ++ s.portion (textOf format events) ∧
      (emitAll format events s).2.flushes = s.flushes + flushCount format s [] events ∧
      (emitAll format events s).1.length = events.length ∧
      ∀ i : Fin events.length,
        ((emitAll format events s).1[i.val]? = some none ↔
          Whole format s (events.take i) events[i] ∧
            ¬(events[i].flushes format ∧
              s.refusedFlush = some (s.flushes + flushCount format s [] (events.take i) + 1))) ∧
        (Whole format s (events.take i) events[i] ∨
          (emitAll format events s).1[i.val]? = some (some s.whenFull)) := by
  obtain ⟨bites, hsink⟩ := emitAll_sink format events s
  refine ⟨by rw [hsink]; rfl, by rw [hsink]; rfl, length_emitAll .., fun i => ?_⟩
  obtain ⟨bites', hbefore⟩ := emitAll_sink format (events.take i) s
  have hverdict := getElem?_emitAll format (events.take i) events[i] (events.drop (i + 1)) s
  have hsplit : events.take i ++ events[i] :: events.drop (i + 1) = events := by simp
  rw [hsplit, List.length_take_of_le (Nat.le_of_lt i.isLt), hbefore, Event.verdict] at hverdict
  rw [hverdict]
  simp only [Sink.fits_flushedTimes, ← whole_iff]
  by_cases hwhole : Whole format s (events.take i) events[i]
  · simp only [hwhole, not_true, if_false, true_and, true_or, and_true, Option.some_inj,
      ite_eq_right_iff, reduceCtorEq, imp_false]
    rfl
  · simp only [hwhole, not_false_iff, if_true, false_and, false_or, Option.some_inj,
      reduceCtorEq, true_and]
    rfl

end LoadBench.Report
