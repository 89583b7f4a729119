import Mathlib.Data.List.Forall2
import LoadBench.Proofs.ReportLines
import LoadBench.Proofs.SpanTexts

/-!
The report in the text format can be read back. No word of a line has a blank or a line break in it,
so a line is cut into the words of which it was made, and its first word says what they mean. Of the
lines of one event only the first can be a header or a time, so it shows where the next event
begins, and a reader has from the text what each event told and in which order.
-/

namespace LoadBench

theorem PhaseKind.ofLabel?_label (kind : PhaseKind) : ofLabel? kind.label = some kind := by
  cases kind <;> decide

namespace Report

/-! ## Words -/

/-- A word that neither ends itself nor its line. -/
def Plain (word : String) : Prop := ∀ c ∈ word.toList, c ≠ ' ' ∧ c ≠ '\n'

instance (word : String) : Decidable (Plain word) := List.decidableBAll _ _

theorem plain_of_isDigit {c : Char} (h : c.isDigit = true) : c ≠ ' ' ∧ c ≠ '\n' := by
  constructor <;> rintro rfl <;> cases h

theorem plain_toString (n : Nat) : Plain (toString n) := fun _ hc =>
  plain_of_isDigit (Json.isDigit_of_mem_toString hc)

theorem plain_label (kind : PhaseKind) : Plain kind.label := by
  cases kind <;> decide

theorem plain_inUnit (n places : Nat) {unit : String} (hu : Plain unit) :
    Plain (Span.inUnit n places unit) := by
  obtain ⟨kept, zeros, hdigits, hdecimals⟩ :=
    Span.decimals_cases (Span.fixedDigits places (n % 10 ^ places))
  have hkept : ∀ c ∈ Span.decimals (Span.fixedDigits places (n % 10 ^ places)),
      c ≠ ' ' ∧ c ≠ '\n' := by
    intro c hc
    rw [hdecimals] at hc
    split at hc
    · cases hc
    · rcases List.mem_cons.mp hc with rfl | hc
      · decide
      · refine plain_of_isDigit (Span.isDigit_of_mem_fixedDigits places (n % 10 ^ places) c ?_)
        rw [hdigits]
        exact List.mem_append_left _ hc
  intro c hc
  simp only [Span.inUnit, String.toList_append, String.toList_ofList, List.mem_append] at hc
  rcases hc with (hc | hc) | hc
  · exact plain_toString _ c hc
  · exact hkept c hc
  · exact hu c hc

theorem plain_render (s : Span) : Plain s.render := by
  unfold Span.render
  split
  · exact plain_inUnit _ _ (by decide)
  split
  · exact plain_inUnit _ _ (by decide)
  split
  · exact plain_inUnit _ _ (by decide)
  · exact plain_inUnit _ _ (by decide)

theorem natural?_toString (n : Nat) : natural? (toString n) = some n := by
  rw [natural?, if_pos (Json.isWhole_toString n), numeral_toString]

theorem words_intercalate {ws : List String} (hne : ws ≠ []) (h : ∀ w ∈ ws, Plain w) :
    words (String.intercalate " " ws) = ws := by
  have hblank : ∀ w ∈ ws.map String.toList, ' ' ∉ w := by
    intro w hw hmem
    obtain ⟨word, hword, rfl⟩ := List.mem_map.mp hw
    exact (h word hword ' ' hmem).1 rfl
  have hne : ws.map String.toList ≠ [] := fun hnil => hne (List.map_eq_nil_iff.mp hnil)
  rw [words, String.toList_intercalate]
  change ((List.splitOn ' ' ([' '].intercalate (ws.map String.toList))).map String.ofList) = ws
  rw [List.splitOn_intercalate ' ' hblank hne, List.map_map]
  simp

theorem break_not_mem_intercalate {ws : List String} (h : ∀ w ∈ ws, Plain w) :
    '\n' ∉ (String.intercalate " " ws).toList := by
  induction ws with
  | nil => exact List.not_mem_nil
  | cons w ws ih =>
      have hword : '\n' ∉ w.toList := fun hmem => (h w List.mem_cons_self '\n' hmem).2 rfl
      have hrest := ih fun w' hw' => h w' (List.mem_cons_of_mem w hw')
      cases ws with
      | nil => rwa [String.intercalate_singleton]
      | cons w' ws =>
          rw [String.intercalate_cons_cons, String.toList_append, String.toList_append,
            List.mem_append, List.mem_append, not_or, not_or]
          exact ⟨⟨hword, by decide⟩, hrest⟩

/-! ## Lines -/

/-- A line that is read as one remark. -/
structure Tells (line : Bytes) (r : Remark) : Prop where
  oneLine : 0x0a ∉ line
  reads : Remark.ofLine? line = some r

/-- A line of plain words tells what its words tell. -/
theorem tells_of_words {ws : List String} {r : Remark} (h : ∀ w ∈ ws, Plain w)
    (hr : Remark.ofWords? ws = some r) : Tells (Bytes.ofText (String.intercalate " " ws)) r := by
  have hne : ws ≠ [] := by
    rintro rfl
    cases hr
  refine ⟨Bytes.break_not_mem_ofText (break_not_mem_intercalate h), ?_⟩
  rw [Remark.ofLine?, Bytes.text?_ofText, Option.bind_some, words_intercalate hne h, hr]

theorem tells_run (kind : PhaseKind) (n : Nat) :
    Tells (Bytes.ofText ("Run " ++ kind.label ++ " " ++ toString n)) (.run kind n) := by
  have hline : "Run " ++ kind.label ++ " " ++ toString n =
      String.intercalate " " ["Run", kind.label, toString n] := by
    simp [← String.toList_inj]
  rw [hline]
  apply tells_of_words
  · intro w hw
    simp only [List.mem_cons, List.not_mem_nil, or_false] at hw
    rcases hw with rfl | rfl | rfl
    · decide
    · exact plain_label kind
    · exact plain_toString n
  · simp only [Remark.ofWords?, PhaseKind.ofLabel?_label, natural?_toString]
    rfl

theorem tells_time (s : Span) :
    Tells (Bytes.ofText ("Time: " ++ s.render)) (.time s.seconds) := by
  have hline : "Time: " ++ s.render = String.intercalate " " ["Time:", s.render] := by
    simp
  rw [hline]
  apply tells_of_words
  · intro w hw
    simp only [List.mem_cons, List.not_mem_nil, or_false] at hw
    rcases hw with rfl | rfl
    · decide
    · exact plain_render s
  · simp only [Remark.ofWords?, seconds?_render, Option.map_some]

theorem tells_failures (failed executed : Nat) :
    Tells (Bytes.ofText ("Failed: " ++ toString failed ++ " of " ++ toString executed ++
      " commands (timing is not reliable)")) (.failures failed executed) := by
  have hline : "Failed: " ++ toString failed ++ " of " ++ toString executed ++
      " commands (timing is not reliable)" =
      String.intercalate " " ["Failed:", toString failed, "of", toString executed, "commands",
        "(timing", "is", "not", "reliable)"] := by
    simp [← String.toList_inj]
  rw [hline]
  apply tells_of_words
  · intro w hw
    simp only [List.mem_cons, List.not_mem_nil, or_false] at hw
    rcases hw with rfl | rfl | rfl | rfl | rfl | rfl | rfl | rfl | rfl
    case inr.inl => exact plain_toString failed
    case inr.inr.inr.inl => exact plain_toString executed
    all_goals decide
  · simp only [Remark.ofWords?, natural?_toString]
    rfl

/-! ## Events -/

/-- Lines with the breaks that end them. -/
def joined (lines : List Bytes) : Bytes := lines.flatMap (· ++ [0x0a])

@[simp] theorem joined_nil : joined [] = [] := rfl

theorem joined_cons (line : Bytes) (lines : List Bytes) :
    joined (line :: lines) = line ++ 0x0a :: joined lines := by
  rw [joined, List.flatMap_cons, List.append_assoc, List.singleton_append, ← joined]

theorem joined_ofText (line : String) (lines : List Bytes) :
    joined (Bytes.ofText line :: lines) = Bytes.ofText (line ++ "\n") ++ joined lines := by
  rw [joined_cons, Bytes.ofText_append, List.append_assoc]
  rfl

/-- An event is written in lines, each of which tells one remark. -/
theorem exists_lines (event : Event) : ∃ lines,
    event.bytes .text = joined lines ∧ List.Forall₂ Tells lines event.remarks := by
  cases event with
  | started kind n =>
      refine ⟨[Bytes.ofText ("Run " ++ kind.label ++ " " ++ toString n)], ?_,
        .cons (tells_run kind n) .nil⟩
      rw [joined_ofText, joined_nil, List.append_nil]
      rfl
  | finished kind r =>
      by_cases hfailed : 0 < r.counts.failed
      · refine ⟨[Bytes.ofText ("Time: " ++ r.elapsed.render),
          Bytes.ofText ("Failed: " ++ toString r.counts.failed ++ " of " ++
            toString r.counts.executed ++ " commands (timing is not reliable)")], ?_, ?_⟩
        · rw [joined_ofText, joined_ofText, joined_nil, List.append_nil,
            ← Bytes.ofText_append, Event.bytes, Event.text, block, if_pos hfailed]
          simp only [String.append_assoc]
          rfl
        · rw [Event.remarks, if_pos hfailed]
          exact .cons (tells_time r.elapsed) (.cons (tells_failures _ _) .nil)
      · refine ⟨[Bytes.ofText ("Time: " ++ r.elapsed.render)], ?_, ?_⟩
        · rw [joined_ofText, joined_nil, List.append_nil, Event.bytes, Event.text,
            block, if_neg hfailed]
        · rw [Event.remarks, if_neg hfailed]
          exact .cons (tells_time r.elapsed) .nil

theorem exists_lines_textOf (events : List Event) : ∃ lines,
    textOf .text events = joined lines ∧
      List.Forall₂ Tells lines (events.flatMap Event.remarks) := by
  induction events with
  | nil => exact ⟨[], rfl, .nil⟩
  | cons event events ih =>
      obtain ⟨rest, htext, hrest⟩ := ih
      obtain ⟨lines, hbytes, hlines⟩ := exists_lines event
      refine ⟨lines ++ rest, ?_, List.rel_append hlines hrest⟩
      rw [textOf, List.flatMap_cons, hbytes, ← textOf, htext, joined, joined, joined,
        List.flatMap_append]

/-- Lines that were put together are found again, and each is read as what it tells. -/
theorem readRemarks?_joined {lines : List Bytes} {remarks : List Remark}
    (h : List.Forall₂ Tells lines remarks) : readRemarks? (joined lines) = some remarks := by
  have hlines : lines? (joined lines) = some lines ∧ lines.mapM Remark.ofLine? = some remarks := by
    induction h with
    | nil => exact ⟨rfl, rfl⟩
    | @cons line r lines remarks hline _ ih =>
        obtain ⟨hcut, hread⟩ := ih
        constructor
        · rw [joined_cons, lines?_cons hline.oneLine, hcut, Option.map_some]
        · rw [List.mapM_cons, hline.reads, hread]
          rfl
  rw [readRemarks?, hlines.1, Option.bind_some, hlines.2]

/-- No event begins with what is said about failures. -/
theorem head_remarks (events : List Event) (failed executed : Nat) (rest : List Remark) :
    events.flatMap Event.remarks ≠ .failures failed executed :: rest := by
  cases events with
  | nil => simp
  | cons event events =>
      rw [List.flatMap_cons]
      cases event <;> simp [Event.remarks]

theorem gather?_time (seconds : Rat) {rest : List Remark}
    (h : ∀ failed executed tail, rest ≠ .failures failed executed :: tail) :
    gather? (.time seconds :: rest) = (gather? rest).map (.finished seconds none :: ·) := by
  rw [gather?]
  exact h

theorem gather?_remarks (events : List Event) :
    gather? (events.flatMap Event.remarks) = some (events.map Event.told) := by
  induction events with
  | nil => rfl
  | cons event events ih =>
      rw [List.flatMap_cons, List.map_cons]
      cases event with
      | started kind n =>
          simp only [Event.remarks, List.singleton_append, gather?, ih, Option.map_some]
          rfl
      | finished kind r =>
          by_cases hfailed : 0 < r.counts.failed
          · simp only [Event.remarks, Event.told, if_pos hfailed, List.cons_append,
              List.nil_append, gather?, ih, Option.map_some]
          -- Only a line about failures would be taken for a part of this event.
          · simp only [Event.remarks, Event.told, if_neg hfailed, List.cons_append,
              List.nil_append, gather?_time _ (head_remarks events), ih, Option.map_some]

/-- The output of any events in the text format, in whatever parts a sink without a bound takes it.
Its lines are one header for each phase that starts, with the kind of the phase and the number of
its commands, and for each phase that ends one time, which is exactly the time that the phase took,
with a line about failures behind it exactly if there were any. The order of the events and all
these data are read back from it. The text of a span has the value of the span, and spans with less
than a second of nanoseconds have no value in common. -/
theorem transcript_reads_back (s : Sink) :
    (∀ events, ∃ written,
      (emitAll .text events { s with room := none }).2.content = s.content ++ written ∧
        readRemarks? written = some (events.flatMap Event.remarks) ∧
        readTranscript? written = some (events.map Event.told)) ∧
      (∀ span : Span, seconds? span.render = some span.seconds) ∧
      ∀ span span' : Span, span.nanos < nanosPerSecond → span'.nanos < nanosPerSecond →
        (span.seconds = span'.seconds ↔ span = span') := by
  refine ⟨fun events => ?_, seconds?_render, fun _ _ => Span.seconds_inj⟩
  obtain ⟨bites, hsink⟩ := emitAll_sink .text events { s with room := none }
  obtain ⟨lines, htext, hlines⟩ := exists_lines_textOf events
  have hremarks : readRemarks? (textOf .text events) = some (events.flatMap Event.remarks) := by
    rw [htext]
    exact readRemarks?_joined hlines
  refine ⟨textOf .text events, ?_, hremarks, ?_⟩
  · rw [hsink]
    rfl
  · rw [readTranscript?, hremarks, Option.bind_some, gather?_remarks]

/-- A phase that started with three commands and took a second and a half, in which two of the three
failed. The sink takes no more than one byte with its first write. -/
theorem transcript_reads_back_of_failures :
    let events := [Event.started .pooledGet 3,
      Event.finished .pooledGet ⟨⟨"pooled-get", .pooled, 3, ⟨3, 2⟩⟩, ⟨1, 500000000⟩⟩]
    (∃ written,
      (emitAll .text events { room := none, bites := [0] }).2.content = written ∧
        readTranscript? written =
          some [.started .pooledGet 3, .finished (1 + 500000000 / 1000000000) (some (2, 3))]) ∧
      (Span.seconds ⟨1, 500000000⟩ ≠ Span.seconds ⟨1, 50000000⟩) := by
  intro events
  obtain ⟨hevents, _, hinj⟩ := transcript_reads_back { bites := [0] }
  obtain ⟨written, hcontent, _, hread⟩ := hevents events
  refine ⟨⟨written, hcontent, ?_⟩, ?_⟩
  · rw [hread]
    simp [events, Event.told, Span.seconds, nanosPerSecond]
  · have hne : (⟨1, 500000000⟩ : Span) ≠ ⟨1, 50000000⟩ := by decide
    exact fun h => hne ((hinj _ _ (by decide) (by decide)).mp h)

end Report

end LoadBench
