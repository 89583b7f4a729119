import LoadBench.Proofs.Delivery
import LoadBench.Proofs.NumberTexts
import LoadBench.Report.Reader

/-!
The report in the line format can be read back. What is written after a phase is one object on a
line of its own, since whatever would end a string or a line is escaped, and no byte of a longer
character looks like a line break. An output is cut where it was put together, so that a reader has
from it what each phase was told of, one after the other.
-/

namespace LoadBench

namespace Bytes

/-- A byte of a character has its first bit set, unless it is the whole character. -/
theorem byte_of_char {c : Char} {b : UInt8} (h : b ∈ String.utf8EncodeChar c) :
    c.toNat = b.toNat ∨ 0x80 ≤ b.toNat := by
  have hhigh {n : Nat} (hlow : 0x80 ≤ n) (hlt : n < 256) (hb : b = UInt8.ofNat n) :
      0x80 ≤ b.toNat := by
    rw [hb, UInt8.toNat_ofNat', Nat.mod_eq_of_lt hlt]
    exact hlow
  simp only [String.utf8EncodeChar] at h
  split at h
  · left
    rw [List.mem_singleton.mp h, UInt8.toNat_ofNat', Nat.mod_eq_of_lt (by omega)]
    rfl
  · right
    split at h
    · simp only [List.mem_cons, List.not_mem_nil, or_false] at h
      rcases h with h | h <;> exact hhigh (by omega) (by omega) h
    · split at h <;> simp only [List.mem_cons, List.not_mem_nil, or_false] at h
      · rcases h with h | h | h <;> exact hhigh (by omega) (by omega) h
      · rcases h with h | h | h | h <;> exact hhigh (by omega) (by omega) h

/-- Only a line break has the byte of one. -/
theorem break_not_mem_ofText {s : String} (h : '\n' ∉ s.toList) : 0x0a ∉ ofText s := by
  rw [← String.ofList_toList (s := s), ofText_ofList, List.mem_flatMap]
  rintro ⟨c, hc, hb⟩
  rcases byte_of_char hb with hbyte | hhigh
  · have hbreak : c = '\n' := by
      rw [← Char.ofNat_toNat c, hbyte]
      rfl
    exact h (hbreak ▸ hc)
  · exact absurd hhigh (by decide)

end Bytes

namespace Json

/-- A numeral is read as the number for which it was written. -/
@[simp]
theorem natural?_repr (n : Nat) : natural? (.number n.repr) = some n := by
  rw [Nat.repr, natural?, String.toList_ofList, if_pos (isWhole_toDigits n),
    Nat.ofDigitChars_ten_toDigits]

end Json

namespace Report

open Json (MemberText)

/-! ## One line -/

/-- What the line after a phase says, member by member. -/
def members (kind : PhaseKind) (r : PhaseReport) : List (String × Json) :=
  [("phase", .string r.name),
    ("mode", .string r.mode.name),
    ("command", .string kind.commandName),
    ("iterations", .number (toString r.iterations)),
    ("elapsed_ms", .number (number r.elapsedMillis)),
    ("ops_per_sec", .number (number r.throughput)),
    ("executed", .number (toString r.counts.executed)),
    ("failed", .number (toString r.counts.failed))]

theorem line_eq (kind : PhaseKind) (r : PhaseReport) : ∃ texts,
    List.Forall₂ MemberText (members kind r) texts ∧
      line kind r = "\x7b" ++ String.intercalate "," texts ++ "\x7d" ++ "\n" := by
  have hstring (key text : String) :
      MemberText (key, .string text) (member key (jsonString text)) :=
    ⟨_, Json.written_string text, rfl⟩
  have hnumber (key : String) {text : String} (h : Json.isNumber text.toList = true) :
      MemberText (key, .number text) (member key text) := ⟨_, Json.written_number h, rfl⟩
  have hcount (key : String) (n : Nat) := hnumber key (Json.isNumber_toString n)
  have hfloat (key : String) (x : Float) := hnumber key (Json.isNumber_number x)
  have hbreak (s : String) : s ++ "\x7d\n" = s ++ "\x7d" ++ "\n" := by
    rw [String.append_assoc]
    rfl
  refine ⟨_, ?_, hbreak _⟩
  exact .cons (hstring ..) <| .cons (hstring ..) <| .cons (hstring ..) <| .cons (hcount ..) <|
    .cons (hfloat ..) <| .cons (hfloat ..) <| .cons (hcount ..) <| .cons (hcount ..) .nil

/-- The reader finds each of its members exactly once. -/
theorem ofJson?_members (kind : PhaseKind) (r : PhaseReport) :
    Fields.ofJson? (.object (members kind r)) = some (.ofReport kind r) := by
  simp [Fields.ofJson?, Json.member?, members, Json.string?, Fields.ofReport]

/-- Some bytes are a line that says an object, and nothing in them ends the line. -/
structure Says (body : Bytes) (members : List (String × Json)) : Prop where
  oneLine : 0x0a ∉ body
  reads : body.text?.bind Json.ofText? = some (.object members)

theorem bytes_finished (kind : PhaseKind) (r : PhaseReport) : ∃ body,
    Event.bytes .json (.finished kind r) = body ++ [0x0a] ∧ Says body (members kind r) := by
  obtain ⟨texts, htexts, hline⟩ := line_eq kind r
  refine ⟨Bytes.ofText ("\x7b" ++ String.intercalate "," texts ++ "\x7d"), ?_, ?_, ?_⟩
  · rw [Event.bytes, Event.text, hline, Bytes.ofText_append]
    rfl
  · exact Bytes.break_not_mem_ofText (Json.oneLine_object htexts)
  · rw [Bytes.text?_ofText]
    exact Json.ofText?_object htexts (List.cons_ne_nil _ _)

theorem Says.ofLine? {body : Bytes} {kind : PhaseKind} {r : PhaseReport}
    (h : Says body (members kind r)) : Fields.ofLine? body = some (.ofReport kind r) := by
  have hline : Fields.ofLine? body = (body.text?.bind Json.ofText?).bind Fields.ofJson? := by
    rw [Option.bind_assoc]
    rfl
  rw [hline, h.reads]
  exact ofJson?_members kind r

/-! ## Many lines -/

theorem lines?_cons {body : Bytes} (h : 0x0a ∉ body) (rest : Bytes) :
    lines? (body ++ 0x0a :: rest) = (lines? rest).map (body :: ·) := by
  have hne : rest.splitOn 0x0a ≠ [] := List.splitOn_ne_nil _ _
  simp only [lines?, List.splitOn_append_cons_self_of_not_mem h]
  rw [List.getLast?_cons_of_ne_nil hne, List.dropLast_cons_of_ne_nil hne]
  split <;> rfl

theorem readOutput?_cons {body : Bytes} {fields : Fields} (h : 0x0a ∉ body)
    (hf : Fields.ofLine? body = some fields) (rest : Bytes) :
    readOutput? (body ++ 0x0a :: rest) = (readOutput? rest).map (fields :: ·) := by
  simp only [readOutput?, lines?_cons h]
  cases lines? rest with
  | none => rfl
  | some lines =>
      simp only [Option.map_some, Option.bind_eq_bind, Option.bind_some, List.mapM_cons, hf]
      cases lines.mapM Fields.ofLine? <;> rfl

/-- The texts of events are read line by line. -/
theorem readOutput?_textOf (events : List Event) :
    readOutput? (textOf .json events) = some (events.filterMap Event.fields?) := by
  induction events with
  | nil => rfl
  | cons event events ih =>
      have hcons : textOf .json (event :: events) = event.bytes .json ++ textOf .json events :=
        List.flatMap_cons
      cases event with
      | started kind iterations => exact ih
      | finished kind r =>
          obtain ⟨body, hbytes, hsays⟩ := bytes_finished kind r
          rw [hcons, hbytes, List.append_assoc, List.singleton_append,
            readOutput?_cons hsays.oneLine hsays.ofLine?, ih]
          rfl

/-! ## Output -/

/-- The output of an event and of several, in whatever parts a sink without a bound takes them. What
is written after a phase is one line: no line break stands in it except the one that ends it, and
what is before that is an object with exactly the members that there are to tell, which a reader
takes for the fields of the phase. From the output of any events the reader has, line by line, what
the phases that ended were told of, and a phase that starts adds nothing. -/
theorem output_reads_back (s : Sink) :
    (∀ kind r, ∃ body,
      ((Event.finished kind r).emit .json { s with room := none }).2.content =
          s.content ++ (body ++ [0x0a]) ∧
        0x0a ∉ body ∧
        body.text?.bind Json.ofText? = some (.object (members kind r)) ∧
        Fields.ofLine? body = some (.ofReport kind r)) ∧
      ∀ events, ∃ written,
        (emitAll .json events { s with room := none }).2.content = s.content ++ written ∧
          readOutput? written = some (events.filterMap Event.fields?) := by
  constructor
  · intro kind r
    obtain ⟨body, hbytes, hsays⟩ := bytes_finished kind r
    obtain ⟨bites, hemit⟩ := emit_eq .json (.finished kind r) { s with room := none }
    refine ⟨body, ?_, hsays.oneLine, hsays.reads, hsays.ofLine?⟩
    rw [hemit, ← hbytes]
    rfl
  · intro events
    obtain ⟨bites, hsink⟩ := emitAll_sink .json events { s with room := none }
    refine ⟨textOf .json events, ?_, readOutput?_textOf events⟩
    rw [hsink]
    rfl

end Report

end LoadBench
