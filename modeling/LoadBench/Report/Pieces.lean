import LoadBench.Report

/-!
A report on its way out. A text is not written at once but in pieces, as it is put together: the
fixed parts of a line and what stands between them, the marks of a JSON object, and in a JSON string
each character that is escaped and each stretch of characters that are not. Together the pieces of
an event are its text.
-/

namespace LoadBench.Report

def isEscaped (c : Char) : Bool := jsonChar c != [c]

/-- Characters with a cut before and after each one that is escaped. -/
def fragments (cs : List Char) : List (List Char) :=
  cs.foldr (fun c cut =>
    match cut with
    | (d :: ds) :: rest => if isEscaped c || isEscaped d then [c] :: cut else (c :: d :: ds) :: rest
    | cut => [c] :: cut) []

/-- A JSON string in pieces. -/
def stringPieces (s : String) : List String :=
  "\"" :: (fragments s.toList).map (fun cs => String.ofList (cs.flatMap jsonChar)) ++ ["\""]

/-- A member of a JSON object in pieces, with its value in pieces. -/
def memberPieces (key : String) (value : List String) : List String :=
  stringPieces key ++ ":" :: value

def headerPieces (kind : PhaseKind) (iterations : Nat) : List String :=
  ["Run ", kind.label, " ", toString iterations, "\n"]

def blockPieces (r : PhaseReport) : List String :=
  let time := ["Time: ", r.elapsed.render, "\n"]
  if 0 < r.counts.failed then
    time ++ ["Failed: ", toString r.counts.failed, " of ", toString r.counts.executed,
      " commands (timing is not reliable)\n"]
  else time

def linePieces (kind : PhaseKind) (r : PhaseReport) : List String :=
  let members :=
    [memberPieces "phase" (stringPieces r.name),
      memberPieces "mode" (stringPieces r.mode.name),
      memberPieces "command" (stringPieces kind.commandName),
      memberPieces "iterations" [toString r.iterations],
      memberPieces "elapsed_ms" [number r.elapsedMillis],
      memberPieces "ops_per_sec" [number r.throughput],
      memberPieces "executed" [toString r.counts.executed],
      memberPieces "failed" [toString r.counts.failed]]
  "\x7b" :: [","].intercalate members ++ ["\x7d", "\n"]

/-- An event in the pieces in which it is written. -/
def Event.pieces : Format → Event → List String
  | .text, .started kind iterations => headerPieces kind iterations
  | .json, .started _ _ => []
  | .text, .finished _ report => blockPieces report
  | .json, .finished kind report => linePieces kind report

theorem flatten_fragments (cs : List Char) : (fragments cs).flatten = cs := by
  induction cs with
  | nil => rfl
  | cons c cs ih =>
      rw [fragments, List.foldr_cons, ← fragments]
      split
      · next d ds rest hcut =>
        split
        · rw [List.flatten_cons, ih]
          rfl
        · rw [← ih, hcut]
          rfl
      · rw [List.flatten_cons, ih]
        rfl

theorem join_stringPieces (s : String) : String.join (stringPieces s) = jsonString s := by
  have hflat : s.toList.flatMap jsonChar = (fragments s.toList).flatMap (·.flatMap jsonChar) := by
    rw [← List.flatMap_assoc, List.flatMap_id', flatten_fragments]
  rw [← String.toList_inj, jsonString, hflat]
  simp [stringPieces, List.flatMap_map]

theorem join_memberPieces (key : String) (value : List String) :
    String.join (memberPieces key value) = member key (String.join value) := by
  simp [memberPieces, member, join_stringPieces, String.append_assoc]

theorem join_linePieces (kind : PhaseKind) (r : PhaseReport) :
    String.join (linePieces kind r) = line kind r := by
  simp [linePieces, line, List.intercalate, join_memberPieces, join_stringPieces,
    String.append_assoc]

/-- The pieces of an event are its text, and nothing else is written. -/
theorem join_pieces (format : Format) (event : Event) :
    String.join (event.pieces format) = event.text format := by
  cases event with
  | started kind iterations =>
      cases format with
      | text => simp [Event.pieces, Event.text, headerPieces, header, String.append_assoc]
      | json => rfl
  | finished kind report =>
      cases format with
      | text =>
          simp only [Event.pieces, Event.text, blockPieces, block]
          split <;> simp [String.append_assoc, -String.reduceAppend]
      | json => exact join_linePieces kind report

end LoadBench.Report
