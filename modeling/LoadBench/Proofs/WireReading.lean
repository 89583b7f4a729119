import Mathlib.Data.List.Basic
import LoadBench.Wire.Reader

/-!
A receiver reads from the wire what was sent, whatever the commands hold. The bytes of a command
are an array of strings, and a reader of such arrays finds in them the name of the command and its
arguments in the order in which they were given. The bytes of several commands need no separators:
a reader finds the commands again, one after the other and with nothing left over, so there is only
one sequence of commands that has these bytes. A request that is cut short is not taken for one.
-/

namespace LoadBench

namespace Command

/-- One call that adds to a command. -/
inductive Call where
  | arg (a : Bytes)
  | argsFrom (as : List Bytes)

/-- What a call adds, in order. -/
def Call.values : Call → List Bytes
  | .arg a => [a]
  | .argsFrom as => as

def Call.apply (c : Command) : Call → Command
  | .arg a => c.arg a
  | .argsFrom as => c.argsFrom as

/-- The command of a name after calls that add to it. -/
def build (name : String) (calls : List Call) : Command := calls.foldl Call.apply (.ofName name)

/-- What a command sends: its name and then its arguments. -/
def parts (c : Command) : List Bytes := Bytes.ofText c.name :: c.args

theorem apply_eq_argsFrom (c : Command) (call : Call) : call.apply c = c.argsFrom call.values := by
  cases call <;> rfl

/-- Whichever calls add them, the arguments stand in the order of the calls. -/
theorem parts_build (name : String) (calls : List Call) :
    (build name calls).parts = Bytes.ofText name :: calls.flatMap Call.values := by
  suffices h : ∀ c : Command, calls.foldl Call.apply c = c.argsFrom (calls.flatMap Call.values) by
    rw [build, h]
    rfl
  induction calls with
  | nil =>
      intro c
      rw [List.foldl_nil, List.flatMap_nil, argsFrom, List.append_nil]
  | cons call calls ih =>
      intro c
      rw [List.foldl_cons, ih, apply_eq_argsFrom, List.flatMap_cons, argsFrom, argsFrom, argsFrom,
        List.append_assoc]

theorem parts_injective : Function.Injective parts := by
  intro c c' h
  obtain ⟨hname, hargs⟩ := List.cons.inj h
  cases c
  cases c'
  exact congrArg₂ Command.mk (Bytes.ofText_inj.mp hname) hargs

end Command

namespace Wire

/-- What one connection sends for commands that are executed one after the other. -/
def requests (cs : List Command) : Bytes := cs.flatMap request

theorem byte_of_digit {c : Char} (h : c.isDigit = true) :
    c.val.toUInt8.toNat = c.toNat ∧ String.utf8EncodeChar c = [c.val.toUInt8] ∧
      isDigit c.val.toUInt8 = true := by
  rw [Char.isDigit_iff_toNat] at h
  have hlow : 48 ≤ c.toNat := h.1
  have hhigh : c.toNat ≤ 57 := h.2
  have hbyte : c.val.toUInt8.toNat = c.toNat := by
    rw [UInt32.toNat_toUInt8]
    exact Nat.mod_eq_of_lt (show c.toNat < 2 ^ 8 by omega)
  refine ⟨hbyte, ?_, ?_⟩
  · apply String.utf8EncodeChar_eq_singleton
    rw [Char.utf8Size_eq_one_iff, UInt32.le_iff_toNat_le]
    exact Nat.le_trans hhigh (by decide)
  · simp only [isDigit, Bool.and_eq_true, decide_eq_true_eq, UInt8.le_iff_toNat_le, hbyte]
    exact ⟨hlow, hhigh⟩

theorem ofText_toString (n : Nat) :
    Bytes.ofText (toString n) = (Nat.toDigits 10 n).map fun c => c.val.toUInt8 := by
  rw [Nat.toString_eq_ofList_toDigits, Bytes.ofText_ofList, List.flatMap_def, List.map_congr_left
    (g := fun c => [c.val.toUInt8]), ← List.flatMap_def, List.map_eq_flatMap]
  intro c hc
  exact (byte_of_digit (Nat.isDigit_of_mem_toDigits (by decide) (by decide) hc)).2.1

theorem numeral_ofText_toString (n : Nat) : numeral (Bytes.ofText (toString n)) = n := by
  calc numeral (Bytes.ofText (toString n))
      = (Nat.toDigits 10 n).foldl (fun m c => 10 * m + (c.val.toUInt8.toNat - 0x30)) 0 := by
        rw [numeral, ofText_toString, List.foldl_map]
    _ = (Nat.toDigits 10 n).foldl (fun m c => 10 * m + (c.toNat - '0'.toNat)) 0 := by
        refine List.foldl_ext _ _ _ fun m c hc => ?_
        rw [(byte_of_digit (Nat.isDigit_of_mem_toDigits (by decide) (by decide) hc)).1]
        rfl
    _ = n := Nat.ofDigitChars_ten_toDigits

theorem isHeader_header (mark : UInt8) (n : Nat) : IsHeader mark n (header mark n) := by
  refine ⟨Bytes.ofText (toString n), ?_, ?_, numeral_ofText_toString n, rfl⟩
  · rw [ofText_toString, Ne, List.map_eq_nil_iff]
    exact Nat.toDigits_ne_nil
  · intro d hd
    rw [ofText_toString, List.mem_map] at hd
    obtain ⟨c, hc, rfl⟩ := hd
    exact (byte_of_digit (Nat.isDigit_of_mem_toDigits (by decide) (by decide) hc)).2.2

theorem isBulk_bulk (value : Bytes) : IsBulk value (bulk value) :=
  ⟨_, isHeader_header 0x24 value.length, List.append_assoc _ _ _⟩

/-- Things that each have the form of their own are a series. -/
theorem series_flatMap {α : Type} {IsForm : α → Bytes → Prop} {write : α → Bytes}
    (h : ∀ a, IsForm a (write a)) (as : List α) : Series IsForm as (as.flatMap write) := by
  induction as with
  | nil => exact .nil
  | cons a as ih => exact .cons (h a) ih

theorem isArray_request (c : Command) : IsArray c.parts (request c) :=
  ⟨_, _, isHeader_header 0x2a c.parts.length, series_flatMap isBulk_bulk c.parts, rfl⟩

theorem series_requests (cs : List Command) :
    Series IsArray (cs.map Command.parts) (requests cs) := by
  induction cs with
  | nil => exact .nil
  | cons c cs ih => exact .cons (isArray_request c) ih

theorem readArray_request (c : Command) (rest : Bytes) :
    readArray (request c ++ rest) = some (c.parts, rest) :=
  readArray_eq_some_iff.mpr ⟨_, isArray_request c, rfl⟩

theorem readAll_requests (cs : List Command) :
    readAll (requests cs) = some (cs.map Command.parts) :=
  readAll_eq_some_iff.mpr (series_requests cs)

/-- A reader that has found an array does not look any further. -/
theorem readArray_append {s rest : Bytes} {values : List Bytes}
    (h : readArray s = some (values, rest)) (more : Bytes) :
    readArray (s ++ more) = some (values, rest ++ more) := by
  obtain ⟨t, hform, rfl⟩ := readArray_eq_some_iff.mp h
  exact readArray_eq_some_iff.mpr ⟨t, hform, List.append_assoc _ _ _⟩

theorem readArray_of_cut {c : Command} {t : Bytes} (hcut : t <+: request c)
    (hne : t ≠ request c) : readArray t = none := by
  obtain ⟨u, hu⟩ := hcut
  by_contra hsome
  obtain ⟨⟨values, rest⟩, hread⟩ := Option.ne_none_iff_exists'.mp hsome
  have hwhole := readArray_append hread u
  rw [hu, ← List.append_nil (request c), readArray_request c [], Option.some.injEq,
    Prod.mk.injEq] at hwhole
  obtain ⟨_, rfl⟩ := List.append_eq_nil_iff.mp hwhole.2.symm
  exact hne (by rw [← hu, List.append_nil])

/-- What is on the wire is read back as it was sent. -/
theorem requests_read_back :
    (∀ s arrays, readAll s = some arrays ↔ Series IsArray arrays s) ∧
    (∀ name calls rest, readArray (request (Command.build name calls) ++ rest) =
      some (Bytes.ofText name :: calls.flatMap Command.Call.values, rest)) ∧
    (∀ c t, t <+: request c → t ≠ request c → readArray t = none) ∧
    (∀ cs, readAll (requests cs) = some (cs.map Command.parts)) ∧
    ∀ cs ds, requests cs = requests ds → cs = ds := by
  refine ⟨fun s arrays => readAll_eq_some_iff, fun name calls rest => ?_,
    fun c t hcut hne => readArray_of_cut hcut hne, readAll_requests, fun cs ds h => ?_⟩
  · rw [readArray_request, Command.parts_build]
  · have hread := readAll_requests cs
    rw [h, readAll_requests ds, Option.some.injEq] at hread
    exact (List.map_injective_iff.mpr Command.parts_injective hread).symm

end Wire

end LoadBench
