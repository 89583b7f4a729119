import Mathlib.Data.List.Nodup
import LoadBench.Proofs.NumberTexts
import LoadBench.Workload

/-!
What the phases of a workload read and write. A key tells the index of its command and whether the
phase is pooled or direct, and nothing else. So no phase names a key twice, the pooled and the
direct phases share none, and a read asks for the key that the write with the same index wrote. A
value tells its index and its suffix: the digits of the index end at the first dash behind them,
whatever dashes and digits the suffix has.
-/

namespace LoadBench

namespace Phase

/-- The command with an index, if it can be made. -/
def command? (p : Phase) (i : Nat) : Option Command := (p.generate i).toOption

/-- The key that the command with an index names, which is its first argument. -/
def key? (p : Phase) (i : Nat) : Option Bytes := (p.command? i).bind (·.args[0]?)

/-- The value that the command with an index writes, which is its second argument. -/
def value? (p : Phase) (i : Nat) : Option Bytes := (p.command? i).bind (·.args[1]?)

/-- The keys of all commands, in the order of the commands. -/
def keys (p : Phase) : List Bytes := (List.range p.iterations).filterMap p.key?

end Phase

/-! ## Numbers between texts -/

/-- A number can be told from its decimal digits. -/
theorem toString_inj {i j : Nat} : toString i = toString j ↔ i = j := by
  constructor
  · intro h
    have hread := congrArg (fun s => Nat.ofDigitChars 10 s.toList 0) h
    simpa only [Json.ofDigitChars_toString] using hread
  · rintro rfl
    rfl

/-- A number in front of a dash can be told from what is behind the dash. -/
theorem toString_dash_inj {i j : Nat} {s t : String} :
    toString i ++ "-" ++ s = toString j ++ "-" ++ t ↔ i = j ∧ s = t := by
  have hspan (n : Nat) (u : String) :
      (toString n ++ "-" ++ u).toList.takeWhile Char.isDigit = (toString n).toList ∧
        (toString n ++ "-" ++ u).toList.dropWhile Char.isDigit = '-' :: u.toList := by
    have hdigits : ∀ c ∈ (toString n).toList, c.isDigit = true := fun _ =>
      Json.isDigit_of_mem_toString
    have hdash : (toString n ++ "-" ++ u).toList = (toString n).toList ++ '-' :: u.toList := by
      simp
    rw [hdash]
    exact Json.span_digits hdigits (by rintro c ⟨⟩; rfl)
  constructor
  · intro h
    have htake := (hspan i s).1
    have hdrop := (hspan i s).2
    rw [h, (hspan j t).1] at htake
    rw [h, (hspan j t).2] at hdrop
    exact ⟨(toString_inj.mp (String.toList_inj.mp htake)).symm,
      (String.toList_inj.mp (List.cons.inj hdrop).2).symm⟩
  · rintro ⟨rfl, rfl⟩
    rfl

/-- Texts whose first characters differ are different, whatever follows. -/
theorem append_ne_of_head {s t : String} {c d : Char} (hs : s.toList.head? = some c)
    (ht : t.toList.head? = some d) (hne : c ≠ d) (u v : String) : s ++ u ≠ t ++ v := by
  intro h
  have hhead := congrArg (·.toList.head?) h
  simp only [String.toList_append, List.head?_append, hs, ht, Option.some_or] at hhead
  exact hne (Option.some.inj hhead)

namespace PhaseKind

theorem key_inj {kind kind' : PhaseKind} {i j : Nat} :
    kind.key i = kind'.key j ↔ kind.mode = kind'.mode ∧ i = j := by
  unfold key
  cases kind.mode <;> cases kind'.mode
  case pooled.pooled => simp only [String.append_right_inj, toString_inj, true_and]
  case direct.direct => simp only [String.append_right_inj, toString_inj, true_and]
  case pooled.direct =>
      exact iff_of_false (append_ne_of_head (c := 'p') (d := 'k') rfl rfl (by decide) _ _)
        fun h => nomatch h.1
  case direct.pooled =>
      exact iff_of_false (append_ne_of_head (c := 'k') (d := 'p') rfl rfl (by decide) _ _)
        fun h => nomatch h.1

theorem value_inj {kind : PhaseKind} {s t : String} {i j : Nat} :
    kind.value s i = kind.value t j ↔ i = j ∧ s = t := by
  unfold value
  cases kind.mode <;> simp only [String.append_assoc, String.append_right_inj] <;>
    rw [← String.append_assoc, ← String.append_assoc, toString_dash_inj]

variable (kind : PhaseKind) (n : Nat) (s : String) (i : Nat)

theorem key?_phase : (kind.phase n s).key? i = some (Bytes.ofText (kind.key i)) := by
  cases kind <;> rfl

theorem value?_phase (h : kind.writes = true) :
    (kind.phase n s).value? i = some (Bytes.ofText (kind.value s i)) := by
  cases kind <;> first | rfl | cases h

theorem keys_phase :
    (kind.phase n s).keys = (List.range n).map fun i => Bytes.ofText (kind.key i) := by
  have hkey : (kind.phase n s).key? = fun i => some (Bytes.ofText (kind.key i)) :=
    funext fun i => kind.key?_phase n s i
  rw [Phase.keys, hkey]
  exact congrFun List.filterMap_eq_map (List.range n)

theorem nodup_keys : (kind.phase n s).keys.Nodup := by
  rw [keys_phase]
  refine List.nodup_range.map fun i j h => ?_
  exact (key_inj.mp (Bytes.ofText_inj.mp h)).2

/-- The keys and values of a workload. Each command of a phase names a key, and no two commands of a
phase name the same. Two commands of any phases name the same key exactly if both phases are pooled
or both are direct and the commands have the same index. So the keys that are read are those that
are written, one by one. Two values of one kind are the same exactly if their index and their suffix
are, and a phase that reads is the same phase under every suffix. -/
theorem keys_and_values :
    (∀ (kind : PhaseKind) n s, (kind.phase n s).keys.length = n ∧ (kind.phase n s).keys.Nodup) ∧
      (∀ n s t, (pooledGet.phase n s).keys = (pooledPut.phase n t).keys ∧
        (directGet.phase n s).keys = (directSet.phase n t).keys) ∧
      (∀ (kind kind' : PhaseKind) n m s t i j, (kind.phase n s).key? i = (kind'.phase m t).key? j ↔
        kind.mode = kind'.mode ∧ i = j) ∧
      (∀ (kind kind' : PhaseKind) n m s t, kind.mode = kind'.mode ∨
        (kind.phase n s).keys.Disjoint (kind'.phase m t).keys) ∧
      (∀ n m s t i j,
        ((pooledPut.phase n s).value? i = (pooledPut.phase m t).value? j ↔ i = j ∧ s = t) ∧
        ((directSet.phase n s).value? i = (directSet.phase m t).value? j ↔ i = j ∧ s = t)) ∧
      ∀ n s t, pooledGet.phase n s = pooledGet.phase n t ∧
        directGet.phase n s = directGet.phase n t := by
  refine ⟨fun kind n s => ⟨?_, kind.nodup_keys n s⟩, fun n s t => ⟨?_, ?_⟩,
    fun kind kind' n m s t i j => ?_, fun kind kind' n m s t => ?_,
    fun n m s t i j => ⟨?_, ?_⟩, fun n s t => ⟨rfl, rfl⟩⟩
  · rw [keys_phase, List.length_map, List.length_range]
  · simp only [keys_phase]
    rfl
  · simp only [keys_phase]
    rfl
  · rw [key?_phase, key?_phase, Option.some.injEq, Bytes.ofText_inj, key_inj]
  · by_cases hmode : kind.mode = kind'.mode
    · exact .inl hmode
    · right
      simp only [keys_phase]
      intro k hk hk'
      obtain ⟨i, _, rfl⟩ := List.mem_map.mp hk
      obtain ⟨j, _, h⟩ := List.mem_map.mp hk'
      exact hmode (key_inj.mp (Bytes.ofText_inj.mp h)).1.symm
  · rw [value?_phase _ _ _ _ rfl, value?_phase _ _ _ _ rfl, Option.some.injEq, Bytes.ofText_inj,
      value_inj]
  · rw [value?_phase _ _ _ _ rfl, value?_phase _ _ _ _ rfl, Option.some.injEq, Bytes.ofText_inj,
      value_inj]

end PhaseKind

end LoadBench
