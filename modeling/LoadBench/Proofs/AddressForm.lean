import Mathlib.Data.List.DropRight
import LoadBench.Settings

/-!
What the check of the settings makes of an address. What trimming leaves has no blank at either end,
and neither has what is made of it by adding a scheme and a slash. So an address that was brought
into this form is left as it is when that is done again.
-/

namespace LoadBench

namespace Text

/-- No blank stands at either end. -/
structure Tight (cs : List Char) : Prop where
  head : ∀ c, cs.head? = some c → isBlank c = false
  last : ∀ c, cs.getLast? = some c → isBlank c = false

theorem tight_trimChars (cs : List Char) : Tight (trimChars cs) := by
  have htrim : trimChars cs = (cs.dropWhile isBlank).rdropWhile isBlank := rfl
  constructor
  · intro c hc
    rw [htrim] at hc
    obtain ⟨blanks, hsplit⟩ := List.rdropWhile_prefix isBlank (cs.dropWhile isBlank)
    have hhead : (cs.dropWhile isBlank).head? = some c := by
      rw [← hsplit, List.head?_append, hc, Option.some_or]
    have hnot := List.head?_dropWhile_not isBlank cs
    rw [hhead] at hnot
    exact hnot
  · intro c hc
    rw [htrim, List.rdropWhile, List.getLast?_reverse] at hc
    have hnot := List.head?_dropWhile_not isBlank (cs.dropWhile isBlank).reverse
    rw [hc] at hnot
    exact hnot

theorem dropWhile_isBlank {cs : List Char} (h : ∀ c, cs.head? = some c → isBlank c = false) :
    cs.dropWhile isBlank = cs := by
  cases cs with
  | nil => rfl
  | cons c cs => rw [List.dropWhile_cons_of_neg (by simp [h c rfl])]

theorem trimChars_of_tight {cs : List Char} (h : Tight cs) : trimChars cs = cs := by
  have hlast : ∀ c, cs.reverse.head? = some c → isBlank c = false := by
    intro c hc
    rw [List.head?_reverse] at hc
    exact h.last c hc
  rw [trimChars, dropWhile_isBlank h.head, dropWhile_isBlank hlast, List.reverse_reverse]

theorem tight_trim (s : String) : Tight (trim s).toList := by
  rw [trim, String.toList_ofList]
  exact tight_trimChars s.toList

theorem trim_of_tight {s : String} (h : Tight s.toList) : trim s = s := by
  rw [trim, trimChars_of_tight h, String.ofList_toList]

end Text

namespace Settings

theorem startsWith_iff {s start : String} :
    startsWith s start = true ↔ ∃ rest, s = start ++ rest := by
  rw [startsWith, List.isPrefixOf_iff_prefix]
  constructor
  · rintro ⟨rest, h⟩
    refine ⟨String.ofList rest, ?_⟩
    rw [← String.toList_inj, String.toList_append, String.toList_ofList, h]
  · rintro ⟨rest, rfl⟩
    exact ⟨rest.toList, (String.toList_append).symm⟩

theorem hasScheme_iff {addr : String} :
    hasScheme addr = true ↔
      (∃ rest, addr = "redis://" ++ rest) ∨ ∃ rest, addr = "rediss://" ++ rest := by
  rw [hasScheme, Bool.or_eq_true, startsWith_iff, startsWith_iff]

theorem urlOf_of_hasScheme {addr : String} (h : hasScheme addr = true) : urlOf addr = addr :=
  if_pos h

theorem hasScheme_urlOf (addr : String) : hasScheme (urlOf addr) = true := by
  unfold urlOf
  split
  · assumption
  · exact hasScheme_iff.mpr (.inl ⟨addr ++ "/", String.append_assoc⟩)

/-- A scheme and a slash are put around an address, so its own ends do not matter then. -/
theorem tight_urlOf {addr : String} (h : Text.Tight addr.toList) :
    Text.Tight (urlOf addr).toList := by
  unfold urlOf
  split
  · exact h
  · constructor
    · intro c hc
      rw [String.append_assoc, String.toList_append, String.toList_append] at hc
      cases hc
      decide
    · intro c hc
      rw [String.toList_append, List.getLast?_append] at hc
      cases hc
      decide

/-- Once an address without blanks at its ends has its form, it keeps it. -/
theorem urlOf_trim_urlOf (addr : String) (h : Text.Tight addr.toList) :
    urlOf (Text.trim (urlOf addr)) = urlOf addr := by
  rw [Text.trim_of_tight (tight_urlOf h), urlOf_of_hasScheme (hasScheme_urlOf addr)]

/-- What is accepted, and as which settings. -/
theorem ofArguments_eq_ok {a : Arguments} {c : Settings} :
    ofArguments a = .ok c ↔
      a.numWorkers ≠ 0 ∧ a.queueCapacity ≠ 0 ∧ a.phases ≠ [] ∧ Text.trim a.addr ≠ "" ∧
        c = ⟨urlOf (Text.trim a.addr), a.iterations, a.numWorkers, a.queueCapacity, a.phases,
          a.valueSuffix, a.format⟩ := by
  unfold ofArguments
  split
  · next h => simp [h]
  split
  · next h => simp [h]
  split
  · next h => simp [List.isEmpty_iff.mp h]
  split
  · next h => simp [String.isEmpty_iff.mp h]
  · next hworkers hcapacity hphases haddr =>
    rw [List.isEmpty_iff] at hphases
    rw [String.isEmpty_iff] at haddr
    simp [hworkers, hcapacity, hphases, haddr, eq_comm]

end Settings

end LoadBench
