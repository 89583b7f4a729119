/-!
How similar two words are, for telling a reader what may have been meant. The measure counts the
characters that the words have in common at nearly the same place, and takes off for those whose
order differs.
-/

namespace LoadBench.Text

/-- The first place from `low` on, and before `high`, at which an unused character is `c`; and the
characters with that one used. -/
def useFirst (c : Char) (low high : Nat) : List (Char × Bool) → Nat → Option (List (Char × Bool))
  | [], _ => none
  | (d, used) :: rest, j =>
      if high ≤ j then none
      else if low ≤ j && c == d && !used then some ((d, true) :: rest)
      else (useFirst c low high rest (j + 1)).map ((d, used) :: ·)

/-- The characters of the first word that have a partner in the second one no further than `range`
places away, in order, and the second word with the partners marked. -/
def partners (range : Nat) : List Char → Nat → List (Char × Bool) →
    List Char × List (Char × Bool)
  | [], _, marked => ([], marked)
  | c :: rest, i, marked =>
      match useFirst c (i - range) (i + range + 1) marked 0 with
      | some marked =>
          let (found, marked) := partners range rest (i + 1) marked
          (c :: found, marked)
      | none => partners range rest (i + 1) marked

/-- How similar two words are, from zero to one. -/
def similarity (a b : String) : Float :=
  let a := a.toList
  let b := b.toList
  if a.isEmpty && b.isEmpty then 1
  else
    let range := max a.length b.length / 2 - 1
    let (first, marked) := partners range a 0 (b.map (·, false))
    let second := (marked.filter (·.2)).map (·.1)
    let common := first.length
    if common = 0 then 0
    else
      let exchanged := ((first.zip second).countP fun (x, y) => x != y) / 2
      let count := fun (n : Nat) => (UInt64.ofNat n).toFloat
      (count common / count a.length + count common / count b.length +
        count (common - exchanged) / count common) / 3

/-- Words less similar than this are not worth mentioning. -/
def similarityBound : Float := 0.7

/-- The most similar word that is similar enough, and of equally similar ones the last. -/
def mostSimilar? (word : String) (candidates : List String) : Option String :=
  (candidates.foldl
    (fun (best : Option (Float × String)) candidate =>
      let s := similarity word candidate
      if similarityBound < s then
        match best with
        | some (t, _) => if s < t then best else some (s, candidate)
        | none => some (s, candidate)
      else best)
    none).map (·.2)

end LoadBench.Text
