import LoadBench.Proofs.Flow
import LoadBench.Proofs.Total
import LoadBench.WorkerPool

/-!
A ledger of all jobs and their latches. It has one entry for each job at each of its stations, and
a move takes one job through one passage, makes a job, or makes a latch. A latch counts down with
the job that completes.

In a sound ledger each job that was made stands, or ended, in exactly one place, and what remains
of a latch and what completed on it add up to its size.
-/

namespace LoadBench

/-- One job at one station. -/
structure Entry where
  station : Station
  origin : Origin
deriving DecidableEq

/-- Latches, and the jobs at their stations. -/
structure Ledger where
  batches : Array Batch
  entries : Multiset Entry

namespace Ledger

/-- How often a job stands at a station. -/
def number (L : Ledger) (o : Origin) (s : Station) : Nat := L.entries.count ⟨s, o⟩

/-- How many jobs were made for a latch. -/
def jobsAt (batches : Array Batch) (latch : Nat) : Nat := (batches[latch]?.map (·.jobs)).getD 0

/-- Whether a job was made. -/
def made (L : Ledger) : Origin → Nat
  | .job latch index => if index < jobsAt L.batches latch then 1 else 0
  | .direct _ _ => 0

/-- The index of a job of one latch, if the entry has it at the station. -/
def indexAt (s : Station) (latch : Nat) : Entry → Option Nat
  | ⟨s', .job latch' index⟩ => if s' = s ∧ latch' = latch then some index else none
  | ⟨_, .direct _ _⟩ => none

/-- The jobs of one latch at a station, by their index. -/
def indices (L : Ledger) (s : Station) (latch : Nat) : Multiset Nat :=
  L.entries.filterMap (indexAt s latch)

/-- The entries of one job at several stations. -/
def entriesOf (o : Origin) (stations : List Station) : Multiset Entry :=
  (stations.map fun s => ⟨s, o⟩ : List Entry)

/-- One job leaves stations and enters others. -/
def Exchange (before after : Multiset Entry) (o : Origin) (out into : List Station) : Prop :=
  after + entriesOf o out = before + entriesOf o into

/-- What may happen to a ledger. -/
inductive Move : Ledger → Ledger → Prop
  | latch (L : Ledger) (size : Nat) (owned : Bool) :
      Move L { L with batches := L.batches.push { latch := ⟨size⟩, size, owned } }
  | make {L : Ledger} {latch : Nat} {batch : Batch} (hb : L.batches[latch]? = some batch)
      (entries : Multiset Entry)
      (hx : Exchange L.entries entries (.job latch batch.jobs) [] [.offered]) :
      Move L ⟨L.batches.set! latch { batch with jobs := batch.jobs + 1 }, entries⟩
  | pass {L : Ledger} {latch index : Nat} {out into : List Station} (h : Passage out into)
      (hr : Station.recording ∉ out) (entries : Multiset Entry)
      (hx : Exchange L.entries entries (.job latch index) out into) : Move L { L with entries }
  | complete {L : Ledger} {latch index : Nat} {batch : Batch} {next : Latch}
      (hb : L.batches[latch]? = some batch) (hl : batch.latch.countDown? = some next)
      (entries : Multiset Entry)
      (hx : Exchange L.entries entries (.job latch index) [.recording] [.completed]) :
      Move L ⟨L.batches.set! latch { batch with latch := next }, entries⟩
  /-- The latch of the job is released already. -/
  | misuse {L : Ledger} {latch index : Nat}
      (hb : ∀ batch, L.batches[latch]? = some batch → batch.latch.countDown? = none)
      (entries : Multiset Entry)
      (hx : Exchange L.entries entries (.job latch index) [.recording] [.lost]) :
      Move L { L with entries }

theorem count_entriesOf (o o' : Origin) (stations : List Station) (s : Station) :
    (entriesOf o stations).count ⟨s, o'⟩ = if o = o' then stations.count s else 0 := by
  rw [entriesOf, Multiset.coe_count]
  by_cases h : o = o'
  · subst h
    rw [if_pos rfl]
    exact List.count_map_of_injective stations (fun s => Entry.mk s o)
      (fun a b hab => (Entry.mk.inj hab).1) s
  · rw [if_neg h, List.count_eq_zero]
    simp [h]

/-- An exchange moves the numbers of its own job only. -/
theorem Exchange.count {before after : Multiset Entry} {o : Origin} {out into : List Station}
    (h : Exchange before after o out into) (o' : Origin) (s : Station) :
    after.count ⟨s, o'⟩ + (if o = o' then out.count s else 0) =
      before.count ⟨s, o'⟩ + (if o = o' then into.count s else 0) := by
  rw [← count_entriesOf, ← count_entriesOf, ← Multiset.count_add, ← Multiset.count_add, h]

theorem count_filterMap_indexAt (entries : Multiset Entry) (s : Station) (latch index : Nat) :
    (entries.filterMap (indexAt s latch)).count index = entries.count ⟨s, .job latch index⟩ := by
  induction entries using Multiset.induction_on with
  | empty => simp
  | cons x entries ih =>
      rcases hx : indexAt s latch x with _ | n
      · have hne : (⟨s, .job latch index⟩ : Entry) ≠ x := by
          rintro rfl
          simp [indexAt] at hx
        rw [Multiset.filterMap_cons_none _ _ hx, ih, Multiset.count_cons_of_ne hne]
      · obtain ⟨s', latch', rfl⟩ : ∃ s' latch', x = ⟨s', .job latch' n⟩ := by
          obtain ⟨s', _ | _⟩ := x <;> simp_all [indexAt]
        obtain ⟨rfl, rfl⟩ : s' = s ∧ latch' = latch := by
          by_contra hne
          simp [indexAt, hne] at hx
        rw [Multiset.filterMap_cons_some _ _ _ hx, Multiset.count_cons, Multiset.count_cons, ih]
        simp

theorem count_indices (L : Ledger) (s : Station) (latch index : Nat) :
    (L.indices s latch).count index = L.number (.job latch index) s :=
  count_filterMap_indexAt _ _ _ _

/-- An exchange moves the indices of its own latch only. -/
theorem Exchange.card_indices {before after : Multiset Entry} {latch' index : Nat}
    {out into : List Station} (h : Exchange before after (.job latch' index) out into)
    (s : Station) (latch : Nat) :
    (after.filterMap (indexAt s latch)).card + (if latch' = latch then out.count s else 0) =
      (before.filterMap (indexAt s latch)).card +
        (if latch' = latch then into.count s else 0) := by
  have hcard (stations : List Station) :
      ((entriesOf (.job latch' index) stations).filterMap (indexAt s latch)).card =
        if latch' = latch then stations.count s else 0 := by
    induction stations with
    | nil => simp [entriesOf]
    | cons t stations ih =>
        have hsplit : entriesOf (.job latch' index) (t :: stations) =
            ⟨t, .job latch' index⟩ ::ₘ entriesOf (.job latch' index) stations := rfl
        by_cases hl : latch' = latch
        · subst hl
          by_cases ht : t = s
          · subst ht
            rw [hsplit, Multiset.filterMap_cons_some _ _ _ (b := index) (by simp [indexAt]),
              Multiset.card_cons, ih]
            simp
          · rw [hsplit, Multiset.filterMap_cons_none _ _ (by simp [indexAt, ht]), ih]
            simp [ht]
        · rw [hsplit, Multiset.filterMap_cons_none _ _ (by simp [indexAt, hl]), ih]
          simp [hl]
  rw [← hcard, ← hcard, ← Multiset.card_add, ← Multiset.card_add, ← Multiset.filterMap_add,
    ← Multiset.filterMap_add, h]

/-- The books of a ledger are in order. -/
structure Sound (L : Ledger) : Prop where
  flow : ∀ o, Flow (L.made o) (L.number o)
  latches : ∀ latch batch, L.batches[latch]? = some batch →
    batch.latch.remaining + (L.indices .completed latch).card = batch.size
  /-- A latch is misused only once it is released. -/
  kept : ∀ latch index batch, L.batches[latch]? = some batch →
    Kept (L.number (.job latch index)) ∨ batch.latch.remaining = 0

theorem sound_empty : Sound ⟨#[], 0⟩ where
  flow o := by
    have hmade : made ⟨#[], 0⟩ o = 0 := by cases o <;> simp [made, jobsAt]
    rw [hmade]
    exact Flow.zero
  latches latch batch h := by simp at h
  kept latch index batch h := by simp at h

variable {L L' : Ledger}

/-- A job that was made is made once. -/
theorem made_le_one (L : Ledger) (o : Origin) : L.made o ≤ 1 := by
  cases o with
  | job latch index =>
      simp only [made]
      split <;> omega
  | direct run index => exact Nat.zero_le _

theorem jobsAt_of_getElem? {batches : Array Batch} {latch : Nat} {batch : Batch}
    (hb : batches[latch]? = some batch) : jobsAt batches latch = batch.jobs := by
  simp [jobsAt, hb]

theorem jobsAt_set {batches : Array Batch} {latch : Nat} {batch : Batch} (batch' : Batch)
    (hb : batches[latch]? = some batch) (latch' : Nat) :
    jobsAt (batches.set! latch batch') latch' =
      if latch = latch' then batch'.jobs else jobsAt batches latch' := by
  obtain ⟨hlt, _⟩ := Array.getElem?_eq_some_iff.mp hb
  by_cases h : latch = latch'
  · subst h
    simp [jobsAt, hlt]
  · simp [jobsAt, h, Array.getElem?_setIfInBounds_ne h]

theorem jobsAt_push (batches : Array Batch) (batch : Batch) (hjobs : batch.jobs = 0)
    (latch : Nat) : jobsAt (batches.push batch) latch = jobsAt batches latch := by
  by_cases h : latch = batches.size
  · subst h
    simp [jobsAt, hjobs]
  · simp [jobsAt, Array.getElem?_push, h]

/-- A latch that is not there yet has no jobs. -/
theorem jobsAt_of_size_le {batches : Array Batch} {latch : Nat} (h : batches.size ≤ latch) :
    jobsAt batches latch = 0 := by
  have hnone : batches[latch]? = none := by simpa using h
  simp [jobsAt, hnone]

/-- A change of a latch that makes no job leaves what was made as it is. -/
theorem made_congr (h : ∀ latch, jobsAt L'.batches latch = jobsAt L.batches latch) (o : Origin) :
    L'.made o = L.made o := by
  cases o with
  | job latch index => simp [made, h]
  | direct run index => rfl

/-- Making a job makes that one only. -/
theorem made_make {latch : Nat} {batch : Batch} (entries : Multiset Entry)
    (hb : L.batches[latch]? = some batch) (o : Origin) :
    made ⟨L.batches.set! latch { batch with jobs := batch.jobs + 1 }, entries⟩ o =
      L.made o + if .job latch batch.jobs = o then 1 else 0 := by
  cases o with
  | job latch' index =>
      simp only [made, jobsAt_set _ hb, Origin.job.injEq]
      by_cases h : latch = latch'
      · subst h
        rw [jobsAt_of_getElem? hb]
        simp only [true_and, if_true]
        split <;> split <;> split <;> omega
      · simp [h]
  | direct run index => simp [made]

/-- An exchange along a passage keeps the equations of every job. -/
theorem Exchange.flow {entries : Multiset Entry} {o : Origin} {out into : List Station}
    (hx : Exchange L.entries entries o out into) (h : Passage out into)
    (hf : ∀ o, Flow (L.made o) (L.number o)) (o' : Origin) :
    Flow (L.made o') fun s => entries.count ⟨s, o'⟩ := by
  by_cases ho : o = o'
  · subst ho
    exact Flow.pass h (fun s => by simpa [number] using hx.count o s) (hf o)
  · have hsame : (fun s => entries.count ⟨s, o'⟩) = L.number o' := by
      funext s
      simpa [ho, number] using hx.count o' s
    rw [hsame]
    exact hf o'

/-- An exchange along a passage keeps what was kept, unless it misuses a latch. -/
theorem Exchange.kept {entries : Multiset Entry} {o : Origin} {out into : List Station}
    (hx : Exchange L.entries entries o out into) (h : Passage out into)
    (hm : ¬ (out = [.recording] ∧ into = [.lost])) (o' : Origin) (hk : Kept (L.number o')) :
    Kept fun s => entries.count ⟨s, o'⟩ := by
  by_cases ho : o = o'
  · subst ho
    exact Flow.kept_pass h hm (fun s => by simpa [number] using hx.count o s) hk
  · have hsame : (fun s => entries.count ⟨s, o'⟩) = L.number o' := by
      funext s
      simpa [ho, number] using hx.count o' s
    rw [hsame]
    exact hk

/-- Nothing completes on a latch that is not there yet. -/
theorem indices_of_size_le (hf : ∀ o, Flow (L.made o) (L.number o)) {latch : Nat}
    (h : L.batches.size ≤ latch) : L.indices .completed latch = 0 := by
  apply Multiset.eq_zero_of_forall_notMem
  intro index hmem
  have hpos := Multiset.count_pos.mpr hmem
  rw [count_indices] at hpos
  have hplaced := (hf (.job latch index)).placed
  have hmade : L.made (.job latch index) = 0 := by simp [made, jobsAt_of_size_le h]
  omega

/-- The latches stay in order if none of them counts and nothing completes. -/
theorem latches_congr (hs : Sound L)
    (hold : ∀ (latch : Nat) (batch : Batch), L'.batches[latch]? = some batch →
      ∃ old, L.batches[latch]? = some old ∧ old.latch = batch.latch ∧ old.size = batch.size)
    (hcard : ∀ latch, (L'.indices .completed latch).card = (L.indices .completed latch).card)
    (latch : Nat) (batch : Batch) (hb : L'.batches[latch]? = some batch) :
    batch.latch.remaining + (L'.indices .completed latch).card = batch.size := by
  obtain ⟨old, hold, hlatch, hsize⟩ := hold latch batch hb
  rw [hcard, ← hlatch, ← hsize]
  exact hs.latches latch old hold

/-- What was kept stays so if no released latch is counted down and each job stays kept. -/
theorem kept_congr (hs : Sound L)
    (hold : ∀ (latch : Nat) (batch : Batch), L'.batches[latch]? = some batch →
      ∃ old, L.batches[latch]? = some old ∧
        (old.latch.remaining = 0 → batch.latch.remaining = 0))
    (hkept : ∀ o, Kept (L.number o) → Kept (L'.number o)) (latch index : Nat) (batch : Batch)
    (hb : L'.batches[latch]? = some batch) :
    Kept (L'.number (.job latch index)) ∨ batch.latch.remaining = 0 := by
  obtain ⟨old, hold, hzero⟩ := hold latch batch hb
  rcases hs.kept latch index old hold with hk | hreleased
  · exact .inl (hkept _ hk)
  · exact .inr (hzero hreleased)

theorem sound_latch (hs : Sound L) (size : Nat) (owned : Bool) :
    Sound { L with batches := L.batches.push { latch := ⟨size⟩, size, owned } } where
  flow o := by
    rw [made_congr (fun l => jobsAt_push L.batches _ rfl l)]
    exact hs.flow o
  latches latch batch hb := by
    by_cases h : latch = L.batches.size
    · subst h
      simp only [Array.getElem?_push_size, Option.some.injEq] at hb
      subst hb
      change size + (L.indices .completed L.batches.size).card = size
      rw [indices_of_size_le hs.flow (Nat.le_refl _)]
      rfl
    · rw [Array.getElem?_push, if_neg h] at hb
      exact hs.latches latch batch hb
  kept latch index batch hb := by
    by_cases h : latch = L.batches.size
    · subst h
      have hflow := hs.flow (.job L.batches.size index)
      have hmade : L.made (.job L.batches.size index) = 0 := by
        simp [made, jobsAt_of_size_le (Nat.le_refl _)]
      rw [hmade] at hflow
      exact .inl hflow.kept_of_unmade
    · rw [Array.getElem?_push, if_neg h] at hb
      exact hs.kept latch index batch hb

theorem sound_make (hs : Sound L) {latch : Nat} {batch : Batch}
    (hb : L.batches[latch]? = some batch) {entries : Multiset Entry}
    (hx : Exchange L.entries entries (.job latch batch.jobs) [] [.offered]) :
    Sound ⟨L.batches.set! latch { batch with jobs := batch.jobs + 1 }, entries⟩ where
  flow o := by
    rw [made_make entries hb]
    by_cases ho : .job latch batch.jobs = o
    · subst ho
      rw [if_pos rfl]
      exact Flow.make (fun s => by simpa [number] using hx.count (.job latch batch.jobs) s)
        (hs.flow _)
    · have hsame : (number ⟨L.batches.set! latch { batch with jobs := batch.jobs + 1 },
          entries⟩ o) = L.number o := by
        funext s
        simpa [ho, number] using hx.count o s
      rw [if_neg ho, hsame]
      exact hs.flow o
  latches := by
    apply latches_congr hs
    · intro latch' batch' hb'
      rcases getElem?_set_cases hb' with ⟨rfl, rfl⟩ | ⟨_, hold⟩
      · exact ⟨batch, hb, rfl, rfl⟩
      · exact ⟨batch', hold, rfl, rfl⟩
    · intro latch'
      simpa [indices] using hx.card_indices .completed latch'
  kept := by
    apply kept_congr hs
    · intro latch' batch' hb'
      rcases getElem?_set_cases hb' with ⟨rfl, rfl⟩ | ⟨_, hold⟩
      · exact ⟨batch, hb, id⟩
      · exact ⟨batch', hold, id⟩
    · intro o hk
      by_cases ho : .job latch batch.jobs = o
      · subst ho
        exact Flow.kept_make (fun s => by simpa [number] using hx.count (.job latch batch.jobs) s)
          hk
      · have hsame : (number ⟨L.batches.set! latch { batch with jobs := batch.jobs + 1 },
            entries⟩ o) = L.number o := by
          funext s
          simpa [ho, number] using hx.count o s
        rwa [hsame]

theorem sound_complete (hs : Sound L) {latch index : Nat} {batch : Batch} {next : Latch}
    (hb : L.batches[latch]? = some batch) (hl : batch.latch.countDown? = some next)
    {entries : Multiset Entry}
    (hx : Exchange L.entries entries (.job latch index) [.recording] [.completed]) :
    Sound ⟨L.batches.set! latch { batch with latch := next }, entries⟩ where
  flow o := by
    have hjobs : ∀ l, jobsAt (L.batches.set! latch { batch with latch := next }) l =
        jobsAt L.batches l := by
      intro l
      rw [jobsAt_set _ hb]
      split
      · next h => rw [← h, jobsAt_of_getElem? hb]
      · rfl
    rw [made_congr hjobs]
    exact hx.flow .complete hs.flow o
  latches latch' batch' hb' := by
    have hcard := hx.card_indices .completed latch'
    change batch'.latch.remaining + (entries.filterMap (indexAt .completed latch')).card = _
    rcases getElem?_set_cases hb' with ⟨rfl, rfl⟩ | ⟨hne, hold⟩
    · have hbefore : _ + (L.entries.filterMap (indexAt .completed latch)).card = _ :=
        hs.latches latch batch hb
      have hcount := Latch.remaining_countDown? hl
      simp only [if_true, List.count_singleton_self, List.count_singleton] at hcard
      change next.remaining + _ = batch.size
      simp at hcard
      omega
    · have hbefore := hs.latches latch' batch' hold
      simp only [if_neg hne, Nat.add_zero] at hcard
      rw [hcard]
      exact hbefore
  kept := by
    apply kept_congr hs
    · intro latch' batch' hb'
      rcases getElem?_set_cases hb' with ⟨rfl, rfl⟩ | ⟨_, hold⟩
      · refine ⟨batch, hb, fun hzero => ?_⟩
        have hcount := Latch.remaining_countDown? hl
        omega
      · exact ⟨batch', hold, id⟩
    · exact fun o => hx.kept .complete (by simp) o

/-- Every move keeps the books in order. -/
theorem Move.sound (h : Move L L') (hs : Sound L) : Sound L' := by
  cases h with
  | latch size owned => exact sound_latch hs size owned
  | make hb entries hx => exact sound_make hs hb hx
  | @pass latch' index out into hp hr entries hx =>
      refine ⟨hx.flow hp hs.flow, latches_congr hs (fun l b h => ⟨b, h, rfl, rfl⟩) ?_,
        kept_congr hs (fun l b h => ⟨b, h, id⟩) fun o => hx.kept hp ?_ o⟩
      · intro latch
        have hnone : out.count .completed = 0 ∧ into.count .completed = 0 := by
          cases hp <;> simp at hr ⊢
        simpa [indices, hnone] using hx.card_indices .completed latch
      · rintro ⟨rfl, _⟩
        simp at hr
  | complete hb hl entries hx => exact sound_complete hs hb hl hx
  | @misuse latch index hb entries hx =>
      refine ⟨hx.flow .misuse hs.flow, latches_congr hs (fun l b h => ⟨b, h, rfl, rfl⟩) ?_, ?_⟩
      · intro latch
        simpa [indices] using hx.card_indices .completed latch
      · intro latch' index' batch' hb'
        by_cases ho : Origin.job latch index = .job latch' index'
        · obtain ⟨rfl, _⟩ := Origin.job.inj ho
          have hreleased := (Latch.countDown?_eq_none_iff _).mp (hb batch' hb')
          exact .inr (by simpa [Latch.released] using hreleased)
        · have hsame : (number { L with entries } (.job latch' index')) =
              L.number (.job latch' index') := by
            funext s
            simpa [ho, number] using hx.count (.job latch' index') s
          rw [hsame]
          exact hs.kept latch' index' batch' hb'

theorem Sound.of_moves (hs : Sound L) (h : Relation.ReflTransGen Move L L') : Sound L' := by
  induction h with
  | refl => exact hs
  | tail _ hmove ih => exact hmove.sound ih

end Ledger

end LoadBench
