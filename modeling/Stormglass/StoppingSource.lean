import Stormglass.MergeReplay

/-!
# Sources that stop early

`StoppingSource` ends the stream of another source after a number of records. It counts the
records that it hands out and leaves the position to the source inside, which has handed out
its whole batch even when the limit lies within it.
-/

namespace Stormglass

/-- A source that ends after a number of records. -/
structure StoppingSource (σ : Type) where
  inner : σ
  maxRecords : Nat
  emitted : Nat := 0

namespace StoppingSource

/-- The loop of `Next` over the items of a batch, and the records counted so far. -/
def take (maxRecords : Nat) : (emitted : Nat) → Batch → Batch × Nat
  | emitted, [] => ([], emitted)
  | emitted, item :: rest =>
    if maxRecords ≤ emitted then ([], emitted)
    else
      match item with
      | .record data =>
        let (taken, counted) := take maxRecords (emitted + 1) rest
        (.record data :: taken, counted)
      | .control control =>
        let (taken, counted) := take maxRecords emitted rest
        (.control control :: taken, counted)

/-- `Next` -/
def next {σ : Type} [Source σ] (source : StoppingSource σ) : Option (Batch × StoppingSource σ) :=
  if source.maxRecords ≤ source.emitted then none
  else
    match Source.next source.inner with
    | none => none
    | some (batch, inner) =>
      let (result, emitted) := take source.maxRecords source.emitted batch
      if result = [] then none
      else some (result, { source with inner := inner, emitted := emitted })

instance {σ : Type} [PositionedSource σ] : PositionedSource (StoppingSource σ) where
  next := next
  seek source offset := { source with inner := Source.seek source.inner offset, emitted := 0 }
  descriptor source := Source.descriptor source.inner
  currentOffset source := PositionedSource.currentOffset source.inner

/-- The records of a batch up to the limit are taken and counted. -/
theorem take_spec {maxRecords emitted : Nat} (below : emitted ≤ maxRecords) (batch : Batch) :
    (records (take maxRecords emitted batch).1).length =
        min (records batch).length (maxRecords - emitted) ∧
      (take maxRecords emitted batch).2 =
        emitted + (records (take maxRecords emitted batch).1).length := by
  induction batch generalizing emitted with
  | nil => exact ⟨(Nat.zero_min _).symm, rfl⟩
  | cons item rest inductionHypothesis =>
    unfold take
    split
    next full =>
      have none : maxRecords - emitted = 0 := by omega
      rw [none, Nat.min_zero]
      exact ⟨rfl, rfl⟩
    next open_ =>
      cases item with
      | record data =>
        have next : emitted + 1 ≤ maxRecords := Nat.lt_of_not_le open_
        obtain ⟨taken, counted⟩ := inductionHypothesis next
        constructor
        · change (records (take maxRecords (emitted + 1) rest).1).length + 1 =
            min ((records rest).length + 1) (maxRecords - emitted)
          omega
        · change (take maxRecords (emitted + 1) rest).2 =
            emitted + ((records (take maxRecords (emitted + 1) rest).1).length + 1)
          omega
      | control control => exact inductionHypothesis below

/-- Before the limit the first item of a batch is taken. -/
theorem take_eq_nil {maxRecords emitted : Nat} (below : emitted < maxRecords) {batch : Batch}
    (nothing : (take maxRecords emitted batch).1 = []) : batch = [] := by
  cases batch with
  | nil => rfl
  | cons item rest =>
    unfold take at nothing
    rw [if_neg (not_le.mpr below)] at nothing
    cases item <;> simp at nothing

section Handing

variable {σ : Type} [PositionedSource σ] {source rest : StoppingSource σ} {batch : Batch}

/-- A call that hands out a batch has taken it from a batch of the source inside. -/
theorem next_some (called : Source.next source = some (batch, rest)) :
    source.emitted < source.maxRecords ∧ ∃ whole inner,
      Source.next source.inner = some (whole, inner) ∧
      take source.maxRecords source.emitted whole = (batch, rest.emitted) ∧ batch ≠ [] ∧
      rest.inner = inner ∧ rest.maxRecords = source.maxRecords := by
  change source.next = _ at called
  unfold next at called
  split at called
  · cases called
  next below =>
    refine ⟨not_le.mp below, ?_⟩
    split at called
    · cases called
    next whole inner handed =>
      dsimp only at called
      split at called
      · cases called
      next nonempty =>
        obtain ⟨rfl, rfl⟩ := Prod.mk.inj (Option.some.inj called)
        exact ⟨whole, inner, handed, rfl, nonempty, rfl, rfl⟩

/-- A call that ends the stream has reached the limit, or the source inside has nothing. -/
theorem next_none (called : Source.next source = none) :
    source.maxRecords ≤ source.emitted ∨ Source.next source.inner = none ∨
      ∃ inner, Source.next source.inner = some ([], inner) := by
  change source.next = _ at called
  unfold next at called
  split at called
  next full => exact Or.inl full
  next below =>
    split at called
    next ended => exact Or.inr (Or.inl ended)
    next whole inner handed =>
      dsimp only at called
      split at called
      next nothing =>
        obtain rfl := take_eq_nil (not_le.mp below) nothing
        exact Or.inr (Or.inr ⟨inner, handed⟩)
      · cases called

/-- A stopping source delivers nonempty batches when the source inside does. -/
theorem supplies {inner : σ} {batches : List Batch} (delivers : Source.Delivers inner batches)
    (nonempty : [] ∉ batches) (maxRecords emitted : Nat) :
    ∃ trajectory, SourceMerge.Supplies (StoppingSource.mk inner maxRecords emitted) trajectory := by
  induction delivers generalizing emitted with
  | @ended inner observed =>
    refine ⟨[], [], .ended ?_, List.not_mem_nil, rfl⟩
    cases called : Source.next (StoppingSource.mk inner maxRecords emitted) with
    | none => rfl
    | some handed =>
      obtain ⟨-, whole, _, inside, -⟩ := next_some called
      rw [observed] at inside
      cases inside
  | @handed inner later batch batches observed _ inductionHypothesis =>
    have filled : [] ∉ batches := fun member => nonempty (List.mem_cons_of_mem _ member)
    cases called : Source.next (StoppingSource.mk inner maxRecords emitted) with
    | none => exact ⟨[], [], .ended called, List.not_mem_nil, rfl⟩
    | some handed =>
      obtain ⟨taken, rest⟩ := handed
      obtain ⟨-, whole, _, inside, -, some, rfl, limit⟩ := next_some called
      rw [observed] at inside
      obtain ⟨rfl, same⟩ := Prod.mk.inj (Option.some.inj inside)
      obtain ⟨trajectory, others, continues, full, flat⟩ :=
        inductionHypothesis filled rest.emitted
      refine ⟨taken ++ trajectory, taken :: others, .handed called ?_, ?_, ?_⟩
      · rwa [same, ← show rest.maxRecords = maxRecords from limit] at continues
      · rintro (_ | ⟨_, member⟩)
        · exact some rfl
        · exact full member
      · rw [List.flatten_cons, flat]

end Handing

end StoppingSource

end Stormglass
