import Stormglass.CheckpointRoundTrip

/-!
# A processor that continues where another one stopped

A processor that has been restored is a twin of the processor that was written, and from there
on it repeats what that processor does. The checkpoints that it writes are the states of the other
one at its barriers.
-/

namespace Stormglass

namespace KeyedProcessor

variable {processor : KeyedProcessor}

/-! ## What an item does -/

theorem processItem_record {after : KeyedProcessor} {record : Record} {effects : List Effect}
    (applied : processor.processItem (.record record) = .ok (effects, after)) :
    effects = [] ∧ processor.processRecord record = .ok after := by
  unfold processItem at applied
  cases recorded : processor.processRecord record with
  | error thrown => simp [recorded, Except.map] at applied
  | ok next =>
    obtain ⟨rfl, rfl⟩ : [] = effects ∧ next = after := by simpa [recorded, Except.map] using applied
    exact ⟨rfl, rfl⟩

/-- An item makes the processor emit results, or flush and write its state. -/
inductive Does (item : BatchItem) (after : KeyedProcessor) : List Effect → Prop where
  | emits (results : List WindowResult) : Does item after (results.map .emit)
  | writes (control : ControlRecord) (here : item = .control control)
      (kind : control.type = .checkpointBarrier) :
      Does item after [.flush, .checkpoint (after.capture control.checkpointOffset)]

theorem processItem_does {after : KeyedProcessor} {item : BatchItem} {effects : List Effect}
    (applied : processor.processItem item = .ok (effects, after)) : Does item after effects := by
  cases item with
  | record record =>
    obtain ⟨rfl, -⟩ := processItem_record applied
    exact .emits []
  | control control =>
    have done : processor.processControl control = (effects, after) := Except.ok.inj applied
    unfold processControl at done
    cases kind : control.type with
    | watermark =>
      rw [kind] at done
      dsimp only at done
      split at done
      · cases done
        exact .emits _
      · cases done
        exact .emits []
    | checkpointBarrier =>
      rw [kind] at done
      dsimp only at done
      split at done
      · cases done
        exact .writes control rfl kind
      · cases done
        exact .emits []

/-! ## Twins -/

namespace Twins

/-- What one of two twins does, the other does. -/
theorem item {left right rightAfter : KeyedProcessor} (twins : Twins left right) {item : BatchItem}
    {effects : List Effect} (applied : right.processItem item = .ok (effects, rightAfter)) :
    ∃ same leftAfter, left.processItem item = .ok (same, leftAfter) ∧
      emissions same = emissions effects ∧ Twins leftAfter rightAfter := by
  cases item with
  | record record =>
    obtain ⟨rfl, recorded⟩ := processItem_record applied
    rcases twins.record record with ⟨failure, _, _, -, failed, -⟩ | ⟨one, other, done, also, after⟩
    · rw [failed] at recorded
      cases recorded
    · rw [also] at recorded
      cases recorded
      exact ⟨[], one, by simp [processItem, done, Except.map], rfl, after⟩
  | control control =>
    obtain ⟨rfl, rfl⟩ := Prod.mk.inj (Except.ok.inj applied)
    obtain ⟨results, after⟩ := twins.control control
    exact ⟨_, _, rfl, results, after⟩

theorem capture {left right : KeyedProcessor} (twins : Twins left right) (offset : Nat) :
    left.capture offset = right.capture offset := by
  simp only [KeyedProcessor.capture, KeyedWindowState.sorted, twins.watermark, twins.state]

/-- What one of two twins does with items, the other does. A checkpoint is the state of the other
at a barrier, and by then the results before the barrier are emitted. -/
theorem items {left right last : KeyedProcessor} (twins : Twins left right) {items : Batch}
    {theirs : List Effect} (processed : right.processItems items = .ok (theirs, last)) :
    ∃ effects final, left.processItems items = .ok (effects, final) ∧ Twins final last ∧
      emissions effects = emissions theirs ∧
      ∀ call data, effects[call]? = some (.checkpoint data) → ∃ front control back made behind,
        items = front ++ .control control :: back ∧ control.type = .checkpointBarrier ∧
        right.processItems (front ++ [.control control]) = .ok (made, behind) ∧
        data = behind.capture control.checkpointOffset ∧
        emissions made = emissions (effects.take call) := by
  induction items generalizing left right theirs with
  | nil =>
    obtain ⟨rfl, rfl⟩ := Prod.mk.inj (Except.ok.inj processed)
    exact ⟨[], left, rfl, twins, rfl, by simp⟩
  | cons item items inductionHypothesis =>
    cases one : right.processItem item with
    | error thrown => simp [processItems, one] at processed
    | ok step =>
      obtain ⟨begun, next⟩ := step
      cases more : next.processItems items with
      | error thrown => simp [processItems, one, more] at processed
      | ok result =>
        obtain ⟨rfl, rfl⟩ : begun ++ result.1 = theirs ∧ result.2 = last := by
          simpa [processItems, one, more] using processed
        obtain ⟨first, after, applied, same, later⟩ := twins.item one
        obtain ⟨second, final, done, ends, total, writes⟩ := inductionHypothesis later more
        refine ⟨first ++ second, final, by simp [processItems, applied, done], ends,
          by rw [emissions_append, emissions_append, same, total], fun call data written => ?_⟩
        by_cases inside : call < first.length
        · rw [List.getElem?_append_left inside] at written
          rw [List.take_append_of_le_length inside.le]
          cases processItem_does applied with
          | emits results => simp at written
          | writes control here kind =>
            subst here
            obtain rfl : call = 1 := by
              rcases call with _ | _ | call
              · cases written
              · rfl
              · cases written
            obtain rfl : _ = data := Effect.checkpoint.inj (Option.some.inj written)
            exact ⟨[], control, items, begun, next, rfl, kind, by simp [processItems, one],
              later.capture _, same.symm⟩
        · have beyond := not_lt.mp inside
          rw [List.getElem?_append_right beyond] at written
          obtain ⟨front, control, back, made, behind, rfl, kind, reached, state, upTo⟩ :=
            writes _ data written
          refine ⟨item :: front, control, back, begun ++ made, behind, rfl, kind,
            by simp [processItems, one, reached], state, ?_⟩
          rw [List.take_append, List.take_of_length_le beyond, emissions_append, emissions_append,
            same, upTo]

end Twins

end KeyedProcessor

end Stormglass
