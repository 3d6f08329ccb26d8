import Stormglass.Stream

/-!
# Pull-based sources

`Source` is the abstract input of the engine: `next` returns the next batch and
the advanced source, or nothing at the end of input, and `seek` repositions it.
An empty batch means that a live input has no data yet.

A finite trajectory is described by observations of `next` only. It says nothing
about how a consumer groups, buffers or interleaves the batches.
-/

namespace Stormglass

/-- The exceptions of the modelled operations, with their messages.
`unfinished` is not thrown by any source function: it reports that the fuel of a
modelled loop ran out. -/
inductive Failure where
  | invalidArgument (what : String)
  | outOfRange (what : String)
  | overflowError (what : String)
  | logicError (what : String)
  | runtimeError (what : String)
  | unfinished
deriving DecidableEq

/-- The virtual interface `Source`. A source that does not describe itself has
the empty descriptor. -/
class Source (σ : Type) where
  next : σ → Option (Batch × σ)
  seek : σ → Nat → σ
  descriptor : σ → Bytes := fun _ => []

/-- A source with its position, `CurrentOffset()`. -/
class PositionedSource (σ : Type) extends Source σ where
  currentOffset : σ → Nat

namespace Source

variable {σ : Type} [Source σ]

/-- The batches that a source hands out before its end of input, as actual calls
of `next` observe them. Behaviour after the end of input is irrelevant. -/
inductive Delivers : σ → List Batch → Prop where
  | ended {source : σ} (observed : next source = none) : Delivers source []
  | handed {source rest : σ} {batch : Batch} {batches : List Batch}
      (observed : next source = some (batch, rest)) (later : Delivers rest batches) :
      Delivers source (batch :: batches)

/-- The items of the first batches of a source, at most `calls` of them. It
observes sources that never end. -/
def itemsWithin : Nat → σ → Batch
  | 0, _ => []
  | calls + 1, source =>
      match next source with
      | none => []
      | some (batch, rest) => batch ++ itemsWithin calls rest

/-- More calls extend the observed items. -/
theorem itemsWithin_prefix (source : σ) {fewer more : Nat} (bounded : fewer ≤ more) :
    itemsWithin fewer source <+: itemsWithin more source := by
  induction fewer generalizing more source with
  | zero => exact List.nil_prefix
  | succ fewer inductionHypothesis =>
    obtain ⟨more, rfl⟩ : ∃ rest, more = rest + 1 := ⟨more - 1, by omega⟩
    cases observed : next source with
    | none => simp [itemsWithin, observed]
    | some handed =>
      simp only [itemsWithin, observed]
      exact (List.prefix_append_right_inj _).mpr (inductionHypothesis handed.2 (by omega))

/-- A finite trajectory is observed whole by enough calls. -/
theorem Delivers.itemsWithin_eq {source : σ} {batches : List Batch}
    (delivers : Delivers source batches) {calls : Nat} (enough : batches.length ≤ calls) :
    itemsWithin calls source = batches.flatten := by
  induction delivers generalizing calls with
  | ended observed =>
    cases calls with
    | zero => rfl
    | succ calls => simp [itemsWithin, observed]
  | handed observed later inductionHypothesis =>
    obtain ⟨calls, rfl⟩ : ∃ rest, calls = rest + 1 :=
      ⟨calls - 1, by simp only [List.length_cons] at enough; omega⟩
    simp only [itemsWithin, observed, List.flatten_cons]
    rw [inductionHypothesis (by simpa using enough)]

/-- One source follows another by a number of calls of `next`. -/
def Reaches : σ → σ → Prop :=
  Relation.ReflTransGen (fun source rest => ∃ batch, next source = some (batch, rest))

/-- What a source delivers, it delivers from every later position. -/
theorem Delivers.reaches {source later : σ} {batches : List Batch}
    (delivers : Delivers source batches) (reaches : Reaches source later) :
    ∃ remaining, Delivers later remaining ∧ remaining <:+ batches := by
  induction reaches with
  | refl => exact ⟨batches, delivers, List.suffix_refl batches⟩
  | tail _ called inductionHypothesis =>
    obtain ⟨remaining, remains, suffix⟩ := inductionHypothesis
    obtain ⟨batch, called⟩ := called
    cases remains with
    | ended observed =>
      rw [observed] at called
      simp at called
    | handed observed later =>
      rw [observed] at called
      obtain ⟨rfl, rfl⟩ := Prod.mk.inj (Option.some.inj called)
      exact ⟨_, later, (List.suffix_cons _ _).trans suffix⟩

end Source

/-- A source that replays a fixed list of batches, as the scripted sources of the
test suite do. Its position is a number of batches. -/
structure ScriptedSource where
  script : List Batch
  position : Nat := 0
deriving DecidableEq

namespace ScriptedSource

/-- The batches from the position on. -/
def remaining (source : ScriptedSource) : List Batch := source.script.drop source.position

instance : Source ScriptedSource where
  next source := source.script[source.position]?.map
    (fun batch => (batch, { source with position := source.position + 1 }))
  seek source _ := { source with position := 0 }

/-- A scripted source delivers exactly the rest of its script. -/
theorem delivers (source : ScriptedSource) : Source.Delivers source source.remaining := by
  generalize counted : source.script.length - source.position = left
  induction left generalizing source with
  | zero =>
    have past : source.script.length ≤ source.position := by omega
    have ended : source.remaining = [] := List.drop_eq_nil_of_le past
    rw [ended]
    exact .ended (by simp [Source.next, past])
  | succ left inductionHypothesis =>
    have inside : source.position < source.script.length := by omega
    have split : source.remaining = source.script[source.position] ::
        remaining { source with position := source.position + 1 } :=
      List.drop_eq_getElem_cons inside
    rw [split]
    exact .handed (by simp [Source.next, inside])
      (inductionHypothesis { source with position := source.position + 1 } (by simp only; omega))

end ScriptedSource

end Stormglass
