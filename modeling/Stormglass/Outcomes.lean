import Mathlib

/-!
# Outcomes of programs with state and exceptions

A program in `EStateM` ends with a value or with an exception, and with a state. `Ends`
says what holds of a value and the state after it, and which exceptions are possible. It
is a weakest precondition, so it is computed through the program by one equivalence for
each construct, and an invariant is carried through a loop over a list.
-/

namespace EStateM

variable {ε σ α β : Type}

/-- Every outcome from the state is a value with the first property or an exception with
the second. -/
def Ends (program : EStateM ε σ α) (state : σ) (returns : α → σ → Prop) (throws : ε → Prop) :
    Prop :=
  match program.run state with
  | .ok value after => returns value after
  | .error failure _ => throws failure

variable {returns : α → σ → Prop} {throws : ε → Prop} {state : σ} {program : EStateM ε σ α}

@[simp] theorem ends_pure (value : α) :
    Ends (pure value : EStateM ε σ α) state returns throws ↔ returns value state := Iff.rfl

@[simp] theorem ends_throw (failure : ε) :
    Ends (throw failure : EStateM ε σ α) state returns throws ↔ throws failure := Iff.rfl

@[simp] theorem ends_get {returns : σ → σ → Prop} :
    Ends (get : EStateM ε σ σ) state returns throws ↔ returns state state := Iff.rfl

@[simp] theorem ends_modify (change : σ → σ) {returns : PUnit → σ → Prop} :
    Ends (modify change : EStateM ε σ PUnit) state returns throws ↔ returns ⟨⟩ (change state) :=
  Iff.rfl

@[simp] theorem ends_bind (first : EStateM ε σ α) (next : α → EStateM ε σ β)
    {returns : β → σ → Prop} :
    Ends (first >>= next) state returns throws ↔
      Ends first state (fun value after => Ends (next value) after returns throws) throws := by
  have unfolded : (first >>= next).run state = match first.run state with
      | .ok value after => (next value).run after
      | .error failure after => .error failure after := rfl
  unfold Ends
  rw [unfolded]
  cases first.run state <;> rfl

theorem Ends.mono {weaker : α → σ → Prop} {more : ε → Prop}
    (ends : Ends program state returns throws)
    (values : ∀ value after, returns value after → weaker value after)
    (failures : ∀ failure, throws failure → more failure) : Ends program state weaker more := by
  unfold Ends at ends ⊢
  cases outcome : program.run state with
  | ok value after =>
    rw [outcome] at ends
    exact values value after ends
  | error failure after =>
    rw [outcome] at ends
    exact failures failure ends

/-- A handler that changes the state and throws again lets the same exceptions out. -/
theorem ends_rethrow (program : EStateM ε σ α) (change : σ → σ) :
    Ends (tryCatch program fun failure => do
      modify change
      throw failure) state returns throws ↔ Ends program state returns throws := by
  have unfolded : (tryCatch program fun failure => do
      modify change
      throw failure).run state = match program.run state with
        | .ok value after => .ok value after
        | .error failure after => .error failure (change after) := by
    change EStateM.tryCatch program _ state = _
    unfold EStateM.tryCatch EStateM.run
    cases program state <;> rfl
  unfold Ends
  rw [unfolded]
  cases program.run state <;> rfl

/-- An invariant of the body is one of the loop. -/
theorem ends_forM {invariant : σ → Prop} {items : List α} {body : α → EStateM ε σ PUnit}
    (keeps : ∀ item ∈ items, ∀ state, invariant state →
      Ends (body item) state (fun _ after => invariant after) throws)
    (initially : invariant state) :
    Ends (items.forM body) state (fun _ after => invariant after) throws := by
  induction items generalizing state with
  | nil => exact initially
  | cons item rest inductionHypothesis =>
    have unrolled : (item :: rest).forM body = (body item >>= fun _ => rest.forM body) := rfl
    rw [unrolled, ends_bind]
    apply (keeps item List.mem_cons_self state initially).mono
    · intro _ after kept
      exact inductionHypothesis (fun other member => keeps other (List.mem_cons_of_mem item member))
        kept
    · exact fun _ => id

theorem Ends.run_ok (ends : Ends program state returns throws) {value : α} {after : σ}
    (ran : program.run state = .ok value after) : returns value after := by
  unfold Ends at ends
  rwa [ran] at ends

theorem Ends.run_error (ends : Ends program state returns throws) {failure : ε} {after : σ}
    (ran : program.run state = .error failure after) :
    throws failure := by
  unfold Ends at ends
  rwa [ran] at ends

end EStateM
