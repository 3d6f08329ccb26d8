import Mathlib

/-!
# Logs of frames

A log holds the frames of its items one after another and may end in part of a frame, the
tail that a writer leaves when it is stopped in the middle. Cutting such a log anywhere
gives such a log again, with the items whose frames the cut has spared.

A scanner reads one frame at the front of the log as often as it can. When the reader of
one frame recognises every frame and refuses every torn tail, the scanner returns the items
of the log and the length of their frames.
-/

namespace FramedLog

universe u v

variable {α : Type u} {β : Type v} (frame : α → List β)

/-- The items whose frames lie entirely inside the first `length` entries of their log. -/
def fitting : Nat → List α → List α
  | _, [] => []
  | length, item :: rest =>
    if (frame item).length ≤ length then
      item :: fitting (length - (frame item).length) rest
    else []

/-- What can follow the last frame of a log: nothing, or a frame without its end. -/
def Torn (admitted : α → Prop) (tail : List β) : Prop :=
  tail = [] ∨ ∃ item, admitted item ∧ tail <+: frame item ∧ tail.length < (frame item).length

/-- Read frames from the front until none can be read. The second component is the length
of what has been read. -/
def scan (next : List β → Option (α × Nat)) : Nat → List β → List α × Nat
  | 0, _ => ([], 0)
  | fuel + 1, data =>
    match next data with
    | none => ([], 0)
    | some (item, size) =>
      let later := scan next fuel (data.drop size)
      (item :: later.1, size + later.2)

variable {frame} {admitted : α → Prop}

theorem fitting_le (length : Nat) (items : List α) : fitting frame length items <+: items := by
  induction items generalizing length with
  | nil => exact List.prefix_rfl
  | cons item rest inductionHypothesis =>
    unfold fitting
    split
    · exact List.cons_prefix_cons.mpr ⟨rfl, inductionHypothesis _⟩
    · exact List.nil_prefix

theorem Torn.nil : Torn frame admitted [] := Or.inl rfl

theorem Torn.take {tail : List β} (torn : Torn frame admitted tail) (length : Nat) :
    Torn frame admitted (tail.take length) := by
  rcases torn with rfl | ⟨item, admits, starts, shorter⟩
  · exact Or.inl List.take_nil
  · have bounded : (tail.take length).length ≤ tail.length := List.length_take_le' length tail
    exact Or.inr ⟨item, admits, (List.take_prefix length tail).trans starts, by omega⟩

/-- A frame that a cut runs through becomes the tail. -/
theorem torn_of_cut {item : α} (admits : admitted item) {length : Nat}
    (cut : length < (frame item).length) : Torn frame admitted ((frame item).take length) := by
  refine Or.inr ⟨item, admits, List.take_prefix _ _, ?_⟩
  rw [List.length_take]
  omega

/-- Cutting a log leaves the frames in front of the cut and a torn tail. -/
theorem take_log {items : List α} (admits : ∀ item ∈ items, admitted item) {tail : List β}
    (torn : Torn frame admitted tail) (length : Nat) :
    ∃ rest, (items.flatMap frame ++ tail).take length =
      (fitting frame length items).flatMap frame ++ rest ∧ Torn frame admitted rest := by
  induction items generalizing length with
  | nil => exact ⟨tail.take length, rfl, torn.take length⟩
  | cons item items inductionHypothesis =>
    have admitsRest := fun other member => admits other (List.mem_cons_of_mem item member)
    have admitsItem := admits item List.mem_cons_self
    rw [List.flatMap_cons, List.append_assoc]
    by_cases fits : (frame item).length ≤ length
    · obtain ⟨rest, cut, tornRest⟩ :=
        inductionHypothesis admitsRest (length - (frame item).length)
      refine ⟨rest, ?_, tornRest⟩
      rw [fitting, if_pos fits, List.flatMap_cons, List.append_assoc, ← cut, List.take_append,
        List.take_of_length_le fits]
    · have inside : length < (frame item).length := by omega
      refine ⟨(frame item).take length, ?_, torn_of_cut admitsItem inside⟩
      rw [fitting, if_neg fits, List.flatMap_nil, List.nil_append,
        List.take_append_of_le_length inside.le]

/-- Every item of a log of nonempty frames takes up an entry at least. -/
theorem length_le_log {items : List α} (nonempty : ∀ item, 0 < (frame item).length) :
    items.length ≤ (items.flatMap frame).length := by
  induction items with
  | nil => exact le_rfl
  | cons item items inductionHypothesis =>
    have here := nonempty item
    rw [List.flatMap_cons, List.length_append, List.length_cons]
    omega

section Scanning

variable {next : List β → Option (α × Nat)}
  (reads : ∀ item rest, admitted item →
    next (frame item ++ rest) = some (item, (frame item).length))

include reads

/-- The scanner passes over the frames of a log and continues with what follows them. -/
theorem scan_append {items : List α} (admits : ∀ item ∈ items, admitted item) (fuel : Nat)
    (rest : List β) :
    scan next (items.length + fuel) (items.flatMap frame ++ rest) =
      (items ++ (scan next fuel rest).1,
        (items.flatMap frame).length + (scan next fuel rest).2) := by
  induction items with
  | nil => simp
  | cons item items inductionHypothesis =>
    have read := reads item (items.flatMap frame ++ rest) (admits item List.mem_cons_self)
    have later := inductionHypothesis fun other member =>
      admits other (List.mem_cons_of_mem item member)
    have longer : (item :: items).length + fuel = (items.length + fuel) + 1 := by
      rw [List.length_cons]
      omega
    rw [longer, List.flatMap_cons, List.append_assoc, scan, read]
    simp only [List.drop_left, later, List.cons_append, List.length_append]
    rw [Nat.add_assoc]

/-- On a log the scanner returns the items and the length of their frames. -/
theorem scan_log (refuses : ∀ tail, Torn frame admitted tail → next tail = none)
    {items : List α} (admits : ∀ item ∈ items, admitted item) {tail : List β}
    (torn : Torn frame admitted tail) {fuel : Nat} (enough : items.length ≤ fuel) :
    scan next fuel (items.flatMap frame ++ tail) = (items, (items.flatMap frame).length) := by
  obtain ⟨spare, rfl⟩ := Nat.exists_eq_add_of_le enough
  have stops : scan next spare tail = ([], 0) := by
    cases spare with
    | zero => rfl
    | succ spare => rw [scan, refuses tail torn]
  rw [scan_append reads admits, stops, List.append_nil, Nat.add_zero]

end Scanning

end FramedLog
