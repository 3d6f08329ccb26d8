import Stormglass.MergeReplay

/-!
# Where the records of a merge come from

Two merges whose channels have the same beginnings take the same turns until a turn comes to a
channel that has ended in one of them only. The one with the item hands out a record of that
channel. The other hands out a record of another channel, unless it has no record left.

`origins` lists the records of a machine with the channels they come from. The origins of two
such machines agree as far as the shorter one goes exactly when no turn shifts a record.
-/

namespace Stormglass

/-- A trajectory, and a longer one that goes on with a record. -/
def Continues (short long : Batch) : Prop :=
  ∃ more, long = short ++ more ∧ ∀ item ∈ more.head?, ∃ data, item = .record data

/-- Of two trajectories one continues the other. -/
def Comparable (first second : Batch) : Prop := Continues first second ∨ Continues second first

namespace Comparable

theorem symm {first second : Batch} (comparable : Comparable first second) :
    Comparable second first := Or.symm comparable

/-- Nonempty comparable trajectories begin with the same item. -/
theorem cons {first second : BatchItem} {short long : Batch}
    (comparable : Comparable (first :: short) (second :: long)) :
    first = second ∧ Comparable short long := by
  rcases comparable with ⟨more, split, starts⟩ | ⟨more, split, starts⟩
  · obtain ⟨heads, tails⟩ := List.cons.inj split
    exact ⟨heads.symm, Or.inl ⟨more, tails, starts⟩⟩
  · obtain ⟨heads, tails⟩ := List.cons.inj split
    exact ⟨heads, Or.inr ⟨more, tails, starts⟩⟩

/-- What goes on behind an end is a record. -/
theorem record {item : BatchItem} {rest : Batch} (comparable : Comparable [] (item :: rest)) :
    ∃ data, item = .record data := by
  rcases comparable with ⟨more, split, starts⟩ | ⟨more, split, -⟩
  · rw [List.nil_append] at split
    exact starts item (split ▸ rfl)
  · cases split

end Comparable

namespace ItemMerge

variable {k : Nat} {machine next : ItemMerge k} {items : Batch}

/-- The item that the next step takes, with its channel. -/
def pulls (machine : ItemMerge k) : Option (Fin k × BatchItem) :=
  machine.skeleton.pickChannel.bind fun channel => (machine.serve channel).1.pulled

/-- The turn of the next step finds its channel ended. -/
def AtEnd (machine : ItemMerge k) : Prop :=
  ∃ channel, machine.skeleton.pickChannel = some channel ∧
    ¬ 0 < (machine.skeleton.states channel).openGap.gapRemaining ∧ machine.ahead channel = []

/-- No channel holds another record. -/
def Drained (machine : ItemMerge k) : Prop := ∀ channel, records (machine.ahead channel) = []

/-- The machine after its next step, if there is one. -/
def advance (machine : ItemMerge k) : ItemMerge k := (machine.step.map Prod.snd).getD machine

theorem advance_none (stopped : machine.step = none) : machine.advance = machine := by
  rw [advance, stopped]
  rfl

theorem advance_some (stepped : machine.step = some (items, next)) : machine.advance = next := by
  rw [advance, stepped]
  rfl

/-- The records among pulled items, with their channels. -/
def tagged (pulled : List (Fin k × BatchItem)) : List (Nat × Record) :=
  pulled.filterMap fun taken => taken.2.record?.map fun data => (taken.1.val, data)

theorem tagged_append (first second : List (Fin k × BatchItem)) :
    tagged (first ++ second) = tagged first ++ tagged second :=
  List.filterMap_append

/-- The records of a machine with their channels, in the order of its stream. -/
def origins (machine : ItemMerge k) : List (Nat × Record) :=
  match _stepped : machine.step with
  | none => []
  | some (_, next) => tagged machine.pulls.toList ++ next.origins
termination_by machine.weight
decreasing_by exact step_weight _stepped

theorem origins_none (stopped : machine.step = none) : machine.origins = [] := by
  rw [origins]
  split
  · rfl
  next found =>
    rw [stopped] at found
    cases found

theorem origins_some (stepped : machine.step = some (items, next)) :
    machine.origins = tagged machine.pulls.toList ++ next.origins := by
  rw [origins]
  split
  next found =>
    rw [stepped] at found
    cases found
  next found =>
    rw [stepped] at found
    cases found
    rfl

/-- After as many steps as its weight a machine has no origin left. -/
theorem origins_exhausted {count : Nat} (bounded : machine.weight ≤ count) :
    (advance^[count] machine).origins = [] := by
  induction count generalizing machine with
  | zero =>
    cases stepped : machine.step with
    | none => exact origins_none stepped
    | some found =>
      have lighter := step_weight stepped
      omega
  | succ count inductionHypothesis =>
    rw [Function.iterate_succ_apply]
    cases stepped : machine.step with
    | none =>
      rw [advance_none stepped, Function.iterate_fixed (advance_none stepped)]
      exact origins_none stepped
    | some found =>
      obtain ⟨items, next⟩ := found
      have lighter := step_weight stepped
      rw [advance_some stepped]
      exact inductionHypothesis (by omega)

/-- What a turn pulls: nothing in a gap, else the next item of its channel. -/
theorem serve_pulled (machine : ItemMerge k) (channel : Fin k) :
    (machine.serve channel).1.pulled =
      if 0 < (machine.skeleton.states channel).openGap.gapRemaining then none
      else (machine.ahead channel).head?.map fun item => (channel, item) := by
  unfold serve
  dsimp only
  split
  · unfold SourceMerge.tick
    dsimp only
    split <;> rfl
  · cases machine.ahead channel with
    | nil => rfl
    | cons item rest =>
      cases item with
      | record data => rfl
      | control control =>
        obtain ⟨type, watermark, offset⟩ := control
        cases type <;> rfl

/-- A turn takes its item off its channel. -/
theorem serve_own (machine : ItemMerge k) (channel : Fin k) :
    (machine.serve channel).2 channel =
      if 0 < (machine.skeleton.states channel).openGap.gapRemaining then machine.ahead channel
      else (machine.ahead channel).tail := by
  unfold serve
  dsimp only
  split
  · rfl
  · cases ahead : machine.ahead channel with
    | nil => exact ahead
    | cons item rest => exact Function.update_self _ _ _

/-- A turn depends on the next item of its channel only. -/
theorem serve_congr {first second : ItemMerge k} {channel : Fin k}
    (same : first.skeleton = second.skeleton)
    (heads : 0 < (first.skeleton.states channel).openGap.gapRemaining ∨
      (first.ahead channel).head? = (second.ahead channel).head?) :
    (first.serve channel).1 = (second.serve channel).1 := by
  unfold serve
  rw [same] at heads ⊢
  dsimp only
  split
  · rfl
  next busy =>
    have heads := heads.resolve_left busy
    cases left : first.ahead channel with
    | nil =>
      cases right : second.ahead channel with
      | nil => rfl
      | cons item rest =>
        rw [left, right] at heads
        cases heads
    | cons item rest =>
      cases right : second.ahead channel with
      | nil =>
        rw [left, right] at heads
        cases heads
      | cons other more =>
        rw [left, right] at heads
        cases heads
        rfl

/-- A step is a turn of a channel that has not ended before. -/
theorem step_turn (stepped : machine.step = some (items, next)) :
    ∃ channel, machine.skeleton.pickChannel = some channel ∧
      (machine.skeleton.states channel).exhausted = false ∧
      machine.pulls = (machine.serve channel).1.pulled ∧
      items = (machine.serve channel).1.emitted ∧
      next.skeleton = (machine.serve channel).1.merge ∧ next.ahead = (machine.serve channel).2 := by
  obtain ⟨channel, picked, same⟩ := Option.map_eq_some_iff.mp stepped
  obtain ⟨rfl, rfl⟩ := Prod.mk.inj same
  refine ⟨channel, picked, (SourceMerge.pickChannel_free picked).1, ?_, rfl, rfl, rfl⟩
  rw [pulls, picked]
  rfl

/-- A step takes what it pulls off its channel and leaves the others alone. -/
theorem step_ahead (stepped : machine.step = some (items, next)) (channel : Fin k) :
    machine.ahead channel =
      (machine.pulls.toList.filterMap fun taken =>
        if taken.1 = channel then some taken.2 else none) ++
        next.ahead channel := by
  obtain ⟨own, picked, live, pulled, -, -, later⟩ := step_turn stepped
  rw [pulled, later, serve_pulled]
  by_cases same : channel = own
  · subst same
    rw [serve_own]
    split
    · rfl
    · cases machine.ahead channel <;> simp
  · rw [machine.serve_ahead same]
    split
    · rfl
    · cases machine.ahead own with
      | nil => rfl
      | cons item rest => simp [Ne.symm same]

/-- A record with its channel is one that the channel held. -/
theorem mem_origins {tag : Nat} {data : Record} (member : (tag, data) ∈ machine.origins) :
    ∃ channel : Fin k, channel.val = tag ∧ data ∈ records (machine.ahead channel) := by
  generalize left : machine.weight = weight
  induction weight using Nat.strongRecOn generalizing machine with
  | ind weight inductionHypothesis =>
    cases stepped : machine.step with
    | none =>
      rw [origins_none stepped] at member
      cases member
    | some found =>
      obtain ⟨items, next⟩ := found
      rw [origins_some stepped] at member
      have split := step_ahead stepped
      rcases List.mem_append.mp member with here | later
      · obtain ⟨taken, pulled, tags⟩ := List.mem_filterMap.mp here
        obtain ⟨record, recorded, same⟩ := Option.map_eq_some_iff.mp tags
        obtain ⟨rfl, rfl⟩ := Prod.mk.inj same
        refine ⟨taken.1, rfl, ?_⟩
        rw [split, records_append]
        apply List.mem_append_left
        refine List.mem_filterMap.mpr ⟨taken.2, ?_, recorded⟩
        exact List.mem_filterMap.mpr ⟨taken, pulled, if_pos rfl⟩
      · obtain ⟨channel, same, held⟩ :=
          inductionHypothesis next.weight (left ▸ step_weight stepped) later rfl
        refine ⟨channel, same, ?_⟩
        rw [split, records_append]
        exact List.mem_append_right _ held

theorem records_excludeChannel {σ : Type} (merge : SourceMerge σ k) (channel : Fin k) :
    records (merge.excludeChannel channel).1 = [] := by
  simp [SourceMerge.excludeChannel]

/-- The records that a turn appends are those that it pulls. -/
theorem serve_records (machine : ItemMerge k) (channel : Fin k) :
    records (machine.serve channel).1.emitted =
      records ((machine.serve channel).1.pulled.toList.map Prod.snd) := by
  unfold serve
  dsimp only
  split
  · unfold SourceMerge.tick
    dsimp only
    split
    · exact records_excludeChannel _ _
    · rfl
  · cases machine.ahead channel with
    | nil => exact records_excludeChannel _ _
    | cons item rest =>
      cases item with
      | record data => rfl
      | control control =>
        obtain ⟨type, watermark, offset⟩ := control
        cases type with
        | watermark => exact SourceMerge.records_announce _ _
        | checkpointBarrier => exact SourceMerge.records_maybeCloseEpoch _

theorem tagged_snd (pulled : List (Fin k × BatchItem)) :
    (tagged pulled).map Prod.snd = records (pulled.map Prod.snd) := by
  induction pulled with
  | nil => rfl
  | cons taken rest inductionHypothesis =>
    obtain ⟨channel, item⟩ := taken
    cases item with
    | record data => exact congrArg (data :: ·) inductionHypothesis
    | control control => exact inductionHypothesis

/-- The records of the stream are the origins without their channels. -/
theorem records_stream (machine : ItemMerge k) :
    records machine.stream = machine.origins.map Prod.snd := by
  generalize left : machine.weight = weight
  induction weight using Nat.strongRecOn generalizing machine with
  | ind weight inductionHypothesis =>
    cases stepped : machine.step with
    | none => rw [stream_none stepped, origins_none stepped]; rfl
    | some found =>
      obtain ⟨items, next⟩ := found
      obtain ⟨channel, -, -, pulled, appended, -, -⟩ := step_turn stepped
      rw [stream_some stepped, origins_some stepped, records_append, List.map_append, tagged_snd,
        pulled, appended, serve_records,
        inductionHypothesis next.weight (left ▸ step_weight stepped) next rfl]

/-- A channel that is exhausted holds no item. -/
def Spent (machine : ItemMerge k) : Prop :=
  ∀ channel, (machine.skeleton.states channel).exhausted = true → machine.ahead channel = []

theorem steady_exhausted : SourceMerge.Steady (@SourceState.exhausted Unit) :=
  ⟨fun _ _ => rfl, fun _ _ => rfl, fun _ _ => rfl, fun _ _ => rfl⟩

/-- A turn that ends its channel finds no item. -/
theorem moved_exhausted {channel : Fin k}
    (live : (machine.skeleton.states channel).exhausted = false)
    (ended : (machine.moved channel).exhausted = true) :
    (machine.serve channel).2 channel = [] := by
  have opened : (machine.skeleton.states channel).openGap.exhausted = false := by
    obtain ⟨gap, span, same, -⟩ := (machine.skeleton.states channel).openGap_eq
    rw [same]
    exact live
  rw [serve_own]
  unfold moved at ended
  dsimp only at ended
  split at ended
  · rw [opened] at ended
    cases ended
  next busy =>
    rw [if_neg busy]
    cases ahead : machine.ahead channel with
    | nil => rfl
    | cons item rest =>
      rw [ahead] at ended
      rw [opened] at ended
      cases ended

theorem Spent.step (spent : Spent machine) (stepped : machine.step = some (items, next)) :
    Spent next := by
  obtain ⟨own, picked, live, -, -, skeleton, later⟩ := step_turn stepped
  have flags := serve_seen steady_exhausted machine own
  rw [← skeleton] at flags
  intro channel exhausted
  have flag := (congrFun flags channel).symm.trans exhausted
  rw [later]
  by_cases same : channel = own
  · subst same
    rw [Function.update_self] at flag
    exact moved_exhausted live flag
  · rw [Function.update_of_ne same] at flag
    rw [machine.serve_ahead same]
    exact spent channel flag

/-- A machine without origins holds no record: it drains every channel before it stops. -/
theorem drained_of_origins {σ : Type} [Source σ] {merge : SourceMerge σ k}
    (refines : SourceMerge.Refines merge machine) (spent : Spent machine)
    (nothing : machine.origins = []) : machine.Drained := by
  generalize left : machine.weight = weight
  induction weight using Nat.strongRecOn generalizing machine merge with
  | ind weight inductionHypothesis =>
    cases stepped : machine.step with
    | none =>
      intro channel
      have ended := refines.allExhausted stepped channel
      have same := congrArg (fun merge : SourceMerge Unit k => (merge.states channel).exhausted)
        refines.skeleton
      rw [spent channel (same.symm.trans ended)]
      rfl
    | some found =>
      obtain ⟨items, next⟩ := found
      obtain ⟨step, -, -, -, -, later, -, -⟩ := refines.step_some stepped 0
      rw [origins_some stepped] at nothing
      obtain ⟨unpulled, rest⟩ := List.append_eq_nil_iff.mp nothing
      have drained := inductionHypothesis next.weight (left ▸ step_weight stepped) later
        (spent.step stepped) rest rfl
      intro channel
      rw [step_ahead stepped, records_append, drained channel, List.append_nil]
      apply List.filterMap_eq_nil_iff.mpr
      intro item member
      obtain ⟨taken, pulled, same⟩ := List.mem_filterMap.mp member
      have plain := List.filterMap_eq_nil_iff.mp unpulled taken pulled
      split at same
      · rw [← Option.some.inj same]
        exact Option.map_eq_none_iff.mp plain
      · cases same

theorem origins_of_drained (drained : machine.Drained) : machine.origins = [] := by
  apply List.eq_nil_iff_forall_not_mem.mpr
  rintro ⟨tag, data⟩ member
  obtain ⟨channel, -, held⟩ := mem_origins member
  rw [drained channel] at held
  cases held

/-- Replayed step by step, the first turn that finds its channel ended in one machine only finds
no record left in that machine. -/
def Unshifted {l : Nat} (first : ItemMerge k) (second : ItemMerge l) : Prop :=
  ∀ count, (∀ fewer < count, (advance^[fewer] first).AtEnd ↔ (advance^[fewer] second).AtEnd) →
    ((advance^[count] first).AtEnd → ¬ (advance^[count] second).AtEnd →
      (advance^[count] first).Drained) ∧
    ((advance^[count] second).AtEnd → ¬ (advance^[count] first).AtEnd →
      (advance^[count] second).Drained)

/-- One list begins with the other. -/
def Agree (first second : List (Nat × Record)) : Prop := first <+: second ∨ second <+: first

theorem agree_append (front first second : List (Nat × Record)) :
    Agree (front ++ first) (front ++ second) ↔ Agree first second := by
  rw [Agree, Agree, List.prefix_append_right_inj, List.prefix_append_right_inj]

/-- The first step decides, or both machines go on. -/
theorem unshifted_iff {first second : ItemMerge k} :
    Unshifted first second ↔
      (first.AtEnd → ¬ second.AtEnd → first.Drained) ∧
        (second.AtEnd → ¬ first.AtEnd → second.Drained) ∧
        ((first.AtEnd ↔ second.AtEnd) → Unshifted first.advance second.advance) := by
  constructor
  · intro unshifted
    refine ⟨(unshifted 0 (by simp)).1, (unshifted 0 (by simp)).2, ?_⟩
    intro same count agree
    refine unshifted (count + 1) ?_
    intro fewer bounded
    cases fewer with
    | zero => exact same
    | succ fewer => exact agree fewer (by omega)
  · rintro ⟨left, right, later⟩ count agree
    cases count with
    | zero => exact ⟨left, right⟩
    | succ count =>
      refine later (agree 0 (by omega)) count ?_
      intro fewer bounded
      exact agree (fewer + 1) (by omega)

theorem Agree.symm {first second : List (Nat × Record)} (agree : Agree first second) :
    Agree second first := Or.symm agree

theorem Unshifted.symm {first second : ItemMerge k} (unshifted : Unshifted first second) :
    Unshifted second first :=
  fun count agree => (unshifted count fun fewer bounded => (agree fewer bounded).symm).symm

/-- Whether a turn finds its channel ended. -/
theorem atEnd_iff {channel : Fin k} (picked : machine.skeleton.pickChannel = some channel) :
    machine.AtEnd ↔ ¬ 0 < (machine.skeleton.states channel).openGap.gapRemaining ∧
      machine.ahead channel = [] := by
  constructor
  · rintro ⟨other, found, ended⟩
    obtain rfl := Option.some.inj (picked.symm.trans found)
    exact ended
  · intro ended
    exact ⟨channel, picked, ended⟩

section Split

variable {σ τ : Type} [Source σ] [Source τ] {first second : ItemMerge k}
  {merge : SourceMerge σ k} {also : SourceMerge τ k} {channel : Fin k}

/-- A turn that finds its channel ended in the first machine only. The second one hands out a
record of the channel, and the first one has none of it. -/
theorem agree_iff_of_split (refines : SourceMerge.Refines merge first) (spent : Spent first)
    (same : first.skeleton = second.skeleton) (picked : first.skeleton.pickChannel = some channel)
    (busy : ¬ 0 < (first.skeleton.states channel).openGap.gapRemaining)
    (ended : first.ahead channel = []) {data : Record} {rest : Batch}
    (goes : second.ahead channel = .record data :: rest) :
    Agree first.origins second.origins ↔ Unshifted first second := by
  have atEnd : first.AtEnd := (atEnd_iff picked).mpr ⟨busy, ended⟩
  have running : ¬ second.AtEnd := by
    rw [atEnd_iff (same ▸ picked), goes]
    exact fun both => List.cons_ne_nil _ _ both.2
  have condition : Unshifted first second ↔ first.Drained := by
    rw [unshifted_iff]
    constructor
    · exact fun unshifted => unshifted.1 atEnd running
    · exact fun drained => ⟨fun _ _ => drained, fun found => absurd found running,
        fun both => absurd (both.mp atEnd) running⟩
  have starts : ∃ later, second.origins = (channel.val, data) :: later := by
    have stepped : second.step = some ((second.serve channel).1.emitted,
        { skeleton := (second.serve channel).1.merge, ahead := (second.serve channel).2 }) := by
      rw [step, ← same, picked]
      rfl
    have pulled : second.pulls = some (channel, .record data) := by
      rw [pulls, ← same, picked, Option.bind_some, serve_pulled, ← same, if_neg busy, goes]
      rfl
    rw [origins_some stepped, pulled]
    exact ⟨_, rfl⟩
  obtain ⟨later, origins⟩ := starts
  rw [condition]
  constructor
  · intro agree
    apply drained_of_origins refines spent
    cases own : first.origins with
    | nil => rfl
    | cons origin others =>
      have heads : origin = (channel.val, data) := by
        rw [own, origins] at agree
        rcases agree with ⟨more, whole⟩ | ⟨more, whole⟩
        · exact (List.cons.inj whole).1
        · exact (List.cons.inj whole).1.symm
      have member : (channel.val, data) ∈ first.origins := by
        rw [own, heads]
        exact List.mem_cons_self
      obtain ⟨found, tag, held⟩ := mem_origins member
      obtain rfl := Fin.ext tag
      rw [ended] at held
      cases held
  · intro drained
    rw [origins_of_drained drained]
    exact Or.inl List.nil_prefix

/-- Two machines at the same point of the rotation, with channels of which one continues the
other. -/
structure Abreast (first second : ItemMerge k) : Prop where
  skeleton : first.skeleton = second.skeleton
  comparable : ∀ channel, Comparable (first.ahead channel) (second.ahead channel)

/-- A turn that finds the same next item, or that is idle in both machines, leaves them
abreast. -/
theorem Abreast.step (abreast : Abreast first second)
    (picked : first.skeleton.pickChannel = some channel)
    (heads : 0 < (first.skeleton.states channel).openGap.gapRemaining ∨
      (first.ahead channel).head? = (second.ahead channel).head?) :
    ∃ items next following, first.step = some (items, next) ∧
      second.step = some (items, following) ∧ Abreast next following ∧
      first.pulls = second.pulls ∧ (first.AtEnd ↔ second.AtEnd) := by
  have also : second.skeleton.pickChannel = some channel := abreast.skeleton ▸ picked
  have outcome := serve_congr abreast.skeleton heads
  refine ⟨(first.serve channel).1.emitted,
    { skeleton := (first.serve channel).1.merge, ahead := (first.serve channel).2 },
    { skeleton := (second.serve channel).1.merge, ahead := (second.serve channel).2 }, ?_, ?_, ?_,
    ?_, ?_⟩
  · rw [ItemMerge.step, picked]
    rfl
  · rw [ItemMerge.step, also, outcome]
    rfl
  · refine ⟨congrArg StepOutcome.merge outcome, ?_⟩
    intro other
    change Comparable ((first.serve channel).2 other) ((second.serve channel).2 other)
    by_cases own : other = channel
    · subst own
      have comparable := abreast.comparable other
      rw [serve_own, serve_own, ← abreast.skeleton]
      split
      · exact comparable
      next busy =>
        have heads := heads.resolve_left busy
        cases left : first.ahead other with
        | nil =>
          cases right : second.ahead other with
          | nil =>
            rw [left, right] at comparable
            exact comparable
          | cons item rest =>
            rw [left, right] at heads
            cases heads
        | cons item rest =>
          cases right : second.ahead other with
          | nil =>
            rw [left, right] at heads
            cases heads
          | cons item rest =>
            rw [left, right] at comparable
            exact comparable.cons.2
    · rw [serve_ahead first own, serve_ahead second own]
      exact abreast.comparable other
  · rw [pulls, pulls, picked, also, Option.bind_some, Option.bind_some, outcome]
  · rw [atEnd_iff picked, atEnd_iff also, ← abreast.skeleton]
    apply and_congr_right
    intro busy
    have heads := heads.resolve_left busy
    rw [← List.head?_eq_none_iff, heads, List.head?_eq_none_iff]

/-- The records of two machines abreast agree with their channels, as far as the shorter stream
goes, exactly when no turn shifts a record. -/
theorem agree_iff_unshifted (refines : SourceMerge.Refines merge first)
    (refinesAlso : SourceMerge.Refines also second) (spent : Spent first) (spentAlso : Spent second)
    (abreast : Abreast first second) :
    Agree first.origins second.origins ↔ Unshifted first second := by
  generalize left : first.weight = weight
  induction weight using Nat.strongRecOn generalizing first second merge also with
  | ind weight inductionHypothesis =>
    cases picked : first.skeleton.pickChannel with
    | none =>
      have stopped : first.step = none := by rw [ItemMerge.step, picked]; rfl
      have never {machine : ItemMerge k} (none : machine.skeleton.pickChannel = none)
          (count : Nat) :
          ¬ (advance^[count] machine).AtEnd := by
        have stays : machine.advance = machine :=
          advance_none (by rw [ItemMerge.step, none]; rfl)
        rw [Function.iterate_fixed stays]
        rintro ⟨channel, found, -⟩
        rw [none] at found
        cases found
      rw [origins_none stopped]
      refine ⟨fun _ count _ => ⟨fun ended => absurd ended (never picked count), fun ended =>
        absurd ended (never (abreast.skeleton ▸ picked) count)⟩, fun _ => Or.inl List.nil_prefix⟩
    | some channel =>
      by_cases heads : 0 < (first.skeleton.states channel).openGap.gapRemaining ∨
          (first.ahead channel).head? = (second.ahead channel).head?
      · obtain ⟨items, next, following, stepped, steppedAlso, later, pulled, ends⟩ :=
          abreast.step picked heads
        obtain ⟨step, -, -, -, -, refinesNext, -, -⟩ := refines.step_some stepped 0
        obtain ⟨stepAlso, -, -, -, -, refinesFollowing, -, -⟩ :=
          refinesAlso.step_some steppedAlso 0
        have rest := inductionHypothesis next.weight (left ▸ step_weight stepped) refinesNext
          refinesFollowing (spent.step stepped) (spentAlso.step steppedAlso) later rfl
        have turn : Unshifted first second ↔ _ := unshifted_iff
        rw [advance_some stepped, advance_some steppedAlso] at turn
        rw [origins_some stepped, origins_some steppedAlso, pulled, agree_append, rest, turn]
        exact ⟨fun unshifted => ⟨fun ended running => absurd (ends.mp ended) running,
          fun ended running => absurd (ends.mpr ended) running, fun _ => unshifted⟩,
          fun unshifted => unshifted.2.2 ends⟩
      · obtain ⟨busy, differ⟩ := not_or.mp heads
        have comparable := abreast.comparable channel
        cases ended : first.ahead channel with
        | nil =>
          cases goes : second.ahead channel with
          | nil => exact absurd (by rw [ended, goes]) differ
          | cons item rest =>
            rw [ended, goes] at comparable
            obtain ⟨data, rfl⟩ := comparable.record
            exact agree_iff_of_split refines spent abreast.skeleton picked busy ended goes
        | cons item rest =>
          cases endedAlso : second.ahead channel with
          | nil =>
            rw [ended, endedAlso] at comparable
            obtain ⟨data, rfl⟩ := comparable.symm.record
            have split := agree_iff_of_split refinesAlso spentAlso abreast.skeleton.symm
              (abreast.skeleton ▸ picked) (abreast.skeleton ▸ busy) endedAlso ended
            exact ⟨fun agree => (split.mp agree.symm).symm,
              fun unshifted => (split.mpr unshifted.symm).symm⟩
          | cons other more =>
            rw [ended, endedAlso] at comparable differ
            exact absurd (congrArg some comparable.cons.1) differ

end Split

end ItemMerge

end Stormglass
