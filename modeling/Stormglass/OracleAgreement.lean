import Stormglass.Pipeline
import Stormglass.WindowGeometry

/-!
# The engine and the oracle agree

The oracle keeps one group for every account with contributions and never fires.
`Mirrors` relates it to the accounts of the stream, as `Tracks` relates the engine
to them. Every result of the engine covers a part of its account and the last one
covers all of it, so the result with the largest count is the oracle's group.
-/

namespace Stormglass

namespace Oracle

/-- The oracle holds one group for every account with contributions. -/
structure Mirrors (lateness : Nat) (accounts : Accounts) (oracle : Oracle) : Prop where
  allowed : oracle.config.allowedLateness = lateness
  frontier : ∀ key window, (accounts key window).frontier = oracle.currentWatermark
  pane : ∀ key window, oracle.pane key window =
    if (accounts key window).accepted = [] then none
    else some (Pane.holding (accounts key window).accepted)

/-- An addition reaches the group of its key and window and no other. -/
theorem pane_addPane (oracle : Oracle) (key : Bytes) (window : Window) (value : Int)
    (other : Bytes) (place : Window) :
    (oracle.addPane key window value).pane other place =
      if other = key ∧ place = window then
        some { sum := ((oracle.pane key window).getD {}).sum + value,
               count := ((oracle.pane key window).getD {}).count + 1 }
      else oracle.pane other place := by
  unfold addPane pane
  rw [Std.ExtTreeMap.getElem?_insert]
  by_cases own : other = key
  · subst own
    rw [if_pos Std.ReflOrd.compare_self, Option.bind_some, Std.ExtTreeMap.getElem?_insert]
    by_cases here : place = window
    · subst here
      rw [if_pos Std.ReflOrd.compare_self, if_pos ⟨rfl, rfl⟩]
    · have elsewhere : compare window place ≠ .eq := by
        intro same
        exact here (Std.LawfulEqOrd.compare_eq_iff_eq.mp same).symm
      rw [if_neg elsewhere, if_neg (fun both => here both.2),
        Std.ExtTreeMap.getD_eq_getD_getElem?]
      cases oracle.data[other]? <;> simp
  · have apart : compare key other ≠ .eq := by
      intro same
      exact own (Std.LawfulEqOrd.compare_eq_iff_eq.mp same).symm
    rw [if_neg apart, if_neg (fun both => own both.1)]

/-- Where the deadline is representable, the oracle's rule is the engine's. A window
that ends at or after time zero is never dropped before the first watermark. -/
theorem drops_iff {oracle : Oracle} {window : Window} {lateness : Nat}
    (allowed : oracle.config.allowedLateness = lateness) (positive : 0 ≤ window.close.ms)
    (fits : window.close.ms + lateness ≤ 2 ^ 63 - 1) :
    oracle.Drops window ↔ window.deadline lateness ≤ oracle.currentWatermark := by
  have same : Timestamp.ofMs (window.close.ms + lateness) = window.deadline lateness := by
    apply Timestamp.ext
    rw [Timestamp.ofMs_ms (by omega) fits, Window.deadline_ms]
    omega
  unfold Drops
  rw [allowed, same]
  constructor
  · exact And.right
  · intro late
    refine ⟨?_, late⟩
    refine lt_of_lt_of_le ?_ late
    rw [Timestamp.lt_iff, Window.deadline_ms]
    change -2 ^ 63 < _
    omega

namespace Mirrors

variable {lateness : Nat} {accounts : Accounts} {oracle : Oracle}

/-- Adding an accepted value is a deposit. -/
theorem add (mirrors : Mirrors lateness accounts oracle) {key : Bytes} {window : Window}
    {value : Int} (early : oracle.currentWatermark < window.deadline lateness) :
    Mirrors lateness (Represents.deposit lateness accounts key window [value])
      (oracle.addPane key window value) := by
  have accepts : (accounts key window).frontier < window.deadline lateness := by
    rw [mirrors.frontier]
    exact early
  have group : (oracle.pane key window).getD {} =
      Pane.holding (accounts key window).accepted := by
    rw [mirrors.pane]
    by_cases empty : (accounts key window).accepted = []
    · simp [empty, Pane.holding]
    · simp [empty]
  refine ⟨mirrors.allowed, ?_, ?_⟩
  · intro other place
    unfold Represents.deposit Ledger.receive
    split
    · split <;> exact mirrors.frontier other place
    · exact mirrors.frontier other place
  · intro other place
    rw [pane_addPane]
    by_cases here : other = key ∧ place = window
    · obtain ⟨rfl, rfl⟩ := here
      rw [if_pos ⟨rfl, rfl⟩, Represents.deposit_accepted accepts, group]
      simp [Pane.holding]
    · rw [if_neg here, Represents.deposit, if_neg here]
      exact mirrors.pane other place

/-- A late value is no deposit. -/
theorem deposit_late (mirrors : Mirrors lateness accounts oracle) (key : Bytes)
    {window : Window} (late : window.deadline lateness ≤ oracle.currentWatermark)
    (values : List Int) : Represents.deposit lateness accounts key window values = accounts := by
  funext other place
  unfold Represents.deposit
  split
  · next here =>
    obtain ⟨rfl, rfl⟩ := here
    rw [Ledger.receive, mirrors.frontier, if_neg (not_lt.mpr late)]
  · rfl

/-- The loop over the windows of a record deposits its value into each of them and
raises the flag when one is past its deadline. -/
theorem addToWindows_spec (record : Record) (windows : List Window)
    (mirrors : Mirrors lateness accounts oracle)
    (fits : ∀ window ∈ windows, 0 ≤ window.close.ms ∧ window.close.ms + lateness ≤ 2 ^ 63 - 1)
    (anyDropped : Bool) :
    ∃ after, addToWindows record windows oracle anyDropped =
        (after, anyDropped || windows.any
          (fun window => window.deadline lateness ≤ oracle.currentWatermark)) ∧
      after.config = oracle.config ∧ after.currentWatermark = oracle.currentWatermark ∧
      after.predictedDrops = oracle.predictedDrops ∧
      Mirrors lateness (Represents.deposits lateness accounts record.key record.value windows)
        after := by
  induction windows generalizing accounts oracle anyDropped with
  | nil =>
    rw [Represents.deposits_nil]
    exact ⟨oracle, by simp [addToWindows], rfl, rfl, rfl, mirrors⟩
  | cons window rest inductionHypothesis =>
    obtain ⟨positive, small⟩ := fits window List.mem_cons_self
    have rule := drops_iff mirrors.allowed positive small
    have later : ∀ place ∈ rest,
        0 ≤ place.close.ms ∧ place.close.ms + lateness ≤ 2 ^ 63 - 1 :=
      fun place member => fits place (List.mem_cons_of_mem window member)
    rw [addToWindows, ← Represents.deposits_cons]
    by_cases late : window.deadline lateness ≤ oracle.currentWatermark
    · rw [if_pos (rule.mpr late), mirrors.deposit_late record.key late]
      obtain ⟨after, looped, same⟩ := inductionHypothesis mirrors later true
      refine ⟨after, ?_, same⟩
      rw [looped]
      simp [late]
    · rw [if_neg (fun drops => late (rule.mp drops))]
      obtain ⟨after, looped, config, clock, drops, result⟩ :=
        inductionHypothesis (mirrors.add (not_le.mp late)) later anyDropped
      refine ⟨after, ?_, config, clock, drops, result⟩
      rw [looped]
      simp only [List.any_cons, late, decide_false, Bool.false_or]
      rfl

end Mirrors

/-- An oracle that was fed the items: it mirrors their accounts, and its prediction
counts the late records. -/
structure Follows (assigner : WindowAssigner) (lateness : Nat) (items : Batch)
    (config : OracleConfig) (oracle : Oracle) : Prop where
  configured : oracle.config = config
  watermark : oracle.currentWatermark = highestWatermark items
  mirrors : Mirrors lateness (account assigner lateness items) oracle
  drops : oracle.predictedDrops = (lateRecords assigner lateness ⊥ items).length

namespace Follows

variable {assigner : WindowAssigner} {lateness : Nat} {items : Batch} {config : OracleConfig}
  {oracle : Oracle}

section

variable (follows : Follows assigner lateness items config oracle)

include follows

/-- A record, when both sides assign the same windows and their deadlines are
representable. -/
theorem record {record : Record} {windows : List Window}
    (assigned : assigner record.eventTime = .ok windows)
    (same : ∀ window, (oracle.assignWindows record.eventTime).filter (· = window) =
      windows.filter (· = window))
    (fits : ∀ window ∈ windows, 0 ≤ window.close.ms ∧ window.close.ms + lateness ≤ 2 ^ 63 - 1) :
    Follows assigner lateness (items ++ [.record record]) config (oracle.addRecord record) := by
  have members (window : Window) :
      window ∈ oracle.assignWindows record.eventTime ↔ window ∈ windows := by
    have both := congrArg (window ∈ ·) (same window)
    simpa using both
  have deposits : Represents.deposits lateness (account assigner lateness items) record.key
      record.value (oracle.assignWindows record.eventTime) =
        account assigner lateness (items ++ [.record record]) := by
    rw [account_record assigner lateness items assigned]
    funext key window
    rw [Represents.deposits, Represents.deposits, same]
  obtain ⟨after, looped, kept, clock, counted, mirrors⟩ := follows.mirrors.addToWindows_spec record
    (oracle.assignWindows record.eventTime)
    (fun window member => fits window ((members window).mp member))
    false
  have late : (oracle.assignWindows record.eventTime).any
      (fun window => window.deadline lateness ≤ oracle.currentWatermark) =
        IsLate assigner lateness (highestWatermark items) record := by
    rw [IsLate, assigned, follows.watermark, Bool.eq_iff_iff]
    simp only [List.any_eq_true, members]
  rw [late, Bool.false_or] at looped
  rw [deposits] at mirrors
  have moved := highestWatermark_record items record
  have counts : lateRecords assigner lateness ⊥ (items ++ [.record record]) =
      lateRecords assigner lateness ⊥ items ++
        ((some record).filter (IsLate assigner lateness (highestWatermark items))).toList := by
    rw [lateRecords_append, bot_sup_eq]
    rfl
  rw [addRecord, looped]
  cases flagged : IsLate assigner lateness (highestWatermark items) record with
  | false =>
    refine ⟨kept.trans follows.configured, ?_, mirrors, ?_⟩
    · exact clock.trans (follows.watermark.trans moved.symm)
    · simp [counts, flagged, counted, follows.drops, Option.filter]
  | true =>
    refine ⟨kept.trans follows.configured, ?_,
      ⟨mirrors.allowed, mirrors.frontier, mirrors.pane⟩, ?_⟩
    · exact clock.trans (follows.watermark.trans moved.symm)
    · simp [counts, flagged, counted, follows.drops, Option.filter]

/-- A watermark moves the oracle as it moves every account. -/
theorem watermark_item (time : Timestamp) (offset : Nat) :
    Follows assigner lateness (items ++ [watermarkItem time offset]) config
      (oracle.advanceWatermark time) := by
  have moved := highestWatermark_watermark items time offset
  have frontier (key : Bytes) (window : Window) :
      (account assigner lateness items key window).frontier = oracle.currentWatermark :=
    follows.mirrors.frontier key window
  have quiet : lateRecords assigner lateness ⊥ (items ++ [watermarkItem time offset]) =
      lateRecords assigner lateness ⊥ items := by
    rw [lateRecords_append]
    simp
  have accounts := account_watermark assigner lateness items time offset
  unfold advanceWatermark
  split
  · next forward =>
    refine ⟨follows.configured, ?_, ⟨follows.mirrors.allowed, ?_, ?_⟩, ?_⟩
    · rw [moved, ← follows.watermark]
      exact (max_eq_right forward.le).symm
    · intro key window
      rw [accounts, Represents.advanced, Ledger.advance, frontier, if_pos forward]
      split <;> simp
    · intro key window
      rw [accounts, Represents.advanced_accepted]
      exact follows.mirrors.pane key window
    · rw [quiet]
      exact follows.drops
  · next behind =>
    have still : Represents.advanced (account assigner lateness items) time =
        account assigner lateness items := by
      funext key window
      rw [Represents.advanced, Ledger.advance, frontier, if_neg behind]
    refine ⟨follows.configured, ?_, ?_, ?_⟩
    · rw [moved, ← follows.watermark]
      exact (max_eq_left (not_lt.mp behind)).symm
    · rw [accounts, still]
      exact follows.mirrors
    · rw [quiet]
      exact follows.drops

/-- A barrier is not fed to the oracle. -/
theorem barrier_item (stamp : Timestamp) (offset : Nat) :
    Follows assigner lateness (items ++ [.control
      { type := .checkpointBarrier, watermark := stamp, checkpointOffset := offset }]) config
      oracle := by
  refine ⟨follows.configured, ?_, ?_, ?_⟩
  · rw [follows.watermark, highestWatermark_append]
    exact (max_bot_right _).symm
  · rw [account_barrier]
    exact follows.mirrors
  · rw [follows.drops, lateRecords_append]
    simp [BatchItem.record?]

end

theorem create (assigner : WindowAssigner) {config : OracleConfig}
    (allowed : config.allowedLateness = lateness) :
    Follows assigner lateness [] (Oracle.create config).config (Oracle.create config) := by
  refine ⟨rfl, rfl, ⟨?_, fun _ _ => rfl, ?_⟩, rfl⟩
  · rw [← allowed, Oracle.create]
    split <;> rfl
  · intro key window
    have empty : (account assigner lateness [] key window).accepted = [] := rfl
    rw [if_pos empty]
    simp [pane, Oracle.create]

end Follows

end Oracle

/-- `AssignerType`, with the assigner that `MakeAssignerFactory` makes for it. -/
inductive AssignerType where
  | tumbling (assigner : TumblingAssigner)
  | sliding (assigner : SlidingAssigner)

namespace AssignerType

def makeAssigner : AssignerType → WindowAssigner
  | tumbling assigner => assigner.assignWindows
  | sliding assigner => assigner.assignWindows

/-- The configuration that `RunOracleFor` gives to the oracle. -/
def oracleConfig (allowedLateness : Nat) : AssignerType → OracleConfig
  | tumbling assigner =>
      { windowSize := assigner.size, slide := 0, allowedLateness := allowedLateness }
  | sliding assigner =>
      { windowSize := assigner.windowSize, slide := assigner.slide,
        allowedLateness := allowedLateness }

theorem oracleConfig_allowedLateness (lateness : Nat) (kind : AssignerType) :
    (kind.oracleConfig lateness).allowedLateness = lateness := by
  cases kind <;> rfl

/-- In the domain, the engine and the oracle list the same windows, and these end at
nonnegative times. -/
theorem assigns_alike (kind : AssignerType) (lateness : Nat) {oracle : Oracle}
    (configured : oracle.config = (Oracle.create (kind.oracleConfig lateness)).config)
    {eventTime : Timestamp} {windows : List Window}
    (assigned : kind.makeAssigner eventTime = .ok windows) :
    (∀ window, (oracle.assignWindows eventTime).filter (· = window) =
        windows.filter (· = window)) ∧
      ∀ window ∈ windows, 0 ≤ window.close.ms := by
  cases kind with
  | tumbling assigner =>
    have size : oracle.config.windowSize = assigner.size := by rw [configured]; rfl
    have slide : oracle.config.slide = assigner.size := by rw [configured]; rfl
    obtain ⟨nonneg, bounded, exactly⟩ := assigner.assignWindows_exactly assigned
    have enumerated := oracle.assignWindows_exactly (size.symm ▸ assigner.positive)
      (slide.symm ▸ assigner.positive) nonneg
    rw [size, slide] at enumerated
    exact ⟨enumerated.filter_eq exactly, fun _ => exactly.close_nonneg bounded⟩
  | sliding assigner =>
    have normal : oracle.config = (sliding assigner).oracleConfig lateness :=
      configured.trans (if_neg assigner.positive.2.ne')
    have size : oracle.config.windowSize = assigner.windowSize := by rw [normal]; rfl
    have slide : oracle.config.slide = assigner.slide := by rw [normal]; rfl
    obtain ⟨nonneg, bounded, exactly⟩ := assigner.assignWindows_exactly assigned
    have enumerated := oracle.assignWindows_exactly (size.symm ▸ assigner.positive.1)
      (slide.symm ▸ assigner.positive.2) nonneg
    rw [size, slide] at enumerated
    exact ⟨enumerated.filter_eq exactly, fun _ => exactly.close_nonneg bounded⟩

end AssignerType

/-- Every deadline of the stream is representable. -/
def DeadlinesFit (assigner : WindowAssigner) (lateness : Nat) (items : Batch) : Prop :=
  ∀ record ∈ records items, ∀ windows, assigner record.eventTime = .ok windows →
    ∀ window ∈ windows, window.close.ms + lateness ≤ 2 ^ 63 - 1

namespace Oracle

/-- The oracle follows every stream in the domain. -/
theorem feedAll_follows (kind : AssignerType) (lateness : Nat) {items : Batch}
    (domain : Assignable kind.makeAssigner items)
    (fits : DeadlinesFit kind.makeAssigner lateness items) :
    Follows kind.makeAssigner lateness items (create (kind.oracleConfig lateness)).config
      ((create (kind.oracleConfig lateness)).feedAll items) := by
  induction items using List.reverseRecOn with
  | nil => exact Follows.create _ (kind.oracleConfig_allowedLateness lateness)
  | append_singleton items item inductionHypothesis =>
    have earlier (record : Record) (member : record ∈ records items) :
        record ∈ records (items ++ [item]) := by
      rw [records_append]
      exact List.mem_append_left _ member
    have follows := inductionHypothesis domain.dropLast
      (fun record member => fits record (earlier record member))
    rw [feedAll, List.foldl_append]
    change Follows _ _ _ _ (feed (feedAll _ items) item)
    match item with
    | .record record =>
      have last : record ∈ records (items ++ [.record record]) := by
        simp [records, BatchItem.record?]
      obtain ⟨windows, assigned⟩ := domain record last
      obtain ⟨same, nonneg⟩ := kind.assigns_alike lateness follows.configured assigned
      refine follows.record assigned same ?_
      intro window member
      exact ⟨nonneg window member, fits record last windows assigned window member⟩
    | .control { type := .watermark, watermark, checkpointOffset } =>
      exact follows.watermark_item watermark checkpointOffset
    | .control { type := .checkpointBarrier, watermark, checkpointOffset } =>
      exact follows.barrier_item watermark checkpointOffset

/-- The report lists every group once. -/
theorem mem_computeResults (oracle : Oracle) (result : WindowResult) :
    result ∈ oracle.computeResults ↔
      (oracle.pane result.key result.window).map Pane.result = some result.result := by
  rw [computeResults, List.mem_mergeSort, List.mem_flatMap]
  simp only [List.mem_map, Prod.exists, Std.ExtTreeMap.mem_toList_iff_getElem?_eq_some]
  constructor
  · rintro ⟨key, windows, found, window, pane, group, rfl⟩
    simp [Oracle.pane, found, group]
  · intro reported
    obtain ⟨pane, held, same⟩ := Option.map_eq_some_iff.mp reported
    obtain ⟨windows, found, group⟩ := Option.bind_eq_some_iff.mp held
    refine ⟨result.key, windows, found, result.window, pane, group, ?_⟩
    rw [same]

end Oracle

/-- The reduction so far: every place of a result has an entry, which is a result of
that place with the largest count. -/
structure KeepsLargest (results : List WindowResult)
    (best : Std.ExtTreeMap KeyWindow WindowResult) : Prop where
  found : ∀ result ∈ results, ∃ kept, best[result.place]? = some kept
  kept : ∀ place kept, best[place]? = some kept → kept ∈ results ∧ kept.place = place
  largest : ∀ place kept, best[place]? = some kept → ∀ result ∈ results, result.place = place →
    result.result.count ≤ kept.result.count

theorem keepLarger_keepsLargest {results : List WindowResult}
    {best : Std.ExtTreeMap KeyWindow WindowResult} (keeps : KeepsLargest results best)
    (result : WindowResult) : KeepsLargest (results ++ [result]) (keepLarger best result) := by
  -- What the step leaves at every place.
  have entries (place : KeyWindow) : (keepLarger best result)[place]? =
      if place = result.place ∧ (∀ kept, best[place]? = some kept →
        kept.result.count < result.result.count) then some result else best[place]? := by
    unfold keepLarger
    split
    · next none =>
      rw [Std.ExtTreeMap.getElem?_insert]
      by_cases here : place = result.place
      · subst here
        simp [none]
      · have apart : compare result.place place ≠ .eq := fun same =>
          here (Std.LawfulEqOrd.compare_eq_iff_eq.mp same).symm
        rw [if_neg apart, if_neg (fun both => here both.1)]
    · next kept held =>
      by_cases larger : kept.result.count < result.result.count
      · rw [if_pos larger, Std.ExtTreeMap.getElem?_insert]
        by_cases here : place = result.place
        · subst here
          simp [held, larger]
        · have apart : compare result.place place ≠ .eq := fun same =>
            here (Std.LawfulEqOrd.compare_eq_iff_eq.mp same).symm
          rw [if_neg apart, if_neg (fun both => here both.1)]
      · rw [if_neg larger]
        split
        · next both =>
          obtain ⟨rfl, smaller⟩ := both
          exact absurd (smaller kept held) larger
        · rfl
  constructor
  · intro other member
    rw [entries]
    split
    · exact ⟨result, rfl⟩
    · next stays =>
      rcases List.mem_append.mp member with before | last
      · exact keeps.found other before
      · rw [List.mem_singleton.mp last] at stays ⊢
        by_contra absent
        refine stays ⟨rfl, ?_⟩
        intro kept held
        exact absurd ⟨kept, held⟩ absent
  · intro place kept held
    rw [entries] at held
    split at held
    · next both =>
      obtain rfl := Option.some.inj held
      exact ⟨List.mem_append_right _ (List.mem_singleton_self _), both.1.symm⟩
    · obtain ⟨member, same⟩ := keeps.kept place kept held
      exact ⟨List.mem_append_left _ member, same⟩
  · intro place kept held other member same
    rw [entries] at held
    split at held
    · next both =>
      obtain rfl := Option.some.inj held
      rcases List.mem_append.mp member with before | last
      · obtain ⟨previous, found⟩ := keeps.found other before
        rw [same] at found
        exact (keeps.largest place previous found other before same).trans
          (both.2 previous found).le
      · rw [List.mem_singleton.mp last]
    · next stays =>
      rcases List.mem_append.mp member with before | last
      · exact keeps.largest place kept held other before same
      · rw [List.mem_singleton.mp last] at same ⊢
        by_contra larger
        refine stays ⟨same.symm, ?_⟩
        intro previous found
        obtain rfl := Option.some.inj (held.symm.trans found)
        exact not_le.mp larger

theorem foldl_keepLarger_keepsLargest (results : List WindowResult) :
    KeepsLargest results (results.foldl keepLarger ∅) := by
  induction results using List.reverseRecOn with
  | nil => constructor <;> simp
  | append_singleton results result inductionHypothesis =>
    rw [List.foldl_append]
    exact keepLarger_keepsLargest inductionHypothesis result

theorem mem_dedupEngineResults {results : List WindowResult} {result : WindowResult} :
    result ∈ dedupEngineResults results ↔
      (results.foldl keepLarger ∅)[result.place]? = some result := by
  rw [dedupEngineResults, List.mem_map]
  simp only [Prod.exists, Std.ExtTreeMap.mem_toList_iff_getElem?_eq_some]
  constructor
  · rintro ⟨place, kept, held, rfl⟩
    rw [((foldl_keepLarger_keepsLargest results).kept place kept held).2]
    exact held
  · intro held
    exact ⟨result.place, result, held, rfl⟩

section Agreement

open KeyedWindowState

/-- When the output echoes accounts that have published everything, the reduction is
the sums and counts of what they accepted. -/
theorem mem_dedup_of_echoes {results : List WindowResult} {accounts : Accounts}
    (echoes : ∀ key window, Echoes (resultsFor key window results)
      (publishedResults (accounts key window)))
    (covered : ∀ key window, Ledger.Covered (accounts key window))
    (settled : ∀ key window, (accounts key window).settled = (accounts key window).accepted)
    (result : WindowResult) :
    result ∈ dedupEngineResults results ↔
      (accounts result.key result.window).accepted ≠ [] ∧
        result.result = (Pane.holding (accounts result.key result.window).accepted).result := by
  have keeps := foldl_keepLarger_keepsLargest results
  -- The complete result of an account with contributions has been emitted.
  have complete (key : Bytes) (window : Window) (nonempty : (accounts key window).accepted ≠ []) :
      ({ key := key, window := window,
         result := (Pane.holding (accounts key window).accepted).result } : WindowResult) ∈
        results := by
    rw [← mem_resultsFor]
    exact List.mem_of_getLast?
      (last_result_of_echoes (echoes key window) (settled key window) nonempty)
  have sound (kept : WindowResult) (reduced : kept ∈ dedupEngineResults results) :
      (accounts kept.key kept.window).accepted ≠ [] ∧
        kept.result = (Pane.holding (accounts kept.key kept.window).accepted).result := by
    have held := mem_dedupEngineResults.mp reduced
    obtain ⟨member, _⟩ := keeps.kept _ _ held
    have emitted := ((echoes kept.key kept.window).members kept.result).mp
      (mem_resultsFor.mpr member)
    rw [publishedResults, List.mem_map] at emitted
    obtain ⟨publication, published, same⟩ := emitted
    have early := (covered kept.key kept.window).covered publication published
    have nonempty : (accounts kept.key kept.window).accepted ≠ [] := by
      intro empty
      rw [empty, List.prefix_nil] at early
      exact (covered kept.key kept.window).nonempty publication published early
    have bound := keeps.largest _ _ held _ (complete kept.key kept.window nonempty) rfl
    rw [← same] at bound
    have whole : publication = (accounts kept.key kept.window).accepted :=
      early.eq_of_length (le_antisymm early.length_le bound)
    exact ⟨nonempty, by rw [← same, whole]⟩
  constructor
  · exact sound result
  · rintro ⟨nonempty, same⟩
    obtain ⟨kept, held⟩ := keeps.found _ (complete result.key result.window nonempty)
    obtain ⟨_, place⟩ := keeps.kept _ _ held
    obtain ⟨key, window⟩ := KeyWindow.mk.inj place
    have reduced : kept ∈ dedupEngineResults results := by
      rw [mem_dedupEngineResults, place]
      exact held
    have value := (sound kept reduced).2
    have identical : kept = result := by
      cases kept
      cases result
      simp only at key window value same
      subst key window
      rw [value, same]
    rw [← identical]
    exact reduced

/-- The engine and the oracle agree on every finite trajectory in the domain of the
assigner whose deadlines and sums are representable: the engine's reduced results are
the oracle's results, and it drops the records that the oracle predicts. -/
theorem engine_agrees_with_oracle {σ : Type} [Source σ] (kind : AssignerType) (lateness : Nat)
    (source : σ) (batches : List Batch) (delivers : Source.Delivers source batches)
    (domain : Assignable kind.makeAssigner batches.flatten)
    (fits : DeadlinesFit kind.makeAssigner lateness batches.flatten)
    (room : Representable kind.makeAssigner lateness batches.flatten)
    (fuel : Nat) (enough : batches.length < fuel) :
    let oracle := (Oracle.create (kind.oracleConfig lateness)).feedAll batches.flatten
    ∃ pipeline, Pipeline.run fuel source kind.makeAssigner lateness false = .ok pipeline ∧
      (∀ result, result ∈ dedupEngineResults pipeline.results ↔
        result ∈ oracle.computeResults) ∧
      pipeline.processor.stats.lateRecordsDropped = oracle.predictedDrops := by
  intro oracle
  obtain ⟨effects, processor, processed, tracks⟩ := processItems_tracks false domain room
  obtain ⟨pipeline, ran, final, done⟩ := Pipeline.runLoop_eq delivers processed enough []
  have follows := Oracle.feedAll_follows kind lateness domain fits
  refine ⟨pipeline, ran, ?_, ?_⟩
  · intro result
    have published (key : Bytes) (window : Window) :
        (account kind.makeAssigner lateness batches.flatten key window).publish.settled =
          (account kind.makeAssigner lateness batches.flatten key window).publish.accepted := by
      rw [Ledger.publish_accepted]
      exact (tracks.represents.kept key window).publish_settled
    have reduced := mem_dedup_of_echoes tracks.flush_echoes.1
      (fun key window => (tracks.represents.kept key window).toCovered.publish) published result
    rw [Pipeline.results, done, List.nil_append, reduced, Oracle.mem_computeResults,
      follows.mirrors.pane, Ledger.publish_accepted]
    by_cases empty : (account kind.makeAssigner lateness batches.flatten result.key
        result.window).accepted = []
    · simp [empty]
    · simp [empty, eq_comm]
  · rw [final, follows.drops, ← tracks.dropped]
    unfold KeyedProcessor.finalFlush
    dsimp only
    split <;> rfl

/-- Representable deadlines are decidable on a stream. -/
theorem deadlinesFit_of_all {assigner : WindowAssigner} {lateness : Nat} {items : Batch}
    (all : (records items).all (fun record => ((assigner record.eventTime).toOption.getD []).all
      (fun window => window.close.ms + lateness ≤ 2 ^ 63 - 1)) = true) :
    DeadlinesFit assigner lateness items := by
  intro record member windows assigned window listed
  have inside := List.all_eq_true.mp all record member
  rw [assigned] at inside
  exact of_decide_eq_true (List.all_eq_true.mp inside window listed)

/-- Sliding windows of ten milliseconds, every five. -/
def tenEveryFive : SlidingAssigner :=
  { windowSize := 10, slide := 5, positive := by decide, bounded := by decide }

/-- The late stream in batches, one of them empty. -/
def lateSource : ScriptedSource := { script := [lateStream.take 1, [], lateStream.drop 1] }

/-- Without lateness, one record of the late stream loses its windows on both sides. -/
theorem lateStream_agrees :
    let oracle := (Oracle.create ((AssignerType.sliding tenEveryFive).oracleConfig 0)).feedAll
      lateStream
    oracle.predictedDrops = 1 ∧
    ∃ pipeline, Pipeline.run 4 lateSource (AssignerType.sliding tenEveryFive).makeAssigner 0
        false = .ok pipeline ∧
      (∀ result, result ∈ dedupEngineResults pipeline.results ↔
        result ∈ oracle.computeResults) ∧
      pipeline.processor.stats.lateRecordsDropped = oracle.predictedDrops :=
  ⟨by decide +kernel,
    engine_agrees_with_oracle (.sliding tenEveryFive) 0 lateSource lateSource.script
      (ScriptedSource.delivers lateSource) (assignable_of_all (by decide +kernel))
      (deadlinesFit_of_all (by decide +kernel))
      (representable_of_magnitude (by decide +kernel) (by decide +kernel)) 4 (by decide)⟩

end Agreement

end Stormglass
